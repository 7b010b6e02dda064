import Openvocs.VocsDb.Consistency

open List Option

namespace openvocs.vocs_db

open Db Json Update assoc

/-- Every id of a type is at one place of the tree at most. -/
def UniqueIds (db : Db) : Prop :=
  ∀ entity id path other, ¬ is_admin_role entity id → Sits db entity id path → Sits db entity id other →
    path = other

/-- The users, roles and loops of every project are absent or objects. -/
def Tidy (db : Db) : Prop :=
  ∀ domain project (kind : Entity), kind.is_item = true → db.has [domain, "projects", project, kind.container] →
    db.is_object_at [domain, "projects", project, kind.container] = true

/-- What every call keeps. -/
structure Indexed (db : Db) : Prop where
  covered : Covered db
  placed : Placed db
  tidy : Tidy db

theorem Covered.unique {db : Db} (h : Covered db) : UniqueIds db := by
  intro entity id path other hid hpath hother
  have hget := h entity id path hid hpath
  rw [h entity id other hid hother] at hget
  cases hget
  rfl

theorem indexed_empty : Indexed Db.empty := by
  refine ⟨((consistent_iff _).mp consistent_empty).1, placed_empty, ?_⟩
  intro domain project kind _ hhas
  simp [has, Db.node, Db.empty] at hhas

/-- The ids that projects bring in. -/
def brings (projects : Json) (entity : Entity) (id : String) : Prop :=
  ∃ project val, projects.object_get project = some val ∧
    ((entity = .project ∧ id = project) ∨ in_scope val entity id)

/-- New projects of a domain fit into the tree: their users, roles and loops can be
    walked, no two of them have an id in common, and no id in them is in use outside
    the old projects of the domain or about to be taken. -/
structure ProjectsFit (db : Db) (domain : String) (projects : Json) (taken : Entity → String → Prop) : Prop where
  walkable : projects_walkable projects = true
  distinct : ∀ {entity id project other val other_val}, ¬ is_admin_role entity id →
    projects.object_get project = some val → projects.object_get other = some other_val →
    in_scope val entity id → in_scope other_val entity id → project = other
  fresh : ∀ {entity id}, ¬ is_admin_role entity id → brings projects entity id →
    (∀ path, Sits db entity id path → [domain, "projects"] <+: path) ∧ ¬ taken entity id

/-- The ids of users, roles and loops among the keys of an item. -/
def taken_by (entries : List (String × Json)) (entity : Entity) (id : String) : Prop :=
  entity.is_item = true ∧ ∃ entry ∈ entries, entry.1 = entity.container ∧ is_member (some entry.2) id

/-- The calls that keep ids unique. Only an update of the projects of a domain can
    fail to; an item may bring users, roles and loops of the domain before them. -/
def Op.fits (db : Db) : Op → Prop
  | .update_entity_key .domain id key projects =>
    key = "projects" → projects.is_object = true → db.has [id] → ProjectsFit db id projects (fun _ _ => False)
  | .update_entity_item .domain id val =>
    ∀ errors projects, verify_entity_item .domain id val db = some (true, errors) →
      val.object_get "projects" = some projects → projects.is_object = true → db.has [id] →
      ProjectsFit db id projects
        (taken_by (((val.object_entries).getD []).takeWhile (fun entry => decide (entry.1 ≠ "projects"))))
  | _ => True

section Tidy

variable {db db' : Db}

theorem Tidy.writes {path : Path} (h : Tidy db) (hwrites : Db.Writes path db db')
    (hbelow : ∀ domain project (kind : Entity), kind.is_item = true →
      path <+: [domain, "projects", project, kind.container] →
      db'.has [domain, "projects", project, kind.container] →
      db'.is_object_at [domain, "projects", project, kind.container] = true) : Tidy db' := by
  intro domain project kind hkind hhas
  by_cases hpre : path <+: [domain, "projects", project, kind.container]
  · exact hbelow domain project kind hkind hpre hhas
  rw [hwrites.is_object_at_eq hpre]
  exact h domain project kind hkind ((hwrites.has_iff hpre).mp hhas)

theorem Tidy.object_del (h : Tidy db) (path : Path) (key : String) : Tidy (db.object_del path key).2 := by
  cases hobject : db.is_object_at path with
  | false => simpa [object_del_of_not_object hobject] using h
  | true =>
    refine h.writes (writes_object_del hobject key) ?_
    rintro domain project kind _ ⟨rest, hrest⟩ hhas
    refine absurd ?_ (not_has_object_del_below hobject key rest)
    rw [← hrest] at hhas
    simpa using hhas

theorem Tidy.of_domains_eq (h : Tidy db) (hdomains : db'.domains = db.domains) : Tidy db' := by
  intro domain project kind hkind hhas
  unfold is_object_at
  rw [node_of_domains_eq hdomains]
  refine h domain project kind hkind ?_
  rw [has, ← node_of_domains_eq hdomains]
  exact hhas

theorem Tidy.scope_walkable (h : Tidy db) {domain project : String} {val : Json}
    (hnode : db.node [domain, "projects", project] = some val) : scope_walkable val = true := by
  have hcontent : ∀ kind : Entity, kind.is_item = true → walkable (val.object_get kind.container) = true := by
    intro kind hkind
    have hmember := node_member hnode kind.container
    have htidy := h domain project kind hkind
    simp only [has, is_object_at, List.cons_append, nil_append] at htidy hmember
    rw [hmember] at htidy
    cases hget : val.object_get kind.container with
    | none => rfl
    | some content =>
      rw [hget] at htidy
      simpa [walkable] using htidy rfl
  simp only [vocs_db.scope_walkable, Bool.and_eq_true]
  exact ⟨⟨hcontent .user rfl, hcontent .role rfl⟩, hcontent .loop rfl⟩

end Tidy

section Create

variable {db db' mid : Db} {ok : Bool} {entity : Entity} {id : String}

theorem Tidy.content_created (h : Tidy db) (path : Path) (key : String) :
    Tidy (get_create_content path key db).2 := by
  rcases get_create_content_cases db path key with ⟨_, heq⟩ | ⟨_, heq⟩
  · simpa [heq] using h
  rw [heq]
  cases hobject : db.is_object_at path with
  | false => simpa [object_set_of_not_object hobject] using h
  | true =>
    refine h.writes (writes_object_set hobject key _) ?_
    intro domain project kind _ hbelow hhas
    rw [has_object_set_empty hobject hbelow hhas]
    have hnew := node_object_set_below hobject key (.object []) []
    simp [is_object_at, hnew, node_at, Json.is_object]

theorem Tidy.domains_created (h : Tidy db) :
    Tidy { db with domains := some (db.domains.getD (.object [])) } := by
  cases hdomains : db.domains with
  | some root => exact h.of_domains_eq (by simp [hdomains])
  | none =>
    intro domain project kind _ hhas
    simp [has, Db.node, node_at, Json.object_get] at hhas

theorem Tidy.new_entity {parent : Path} (h : Tidy mid) (hobject : mid.is_object_at parent = true)
    (hplace : IsPlace entity id (parent ++ [id])) : Tidy (mid.object_set parent id (new_entity id)).2 := by
  refine h.writes (writes_object_set hobject id _) ?_
  rintro domain project kind hkind ⟨rest, hrest⟩ hhas
  have hodd := hplace.length_odd
  have hlength := congrArg List.length hrest
  rw [← hrest, append_assoc, singleton_append, has, node_object_set_below hobject] at hhas
  cases rest with
  | nil =>
    simp only [List.append_nil, length_append, length_cons, length_nil] at hlength hodd
    omega
  | cons first rest =>
    by_cases hfirst : first = "id"
    · subst hfirst
      cases rest with
      | nil =>
        have hlast := congrArg List.getLast? hrest
        cases kind <;> simp [Entity.container] at hlast hkind
      | cons second rest => simp [node_at, vocs_db.new_entity, Json.object_get] at hhas
    · simp [node_at, vocs_db.new_entity, Json.object_get, lookup_cons_eq, hfirst] at hhas

theorem Indexed.create_entity (h : Indexed db) {scope : Scope} {scope_id : String}
    (hstep : create_entity entity id scope scope_id db = some (ok, db')) : Indexed db' := by
  refine ⟨h.covered.create_entity h.placed hstep, h.placed.create_entity hstep, ?_⟩
  rcases create_entity_cases hstep with ⟨_, rfl⟩ | ⟨_, parent, mid, hparent, hset⟩
  · exact h.tidy
  have hmid : Tidy mid := by
    rcases get_parent_eq_some hparent with ⟨_, _, rfl⟩ | ⟨_, _, data, _, _, hcreate⟩
    · exact h.tidy.domains_created
    · simpa [hcreate] using h.tidy.content_created data entity.container
  rcases hset with ⟨_, _, rfl⟩ | ⟨_, hobject, rfl⟩
  · exact hmid
  have hnew := hmid.new_entity hobject (h.placed.isPlace_of_get_parent hparent id)
  split
  · exact hnew
  · exact hnew.of_domains_eq rfl

end Create

section Delete

variable {db db' : Db} {ok : Bool} {entity : Entity} {id key : String}

section

variable (h : Indexed db)

include h

theorem Indexed.object_del (path : Path) (key : String) : Indexed (db.object_del path key).2 :=
  ⟨h.covered.object_del path key, h.placed.object_del path key, h.tidy.object_del path key⟩

theorem Indexed.index_set_loose {value : Json}
    (hget : db.index_get .user id = some (.loose value)) (value' : Json) :
    Indexed (db.index_set .user id (.loose value')) := by
  refine ⟨?_, h.placed.index_set (.loose value' rfl), h.tidy.of_domains_eq rfl⟩
  intro other other_id path hid hsits
  rw [index_get_index_set, if_neg]
  · exact h.covered other other_id path hid hsits
  rintro ⟨rfl, rfl⟩
  rw [h.covered .user other_id path hid hsits] at hget
  cases hget

theorem Indexed.project_covered (domain project : String)
    (hhas : db.has [domain, "projects", project]) :
    db.index_get .project project = some (.node [domain, "projects", project]) :=
  h.covered .project project _ (fun hadmin => by cases hadmin.1) ⟨.project domain project, hhas⟩

theorem unindex_entity_spec {path : Path} (hget : db.index_get entity id = some (.node path)) :
    ∃ ok gone mid, unindex_entity entity id db = some (ok, mid) ∧ UnindexedBelow path ok gone db mid := by
  have hsits := h.placed.sits hget
  obtain ⟨val, hnode⟩ := isSome_iff_exists.mp hsits.2
  have hitem : entity.is_item = true → ∃ ok gone mid, unindex_entity entity id db = some (ok, mid) ∧
      UnindexedBelow path ok gone db mid := by
    intro hitem
    obtain ⟨hunindex, hun⟩ := unindex_item_spec hitem hsits
    exact ⟨_, _, _, hunindex, hun⟩
  cases entity with
  | domain =>
    cases hsits.1 with
    | domain =>
      obtain ⟨gone, mid, hunindex, hun, _⟩ := unindex_domain_spec hnode (h.project_covered id)
      exact ⟨_, gone, mid, hunindex, hun⟩
    | item himpossible => cases himpossible
  | project =>
    cases hsits.1 with
    | project domain =>
      obtain ⟨gone, mid, hunindex, hun, _⟩ := unindex_project_spec hget hnode
      exact ⟨_, gone, mid, hunindex, hun⟩
    | item himpossible => cases himpossible
  | loop => exact hitem rfl
  | role => exact hitem rfl
  | user => exact hitem rfl

theorem Indexed.db_delete (hstep : db_delete entity id db = some (ok, db')) :
    Indexed db' ∧ (entity = .domain → db'.node [id] = none) := by
  have hplaced := h.placed.db_delete hstep
  unfold vocs_db.db_delete at hstep
  cases hget : db.index_get entity id with
  | none =>
    simp only [hget, some.injEq, Prod.mk.injEq] at hstep
    obtain ⟨_, rfl⟩ := hstep
    refine ⟨h, ?_⟩
    rintro rfl
    by_contra hnode
    have hsits : Sits db .domain id [id] := ⟨.domain id, isSome_iff_ne_none.mpr hnode⟩
    rw [h.covered .domain id _ (fun hadmin => by cases hadmin.1) hsits] at hget
    cases hget
  | some ptr =>
    simp only [hget] at hstep
    cases h.placed entity id ptr hget with
    | dangling =>
      split at hstep <;> cases hstep
    | loose value huser =>
      subst huser
      cases hstep
      refine ⟨⟨?_, hplaced, h.tidy.of_domains_eq rfl⟩, fun hdomain => by cases hdomain⟩
      intro other other_id path hid hsits
      rw [index_get_index_del, if_neg]
      · exact h.covered other other_id path hid hsits
      rintro ⟨rfl, rfl⟩
      rw [h.covered .user other_id path hid hsits] at hget
      cases hget
    | @node path hsits =>
      obtain ⟨flag, gone, mid, hunindex, hun⟩ := unindex_entity_spec h hget
      simp only [hunindex, some.injEq, Prod.mk.injEq] at hstep
      obtain ⟨_, rfl⟩ := hstep
      have hlast := hsits.1.eq_dropLast_append
      have hmid : Tidy mid := h.tidy.of_domains_eq hun.unindexed.domains_eq
      rw [hlast] at hun
      refine ⟨⟨h.covered.prune hun, hplaced, hmid.object_del _ _⟩, ?_⟩
      rintro rfl
      cases hsits.1 with
      | domain =>
        have hobject : mid.is_object_at [] = true := by
          refine is_object_at_of_has id ?_
          rw [has, node_of_domains_eq hun.unindexed.domains_eq]
          exact hsits.2
        have hgone := not_has_object_del_below hobject id []
        simpa [has] using hgone
      | item himpossible => cases himpossible

theorem Indexed.delete_in_parents {parent : Entity} {item : String} (hparent : parent ≠ .user)
    (hstep : delete_in_parents parent item id db = some (ok, db')) : Indexed db' := by
  refine walk_invariant Indexed (db.index_entries parent) ?_ h hstep
  intro key ptr hmem mid ok next hmid hnext
  rcases delete_in_parent_cases hnext with rfl | ⟨path, _, rfl⟩ | ⟨value, value', rfl, rfl⟩
  · exact hmid
  · exact hmid.object_del _ _
  cases h.placed parent key _ ((assoc.mem_entries_iff _ _ _).mp hmem) with
  | loose _ huser => exact absurd huser hparent

theorem Indexed.delete_entity (hstep : delete_entity entity id db = some (ok, db')) :
    Indexed db' := by
  simp only [vocs_db.delete_entity, bind_eq_bind, bind_eq_some_iff] at hstep
  obtain ⟨⟨result, mid⟩, hdelete, ⟨references, last⟩, hrefs, hlast⟩ := hstep
  cases hlast
  obtain ⟨hmid, hdomain⟩ := h.db_delete hdelete
  have htwo : ∀ item, ((vocs_db.delete_in_parents .domain item id mid).bind fun r =>
      (vocs_db.delete_in_parents .project item id r.2).bind fun s => some (r.1 && s.1, s.2)) =
        some (references, last) → Indexed last := by
    intro item htwo
    simp only [bind_eq_some_iff] at htwo
    obtain ⟨⟨in_domains, next⟩, hdomains, ⟨in_projects, final⟩, hprojects, hfinal⟩ := htwo
    cases hfinal
    exact (hmid.delete_in_parents (by decide) hdomains).delete_in_parents (by decide) hprojects
  cases entity with
  | domain =>
    simp only [delete_references, unindex_domain, hdomain rfl, some.injEq, Prod.mk.injEq] at hrefs
    exact hrefs.2 ▸ hmid
  | project => exact hmid.delete_in_parents (by decide) hrefs
  | loop => exact htwo _ hrefs
  | role => exact htwo _ hrefs
  | user => exact hmid.delete_in_parents (by decide) hrefs

theorem Indexed.delete_scope_key {path : Path} (hpath : IsScope path)
    (hdomain : entity = .domain → ∃ domain, path = [domain]) (hproject : entity ≠ .domain → path.length = 3)
    (hstep : delete_scope_key entity path key db = some (ok, db')) : Indexed db' := by
  obtain ⟨result, flag, gone, mid, hunindex, hun, _⟩ :=
    unindex_key_spec h.covered hpath entity key hdomain hproject
  have hplaced := h.placed.delete_scope_key hstep
  simp only [vocs_db.delete_scope_key, hunindex, some.injEq, Prod.mk.injEq] at hstep
  obtain ⟨_, rfl⟩ := hstep
  exact ⟨h.covered.prune hun, hplaced, (h.tidy.of_domains_eq hun.unindexed.domains_eq).object_del path key⟩

theorem Indexed.delete_entity_key
    (hstep : delete_entity_key entity id key db = some (ok, db')) : Indexed db' := by
  unfold vocs_db.delete_entity_key at hstep
  split at hstep
  · cases hstep
    exact h
  cases hget : db.index_get entity id with
  | none =>
    simp only [hget, some.injEq, Prod.mk.injEq] at hstep
    exact hstep.2 ▸ h
  | some ptr =>
    simp only [hget] at hstep
    have hitem : ∀ path, ptr = .node path → some (db.object_del path key) = some (ok, db') → Indexed db' := by
      intro path _ hdel
      have hindexed := h.object_del path key
      rw [some.inj hdel] at hindexed
      exact hindexed
    cases h.placed entity id ptr hget with
    | dangling => cases entity <;> cases hstep
    | loose value huser =>
      subst huser
      cases hstep
      exact h.index_set_loose hget _
    | @node path hsits =>
      cases entity with
      | domain =>
        refine h.delete_scope_key (hsits.1.isScope rfl) (fun _ => ?_) (fun hne => absurd rfl hne) hstep
        cases hsits.1 with
        | domain => exact ⟨id, rfl⟩
        | item himpossible => cases himpossible
      | project =>
        refine h.delete_scope_key (hsits.1.isScope rfl) (fun hne => by cases hne) (fun _ => ?_) hstep
        cases hsits.1 with
        | project => rfl
        | item himpossible => cases himpossible
      | loop => exact hitem path rfl hstep
      | role => exact hitem path rfl hstep
      | user => exact hitem path rfl hstep

end

end Delete

/-- What the update of a key keeps: the entities it adds are among the new users,
    roles or loops. -/
structure KeyUpdate (key : String) (val : Json) (db db' : Db) : Prop where
  indexed : Indexed db'
  sits : ∀ {entity id path}, Sits db' entity id path → Sits db entity id path ∨ taken_by [(key, val)] entity id

theorem KeyUpdate.refl {db : Db} (h : Indexed db) (key : String) (val : Json) : KeyUpdate key val db db :=
  ⟨h, .inl⟩

section Update

variable {db db' : Db} {ok : Bool} {scope : Path} {key : String} {val : Json}

theorem ContentUpdate.keyUpdate {kind : Entity} (hupdate : ContentUpdate kind scope val db db') (h : Indexed db)
    (hplaced : Placed db') (hkind : kind.is_item = true) (hscope : IsScope scope) :
    KeyUpdate kind.container val db db' := by
  refine ⟨⟨hupdate.covered, hplaced, ?_⟩, ?_⟩
  · intro domain project other hother hhas
    by_cases hbelow : scope ++ [kind.container] <+: [domain, "projects", project, other.container]
    · have hsame : scope ++ [kind.container] = [domain, "projects", project, other.container] := by
        cases hscope with
        | domain => cases kind <;> simp [cons_prefix_cons, Entity.container, Entity.is_item] at hbelow hkind
        | project => exact hbelow.eq_of_length rfl
      rw [← hsame] at hhas ⊢
      refine hupdate.is_object ?_ hhas
      rw [hsame]
      exact h.tidy domain project other hother
    rw [hupdate.is_object_at_eq hbelow]
    exact h.tidy domain project other hother ((hupdate.has_iff hbelow).mp hhas)
  intro entity id path hsits
  by_cases hbelow : scope ++ [kind.container] <+: path
  · obtain ⟨rfl, rfl, hhas⟩ := (sits_below_content hscope hkind).mp ⟨hsits, hbelow⟩
    rcases hupdate.members hhas with hold | hnew
    · exact .inl ⟨hsits.1, hold⟩
    · exact .inr ⟨hkind, _, mem_singleton_self _, rfl, hnew⟩
  · exact .inl ⟨hsits.1, (hupdate.has_iff hbelow).mp hsits.2⟩

theorem KeyUpdate.update_users (h : Indexed db) (hscope : IsScope scope)
    (hstep : update_users scope val db = some (ok, db')) : KeyUpdate "users" val db db' := by
  have hplaced := h.placed.update_users hscope hstep
  cases hobject : db.is_object_at scope with
  | true =>
    obtain ⟨flag, next, hsame, hupdate⟩ := update_users_spec h.covered h.placed hscope hobject val
    rw [hsame] at hstep
    cases hstep
    exact hupdate.keyUpdate h hplaced rfl hscope
  | false =>
    obtain ⟨flag, next, hsame, hdomains, hindex⟩ := update_users_loose_spec hobject val
    rw [hsame] at hstep
    cases hstep
    refine ⟨⟨?_, hplaced, h.tidy.of_domains_eq hdomains⟩, fun hsits => .inl (hsits.of_domains_eq hdomains.symm)⟩
    intro entity id path hid hsits
    have hget := h.covered entity id path hid (hsits.of_domains_eq hdomains.symm)
    rcases hindex entity id with ⟨⟨rfl, hmember, hfree⟩, _⟩ | ⟨_, hkept⟩
    · rw [hfree id hmember] at hget
      cases hget
    · rw [hkept, hget]

theorem KeyUpdate.object_set {path : Path} (h : Indexed db) (key : String) (val : Json)
    (hnone : ∀ {entity id place}, IsPlace entity id place → ¬ path ++ [key] <+: place) :
    KeyUpdate key val db (db.object_set path key val).2 := by
  cases hobject : db.is_object_at path with
  | false =>
    rw [object_set_of_not_object hobject]
    exact KeyUpdate.refl h key val
  | true =>
    have hwrites := writes_object_set hobject key val
    refine ⟨⟨h.covered.writes hwrites ?_, h.placed.object_set path key val, h.tidy.writes hwrites ?_⟩, ?_⟩
    · exact fun entity id place _ hbelow hsits => hnone hsits.1 hbelow
    · intro domain project kind hkind hbelow _
      have hplace := IsPlace.item hkind (.project domain project) ""
      refine absurd (hbelow.trans ?_) (hnone hplace)
      simp [cons_prefix_cons]
    intro entity id place hsits
    exact .inl ⟨hsits.1, (hwrites.has_iff (hnone hsits.1)).mp hsits.2⟩

theorem KeyUpdate.update_project {u u' : Update} (h : Indexed u.db) (hscope : IsScope scope)
    (hprojects : key = "projects" → scope.length = 3)
    (hstep : update_project scope key val u = some (ok, u')) : KeyUpdate key val u.db u'.db := by
  have hplaced := h.placed.update_project hscope hstep
  unfold vocs_db.update_project at hstep
  split at hstep
  · rename_i hkey
    subst hkey
    exact KeyUpdate.update_users h hscope (lift_eq_some hstep).1
  rename_i husers
  split at hstep
  · rename_i hkey
    subst hkey
    obtain ⟨flag, next, hsame, hupdate⟩ := update_roles_spec h.covered h.placed hscope val
    obtain ⟨hroles, _⟩ := lift_eq_some hstep
    rw [hsame] at hroles
    cases hroles
    exact hupdate.keyUpdate h hplaced rfl hscope
  rename_i hroles
  split at hstep
  · rename_i hkey
    subst hkey
    obtain ⟨flag, next, hsame, hupdate⟩ := update_loops_spec h.covered h.placed hscope val
    rw [hsame] at hstep
    cases hstep
    exact hupdate.keyUpdate h hplaced rfl hscope
  rename_i hloops
  split at hstep
  · cases hstep
    exact KeyUpdate.refl h key val
  have hset := (lift_eq_some hstep).1
  simp only [some.injEq] at hset
  have hnone : ∀ {entity id place}, IsPlace entity id place → ¬ scope ++ [key] <+: place := by
    intro entity id place hplace hbelow
    rcases hscope.key_of_place hplace hbelow with hkey | hkey | hkey | ⟨hkey, domain, rfl⟩
    · exact husers hkey
    · exact hroles hkey
    · exact hloops hkey
    · simpa using hprojects hkey
  have hupdate := KeyUpdate.object_set h key val hnone
  rw [hset] at hupdate
  exact hupdate

theorem KeyUpdate.update_entity {u u' : Update} {entity : Entity} {id : String} {ptr : Ptr} (h : Indexed u.db)
    (hitem : entity.is_item = true) (hshape : PtrShape entity id ptr)
    (hstep : update_entity entity id ptr key val u = some (ok, u')) : KeyUpdate key val u.db u'.db := by
  unfold vocs_db.update_entity at hstep
  split at hstep
  · cases hstep
  obtain ⟨hset, _⟩ := lift_eq_some hstep
  cases ptr with
  | node path =>
    simp only [vocs_db.set_through, some.injEq] at hset
    have hupdate := KeyUpdate.object_set h key val (fun hplace => IsPlace.not_below_member hshape hitem hplace key)
    rw [hset] at hupdate
    exact hupdate
  | loose value =>
    obtain rfl : entity = .user := hshape
    simp only [vocs_db.set_through] at hset
    split at hset
    · rename_i hget
      simp only [some.injEq, Prod.mk.injEq] at hset
      rw [← hset.2]
      exact ⟨h.index_set_loose hget _, .inl⟩
    · cases hset
  | dangling => cases hset

end Update

section Projects

variable {db db' mid : Db} {ok : Bool} {domain : String} {projects : Json}

/-- The places of the entities that projects bring in. -/
def brings_at (domain : String) (projects : List (String × Json)) (entity : Entity) (id : String)
    (place : Path) : Prop :=
  ∃ entry ∈ projects, (entity = .project ∧ id = entry.1 ∧ place = [domain, "projects", entry.1]) ∨
    (in_scope entry.2 entity id ∧ place = [domain, "projects", entry.1] ++ [entity.container, id])

theorem reindex_project_spec (domain project : String) {val : Json} (hwalk : scope_walkable val = true) (db : Db) :
    ∃ db', reindex_projects [domain, "projects"] project val db = some (true, db') ∧
      Reindexed (brings_at domain [(project, val)]) db db' := by
  obtain ⟨mid, hscope, hre⟩ := reindex_scope_of_walkable [domain, "projects", project] hwalk db
  refine ⟨mid.index_set .project project (.node [domain, "projects", project]), ?_,
    (hre.trans (reindexed_index_set mid .project project [domain, "projects", project])).congr ?_⟩
  · simp [reindex_projects, hscope]
  intro entity id place
  simp only [brings_at, mem_singleton, exists_eq_left]
  exact or_comm

theorem walk_reindex_projects (domain : String) (entries : List (String × Json))
    (hwalk : entries.all (fun entry => scope_walkable entry.2) = true) (db : Db) :
    ∃ db', walk (reindex_projects [domain, "projects"]) entries db = some (true, db') ∧
      Reindexed (brings_at domain entries) db db' := by
  induction entries generalizing db with
  | nil =>
    refine ⟨db, rfl, (Reindexed.refl db).congr ?_⟩
    intro entity id place
    simp [brings_at]
  | cons entry rest ih =>
    obtain ⟨project, val⟩ := entry
    simp only [all_cons, Bool.and_eq_true] at hwalk
    obtain ⟨mid, hstep, hre⟩ := reindex_project_spec domain project hwalk.1 db
    obtain ⟨db', hrest, hre'⟩ := ih hwalk.2 mid
    refine ⟨db', ?_, (hre.trans hre').congr ?_⟩
    · simp only [walk, hstep]
      exact hrest
    intro entity id place
    simp [brings_at, or_and_right, exists_or]

variable {fields : List (String × Json)}

theorem mem_entries_iff_object_get {project : String} {val : Json} :
    (project, val) ∈ assoc.entries fields ↔ (Json.object fields).object_get project = some val :=
  assoc.mem_entries_iff fields project val

theorem ProjectsFit.brings_of_brings_at {entity : Entity} {id : String} {place : Path}
    (hat : brings_at domain (assoc.entries fields) entity id place) : brings (.object fields) entity id := by
  obtain ⟨⟨project, val⟩, hmem, hat⟩ := hat
  refine ⟨project, val, mem_entries_iff_object_get.mp hmem, ?_⟩
  rcases hat with ⟨hentity, hid, _⟩ | ⟨hscope, _⟩
  · exact .inl ⟨hentity, hid⟩
  · exact .inr hscope

theorem ProjectsFit.brings_at_unique {taken : Entity → String → Prop}
    (hfit : ProjectsFit db domain (.object fields) taken) {entity : Entity} {id : String} {place other : Path}
    (hid : ¬ is_admin_role entity id) (hplace : brings_at domain (assoc.entries fields) entity id place)
    (hother : brings_at domain (assoc.entries fields) entity id other) : place = other := by
  obtain ⟨⟨project, val⟩, hmem, hplace⟩ := hplace
  obtain ⟨⟨project', val'⟩, hmem', hother⟩ := hother
  rcases hplace with ⟨rfl, rfl, rfl⟩ | ⟨hscope, rfl⟩ <;> rcases hother with ⟨hentity, hsame, rfl⟩ | ⟨hscope', rfl⟩
  · rw [show project' = id from hsame.symm]
  · cases hscope'.1
  · subst hentity
    cases hscope.1
  obtain rfl : project = project' := hfit.distinct hid (mem_entries_iff_object_get.mp hmem)
    (mem_entries_iff_object_get.mp hmem') hscope hscope'
  rfl

theorem brings_at_of_sits {next : Db}
    (hnode : next.node [domain, "projects"] = some (.object fields)) {entity : Entity} {id : String} {place : Path}
    (hsits : Sits next entity id place) (hbelow : [domain, "projects"] <+: place) :
    brings_at domain (assoc.entries fields) entity id place := by
  obtain ⟨project, val, hval, hsits', hbelow'⟩ := sits_below_projects.mp ⟨hsits, hbelow⟩
  have hmember : next.node [domain, "projects", project] = (Json.object fields).object_get project :=
    node_member hnode project
  refine ⟨(project, val), mem_entries_iff_object_get.mpr (hmember.symm.trans hval), ?_⟩
  exact (sits_below_project hval).mp ⟨hsits', hbelow'⟩

theorem Indexed.projects_replaced {gone : Entity → String → Prop} {taken : Entity → String → Prop} (h : Indexed db) (hun : UnindexedBelow [domain, "projects"] true gone db mid)
    (hobject : mid.is_object_at [domain] = true) (hfit : ProjectsFit db domain (.object fields) taken) :
    ∃ db', (Json.object fields).object_for_each (reindex_projects [domain, "projects"])
        (mid.object_set [domain] "projects" (.object fields)).2 = some (true, db') ∧ Covered db' ∧ Tidy db' := by
  have hwrites : Db.Writes [domain, "projects"] mid (mid.object_set [domain] "projects" (.object fields)).2 :=
    writes_object_set hobject "projects" (.object fields)
  have hnode : (mid.object_set [domain] "projects" (.object fields)).2.node [domain, "projects"] =
      some (.object fields) := node_object_set_below hobject "projects" (.object fields) []
  obtain ⟨db', hwalk, hre⟩ := walk_reindex_projects domain (assoc.entries fields) hfit.walkable
    (mid.object_set [domain] "projects" (.object fields)).2
  refine ⟨db', hwalk, h.covered.replace hun.unindexed hwrites hre ?_ ?_ ?_ ?_, ?_⟩
  · exact fun entity id _ hgone => hun.below hgone
  · exact fun entity id place _ hsits hbelow => brings_at_of_sits hnode hsits hbelow
  · intro entity id place hid hat
    exact (hfit.fresh hid (ProjectsFit.brings_of_brings_at hat)).1
  · exact fun entity id place other hid hplace hother => hfit.brings_at_unique hid hplace hother
  have hmid : Tidy mid := h.tidy.of_domains_eq hun.unindexed.domains_eq
  refine (hmid.writes hwrites ?_).of_domains_eq hre.domains_eq
  intro other project kind hkind hbelow hhas
  simp only [cons_prefix_cons, nil_prefix, and_true] at hbelow
  subst hbelow
  have hup : [domain, "projects", project] <+: [domain, "projects", project, kind.container] := by
    simp [cons_prefix_cons]
  obtain ⟨val, hval⟩ := isSome_iff_exists.mp (has_of_below hup hhas)
  have hmember := node_member hnode project
  simp only [List.cons_append, nil_append] at hmember
  have hmem := mem_entries_iff_object_get.mpr (hmember.symm.trans hval)
  have hscope : scope_walkable val = true := List.all_eq_true.mp hfit.walkable (project, val) hmem
  have hcontent := node_member hval kind.container
  simp only [List.cons_append, nil_append] at hcontent
  rw [has, hcontent] at hhas
  obtain ⟨content, hget⟩ := isSome_iff_exists.mp hhas
  rw [is_object_at, hcontent, hget]
  simp only [scope_walkable, walkable, Bool.and_eq_true] at hscope
  cases kind <;> simp_all [Entity.container, Entity.is_item]

theorem check_sip_processing_some (old : Json) (fields : List (String × Json)) (out : Processing) :
    (check_sip_processing (some old) (.object fields) out).1 = true := by
  have hwalk : walk (fun key val out => some (check_for_sip_update (some old) (.object fields) key val out))
      (assoc.entries fields) out = some (true, (assoc.entries fields).foldl (fun out entry =>
        (check_for_sip_update (some old) (.object fields) entry.1 entry.2 out).2) out) := by
    refine walk_eq_foldl ?_ (assoc.entries fields) out
    intro key val out
    rfl
  simp only [check_sip_processing, processing_for_each, object_for_each, object_entries]
  rw [hwalk]
  rfl

theorem Tidy.projects_walkable (h : Tidy db) (hnode : db.node [domain, "projects"] = some projects) :
    projects_walkable projects = true := by
  unfold vocs_db.projects_walkable
  rw [List.all_eq_true]
  intro entry hmem
  cases projects with
  | object fields =>
    have hget : (Json.object fields).object_get entry.1 = some entry.2 := mem_entries_iff_object_get.mp hmem
    exact h.scope_walkable ((node_member hnode entry.1).trans hget)
  | _ => simp [object_entries] at hmem

theorem Indexed.set_projects {gone : Entity → String → Prop} {taken : Entity → String → Prop} {out : Processing}
    {u' : Update} (h : Indexed db)
    (hun : UnindexedBelow [domain, "projects"] true gone db mid)
    (hobject : mid.is_object_at [domain] = true) (hfit : ProjectsFit db domain (.object fields) taken)
    (hstep : (guarded.next (lift { db := mid, out := out }
        (fun db => some (db.object_set [domain] "projects" (.object fields)))) fun u =>
      u.lift ((Json.object fields).object_for_each (reindex_projects [domain, "projects"]))) = some (ok, u')) :
    Covered u'.db ∧ Tidy u'.db := by
  obtain ⟨next, hwalk, hcovered, htidy⟩ := h.projects_replaced hun hobject hfit
  have hset : mid.object_set [domain] "projects" (.object fields) =
      (true, (mid.object_set [domain] "projects" (.object fields)).2) := by
    rw [object_set_of_object hobject]
  rw [lift, hset] at hstep
  simp only [map_some, guarded.next_true, lift, hwalk, some.injEq, Prod.mk.injEq] at hstep
  rw [← hstep.2]
  exact ⟨hcovered, htidy⟩

theorem Indexed.update_domain_projects {u u' : Update} {taken : Entity → String → Prop} (h : Indexed u.db)
    (hfit : projects.is_object = true → u.db.has [domain] → ProjectsFit u.db domain projects taken)
    (hstep : update_domain_projects [domain] projects u = some (ok, u')) : Indexed u'.db := by
  have hplaced := h.placed.update_domain_projects hstep
  unfold vocs_db.update_domain_projects at hstep
  cases projects with
  | object fields =>
    have hold : (u.db.node [domain]).bind (fun node => node.object_get "projects") =
        u.db.node [domain, "projects"] := by
      rw [show [domain, "projects"] = [domain] ++ ["projects"] from rfl, node_append]
      simp only [node_at_singleton]
    simp only [Json.is_object, not_true_eq_false, if_false, hold] at hstep
    cases hprojects : u.db.node [domain, "projects"] with
    | none =>
      -- nothing leaves the index
      have hun : UnindexedBelow [domain, "projects"] true (fun _ _ => False) u.db u.db := by
        refine unindexedBelow_refl true ?_
        intro entity id place hsits hbelow
        have hhas := has_of_below hbelow hsits.2
        simp [has, hprojects] at hhas
      have hnone : u.lift (for_each_if_set none unindex_projects) = some (true, u) := rfl
      rw [hprojects, hnone, guarded.next_true] at hstep
      rcases hcheck : check_sip_processing none (.object fields) u.out with ⟨_ | _, out⟩
      · simp only [hcheck, some.injEq, Prod.mk.injEq] at hstep
        rw [← hstep.2]
        exact h
      simp only [hcheck] at hstep
      cases hobject : u.db.is_object_at [domain] with
      | false =>
        simp only [lift, object_set_of_not_object hobject, map_some, guarded.next_false,
          some.injEq, Prod.mk.injEq] at hstep
        rw [← hstep.2]
        exact h
      | true =>
        have hdomain : u.db.has [domain] := by
          obtain ⟨members, hnode⟩ := (is_object_at_iff _ _).mp hobject
          rw [has, hnode]
          rfl
        obtain ⟨hcovered, htidy⟩ := h.set_projects hun hobject (hfit rfl hdomain) hstep
        exact ⟨hcovered, hplaced, htidy⟩
    | some old =>
      rw [hprojects] at hstep
      cases hobject : old.is_object with
      | false =>
        have hbroken : u.lift (for_each_if_set (some old) unindex_projects) = some (false, u) := by
          simp [lift, for_each_if_set, for_each_of_not_object _ _ hobject]
        rw [hbroken, guarded.next_false] at hstep
        cases hstep
        exact h
      | true =>
        obtain ⟨gone, mid, hwalk, hun, _⟩ := unindex_projects_spec hprojects (h.project_covered domain)
        rw [h.tidy.projects_walkable hprojects] at hwalk hun
        have hlift : u.lift (for_each_if_set (some old) unindex_projects) = some (true, { u with db := mid }) := by
          simp [lift, for_each_if_set, hwalk, hobject]
        have hcheck := check_sip_processing_some old fields u.out
        rw [hlift, guarded.next_true] at hstep
        rcases hresult : check_sip_processing (some old) (.object fields) u.out with ⟨flag, out⟩
        rw [hresult] at hcheck
        cases hcheck
        simp only [hresult] at hstep
        have hhas : u.db.has ([domain] ++ ["projects"]) := by
          rw [has, singleton_append, hprojects]
          rfl
        have hmid : mid.is_object_at [domain] = true := by
          rw [is_object_at, node_of_domains_eq hun.unindexed.domains_eq]
          exact is_object_at_of_has "projects" hhas
        obtain ⟨hcovered, htidy⟩ :=
          h.set_projects hun hmid (hfit rfl (has_of_has_append _ hhas)) hstep
        exact ⟨hcovered, hplaced, htidy⟩
  | _ =>
    cases hstep
    exact h

end Projects

section Item

variable {db db' : Db} {ok : Bool} {entity : Entity} {id : String}

theorem update_domain_eq_update_project {key : String} (hkey : key ≠ "projects") (path : Path) (val : Json)
    (u : Update) : update_domain path key val u = update_project path key val u := by
  simp only [update_domain, update_project, if_neg hkey]

theorem ProjectsFit.keyUpdate {domain key : String} {projects val : Json} {rest : List (String × Json)}
    (hfit : ProjectsFit db domain projects (taken_by ((key, val) :: rest))) (hupdate : KeyUpdate key val db db') :
    ProjectsFit db' domain projects (taken_by rest) := by
  refine ⟨hfit.walkable, hfit.distinct, ?_⟩
  intro entity id hid hbrings
  obtain ⟨hold, htaken⟩ := hfit.fresh hid hbrings
  constructor
  · intro path hsits
    rcases hupdate.sits hsits with hsits | ⟨hitem, entry, hmem, hentry⟩
    · exact hold path hsits
    rw [mem_singleton] at hmem
    subst hmem
    exact absurd ⟨hitem, (key, val), mem_cons_self, hentry⟩ htaken
  rintro ⟨hitem, entry, hmem, hentry⟩
  exact htaken ⟨hitem, entry, mem_cons_of_mem _ hmem, hentry⟩

theorem Indexed.walk_update_domain {domain : String} (entries : List (String × Json)) {u u' : Update}
    (h : Indexed u.db) (hnodup : (entries.map Prod.fst).Nodup)
    (hfit : ∀ projects, ("projects", projects) ∈ entries → projects.is_object = true → u.db.has [domain] →
      ProjectsFit u.db domain projects
        (taken_by (entries.takeWhile (fun entry => decide (entry.1 ≠ "projects")))))
    (hwalk : walk (update_domain [domain]) entries u = some (ok, u')) : Indexed u'.db := by
  induction entries generalizing u with
  | nil =>
    cases hwalk
    exact h
  | cons entry rest ih =>
    obtain ⟨key, val⟩ := entry
    simp only [map_cons, nodup_cons] at hnodup
    cases hstep : update_domain [domain] key val u with
    | none => simp [walk, hstep] at hwalk
    | some result =>
      obtain ⟨flag, next⟩ := result
      simp only [walk, hstep] at hwalk
      have hnext : Indexed next.db ∧ (∀ projects, ("projects", projects) ∈ rest → projects.is_object = true →
          next.db.has [domain] → ProjectsFit next.db domain projects
            (taken_by (rest.takeWhile (fun entry => decide (entry.1 ≠ "projects"))))) := by
        by_cases hkey : key = "projects"
        · subst hkey
          refine ⟨?_, fun projects hmem => absurd (List.mem_map_of_mem hmem) hnodup.1⟩
          exact h.update_domain_projects (hfit val mem_cons_self) hstep
        have hupdate : KeyUpdate key val u.db next.db := by
          rw [update_domain_eq_update_project hkey] at hstep
          exact KeyUpdate.update_project h (.domain domain) (fun hsame => absurd hsame hkey) hstep
        refine ⟨hupdate.indexed, ?_⟩
        intro projects hmem hobject hhas
        have hold : u.db.has [domain] := by
          rcases hupdate.sits ⟨.domain domain, hhas⟩ with hsits | ⟨hitem, _⟩
          · exact hsits.2
          · cases hitem
        have hfit' := hfit projects (mem_cons_of_mem _ hmem) hobject hold
        rw [takeWhile_cons_of_pos (by simpa using hkey)] at hfit'
        exact hfit'.keyUpdate hupdate
      cases flag with
      | false =>
        cases hwalk
        exact hnext.1
      | true => exact ih hnext.1 hnodup.2 hnext.2 hwalk

theorem Indexed.update_key {u u' : Update} {key : String} {val : Json} {ptr : Ptr} (h : Indexed u.db)
    (hshape : PtrShape entity id ptr) (hentity : entity ≠ .domain)
    (hstep : update_key entity id ptr key val u = some (ok, u')) : Indexed u'.db := by
  cases entity with
  | domain => exact absurd rfl hentity
  | project =>
    cases ptr with
    | node path =>
      refine (KeyUpdate.update_project h (IsPlace.isScope hshape rfl) ?_ hstep).indexed
      intro _
      cases hshape with
      | project => rfl
      | item himpossible => cases himpossible
    | _ => cases hstep
  | loop => exact (KeyUpdate.update_entity h rfl hshape hstep).indexed
  | role => exact (KeyUpdate.update_entity h rfl hshape hstep).indexed
  | user => exact (KeyUpdate.update_entity h rfl hshape hstep).indexed

theorem Indexed.domain_ptr (h : Indexed db) {ptr : Ptr} (hget : db.index_get .domain id = some ptr) :
    (ptr = .node [id] ∧ db.has [id]) ∨ ptr = .dangling := by
  cases h.placed .domain id ptr hget with
  | node hsits =>
    cases hsits.1 with
    | domain => exact .inl ⟨rfl, hsits.2⟩
    | item himpossible => cases himpossible
  | loose value huser => cases huser
  | dangling => exact .inr rfl

theorem Indexed.update_entity_key (h : Indexed db) {key : String} {val : Json}
    (hfits : (Op.update_entity_key entity id key val).fits db)
    (hstep : update_entity_key entity id key val db = some (ok, db')) : Indexed db' := by
  unfold vocs_db.update_entity_key at hstep
  split at hstep
  · cases hstep
    exact h
  cases hget : db.index_get entity id with
  | none =>
    simp only [hget, some.injEq, Prod.mk.injEq] at hstep
    exact hstep.2 ▸ h
  | some ptr =>
    simp only [hget] at hstep
    obtain ⟨⟨flag, u'⟩, hupdate, hlast⟩ := map_eq_some_iff.mp hstep
    cases hlast
    by_cases hentity : entity = .domain
    · subst hentity
      rcases h.domain_ptr hget with ⟨rfl, _⟩ | rfl
      · by_cases hkey : key = "projects"
        · subst hkey
          exact Indexed.update_domain_projects (u := { db }) h (hfits rfl) hupdate
        rw [vocs_db.update_key, update_domain_eq_update_project hkey] at hupdate
        exact (KeyUpdate.update_project (u := { db }) h (.domain id) (fun hsame => absurd hsame hkey)
          hupdate).indexed
      · cases hupdate
    · exact Indexed.update_key (u := { db }) h (h.placed.ptrShape hget) hentity hupdate

theorem Indexed.update_entity_item (h : Indexed db) {val : Json} {r : ItemResult}
    (hfits : (Op.update_entity_item entity id val).fits db)
    (hstep : update_entity_item entity id val db = some r) : Indexed r.db := by
  unfold vocs_db.update_entity_item at hstep
  split at hstep
  · cases hstep
  · cases hstep
    exact h
  rename_i errors hverify
  split at hstep
  · cases hstep
    exact h
  rename_i ptr hget
  obtain ⟨⟨flag, u⟩, hwalk, hlast⟩ := map_eq_some_iff.mp hstep
  cases hlast
  cases val with
  | object fields =>
    by_cases hentity : entity = .domain
    · subst hentity
      rcases h.domain_ptr hget with ⟨rfl, hhas⟩ | rfl
      · refine Indexed.walk_update_domain (assoc.entries fields) (u := { db }) h
          (entries_keys_nodup fields) ?_ hwalk
        intro projects hmem hobject _
        exact hfits errors projects hverify (mem_entries_iff_object_get.mp hmem) hobject hhas
      cases hentries : assoc.entries fields with
      | nil =>
        simp only [object_for_each, object_entries, hentries] at hwalk
        cases hwalk
        exact h
      | cons entry rest =>
        simp only [object_for_each, object_entries, hentries] at hwalk
        cases hwalk
    refine walk_invariant (fun u : Update => Indexed u.db) (assoc.entries fields) ?_ h hwalk
    intro key val _ u ok u' hu hupdate
    exact hu.update_key (h.placed.ptrShape hget) hentity hupdate
  | _ =>
    cases hwalk
    exact h

end Item

/-- Every step of a run is one of the five calls and brings ids that fit. -/
def fits_along (ops : List Op) : Prop :=
  ∀ before op after db, ops = before ++ op :: after → run before Db.empty = some db →
    op.edits = true ∧ op.fits db

theorem Indexed.step {db db' : Db} {op : Op} {ok : Bool} (h : Indexed db) (hedits : op.edits = true)
    (hfits : op.fits db) (hstep : op.step db = some (ok, db')) : Indexed db' := by
  cases op with
  | create_entity => exact h.create_entity hstep
  | update_entity_item =>
    obtain ⟨r, hitem, hlast⟩ := map_eq_some_iff.mp hstep
    cases hlast
    exact h.update_entity_item hfits hitem
  | update_entity_key => exact h.update_entity_key hfits hstep
  | delete_entity => exact h.delete_entity hstep
  | delete_entity_key => exact h.delete_entity_key hstep
  | _ => cases hedits

/-- From the empty database, every state that a run of calls that fit goes through has
    unique ids. -/
theorem run_unique_ids (ops : List Op) (hfits : fits_along ops) {reached after : List Op} {db : Db}
    (hops : ops = reached ++ after) (hrun : run reached Db.empty = some db) : UniqueIds db := by
  have hindexed : Indexed db := by
    refine run_invariant Indexed (fun db op => op.edits = true ∧ op.fits db) ?_ reached indexed_empty ?_ hrun
    · intro db op ok db' hdb hop hstep
      exact hdb.step hop.1 hop.2 hstep
    · intro before op rest mid hreached hmid
      exact hfits before op (rest ++ after) mid (by simp [hops, hreached]) hmid
  exact hindexed.covered.unique

def project_with_user : Json := .object [("p", .object [("users", .object [("u", .object [])])])]

def first_project : List Op :=
  [.create_entity .domain "d" .domain "d", .update_entity_key .domain "d" "projects" project_with_user]

theorem brings_project_with_user {entity : Entity} {id : String} (h : brings project_with_user entity id) :
    (entity = .project ∧ id = "p") ∨ (entity = .user ∧ id = "u") := by
  obtain ⟨project, val, hget, hbrings⟩ := h
  simp only [project_with_user, Json.object_get, lookup_cons_eq, lookup_nil] at hget
  split at hget
  · rename_i hproject
    cases hget
    rcases hbrings with ⟨hentity, hid⟩ | hscope
    · exact .inl ⟨hentity, hid.trans hproject⟩
    have hin := (in_scope_iff _ _ _).mp hscope
    simp [is_member, Json.object_get, lookup_cons_eq] at hin
    exact .inr hin
  · cases hget

theorem fits_along_first_project : fits_along first_project := by
  intro before op after db hops hrun
  cases before with
  | nil =>
    cases hops
    exact ⟨rfl, trivial⟩
  | cons first before =>
    cases before with
    | nil =>
      simp only [first_project, List.cons_append, nil_append, List.cons.injEq] at hops
      obtain ⟨rfl, rfl, rfl⟩ := hops
      refine ⟨rfl, ?_⟩
      have hindexed : Indexed db := by
        simp only [run, bind_eq_some_iff] at hrun
        obtain ⟨⟨ok, next⟩, hstep, hlast⟩ := hrun
        cases hlast
        have hfits : (Op.create_entity .domain "d" .domain "d").fits Db.empty := trivial
        exact indexed_empty.step rfl hfits hstep
      intro _ _ _
      refine ⟨by decide +kernel, ?_, ?_⟩
      · intro entity id project other val other_val _ hget hget' _ _
        simp only [project_with_user, Json.object_get, lookup_cons_eq, lookup_nil] at hget hget'
        split at hget <;> split at hget' <;> simp_all
      intro entity id hid hbrings
      refine ⟨?_, not_false⟩
      intro path hsits
      -- the new database has no project and no user yet
      have hget := hindexed.covered entity id path hid hsits
      have hnone : db.index_get .project "p" = none ∧ db.index_get .user "u" = none := by
        simp only [run, bind_eq_some_iff] at hrun
        obtain ⟨⟨ok, next⟩, hstep, hlast⟩ := hrun
        cases hlast
        cases hstep
        exact ⟨by decide +kernel, by decide +kernel⟩
      rcases brings_project_with_user hbrings with ⟨rfl, rfl⟩ | ⟨rfl, rfl⟩
      · rw [hnone.1] at hget
        cases hget
      rw [hnone.2] at hget
      cases hget
    | cons second before =>
      simp [first_project] at hops

theorem run_unique_ids_first_project :
    fits_along first_project ∧ ∃ db, run first_project Db.empty = some db ∧ UniqueIds db := by
  have hrun : (run first_project Db.empty).isSome = true := by decide +kernel
  obtain ⟨db, hdb⟩ := isSome_iff_exists.mp hrun
  exact ⟨fits_along_first_project, db, hdb,
    run_unique_ids first_project fits_along_first_project (List.append_nil _).symm hdb⟩

/-- A user of a domain becomes a user of one of its projects, too. -/
theorem projects_update_repeats_user :
    ¬ ∀ ops : List Op, (∀ op ∈ ops, op.edits = true) → ∀ db, run ops Db.empty = some db → UniqueIds db := by
  intro h
  let ops : List Op := [.create_entity .domain "d" .domain "d", .create_entity .user "u" .domain "d",
    .update_entity_key .domain "d" "projects" project_with_user]
  have htwice : (run ops Db.empty).any (fun db => (db.node ["d", "users", "u"]).isSome &&
      (db.node ["d", "projects", "p", "users", "u"]).isSome) = true := by decide +kernel
  obtain ⟨db, hrun, hboth⟩ := Option.any_eq_true .. |>.mp htwice
  rw [Bool.and_eq_true] at hboth
  have hunique := h ops (by decide) db hrun .user "u" ["d", "users", "u"] ["d", "projects", "p", "users", "u"]
    (by decide) ⟨.item rfl (.domain "d") "u", hboth.1⟩ ⟨.item rfl (.project "d" "p") "u", hboth.2⟩
  simp at hunique

end openvocs.vocs_db
