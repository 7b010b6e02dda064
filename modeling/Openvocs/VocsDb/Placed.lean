import Openvocs.VocsDb.Places

namespace openvocs.vocs_db

open Db Update guarded

/-- What an index may store under an id. -/
inductive PtrOk (db : Db) (entity : Entity) (id : String) : Ptr → Prop where
  | node {path : Path} (hsits : Sits db entity id path) : PtrOk db entity id (.node path)
  | loose (value : Json) (huser : entity = .user) : PtrOk db entity id (.loose value)
  | dangling : PtrOk db entity id .dangling

def Placed (db : Db) : Prop := ∀ entity id ptr, db.index_get entity id = some ptr → PtrOk db entity id ptr

variable {db : Db}

theorem Placed.sits (h : Placed db) {entity : Entity} {id : String} {path : Path}
    (hget : db.index_get entity id = some (.node path)) : Sits db entity id path := by
  cases h entity id _ hget with
  | node hsits => exact hsits

theorem PtrOk.of_domains_eq (db : Db) {db' : Db} {entity : Entity} {id : String} {ptr : Ptr}
    (h : PtrOk db entity id ptr) (hdomains : db'.domains = db.domains) : PtrOk db' entity id ptr := by
  cases h with
  | node hsits =>
    refine .node ⟨hsits.1, ?_⟩
    simpa [has, Db.node, hdomains] using hsits.2
  | loose value huser => exact .loose value huser
  | dangling => exact .dangling

theorem placed_empty : Placed Db.empty := by
  intro entity id ptr hget
  simp [Db.empty, index_get] at hget

theorem Placed.writes {db db' : Db} {path : Path} (h : Placed db) (hwrites : Db.Writes path db db') :
    Placed db' := by
  intro entity id ptr hget
  rw [hwrites.index_get_eq] at hget
  obtain ⟨old, hold, rfl⟩ := Option.map_eq_some_iff.mp hget
  cases h entity id old hold with
  | @node other hsits =>
    by_cases hbelow : path <+: other
    · rw [Ptr.release_of_below hbelow]
      exact .dangling
    rw [Ptr.release_of_not_below hbelow]
    exact .node ⟨hsits.1, (hwrites.has_iff hbelow).mpr hsits.2⟩
  | loose value huser => exact .loose value huser
  | dangling => exact .dangling

theorem Placed.object_set (h : Placed db) (path : Path) (key : String) (value : Json) :
    Placed (db.object_set path key value).2 := by
  cases hobject : db.is_object_at path with
  | false => simpa [object_set_of_not_object hobject] using h
  | true => exact h.writes (writes_object_set hobject key value)

theorem Placed.object_del (h : Placed db) (path : Path) (key : String) :
    Placed (db.object_del path key).2 := by
  cases hobject : db.is_object_at path with
  | false => simpa [object_del_of_not_object hobject] using h
  | true => exact h.writes (writes_object_del hobject key)

theorem Placed.index_set (h : Placed db) {entity : Entity} {id : String} {ptr : Ptr}
    (hptr : PtrOk db entity id ptr) : Placed (db.index_set entity id ptr) := by
  intro other other_id found hget
  rw [index_get_index_set] at hget
  refine PtrOk.of_domains_eq db ?_ rfl
  by_cases hsame : other = entity ∧ other_id = id
  · rw [if_pos hsame] at hget
    obtain ⟨rfl, rfl⟩ := hsame
    cases hget
    exact hptr
  rw [if_neg hsame] at hget
  exact h other other_id found hget

theorem Placed.index_del (h : Placed db) (entity : Entity) (id : String) :
    Placed (db.index_del entity id) := by
  intro other other_id found hget
  rw [index_get_index_del] at hget
  refine PtrOk.of_domains_eq db ?_ rfl
  by_cases hsame : other = entity ∧ other_id = id
  · rw [if_pos hsame] at hget
    cases hget
  rw [if_neg hsame] at hget
  exact h other other_id found hget

section Walks

variable {db db' : Db} {ok : Bool}

theorem for_each_invariant (P : Db → Prop) {f : Callback} {j : Json}
    (hf : ∀ key val, j.object_get key = some val → ∀ db ok db', P db → f key val db = some (ok, db') → P db')
    (hdb : P db) (h : j.object_for_each f db = some (ok, db')) : P db' := by
  unfold Json.object_for_each at h
  cases hentries : j.object_entries with
  | none =>
    simp only [hentries, Option.some.injEq, Prod.mk.injEq] at h
    exact h.2 ▸ hdb
  | some members =>
    simp only [hentries] at h
    refine assoc.walk_invariant P members ?_ hdb h
    intro key val hmem
    exact hf key val ((Json.mem_object_entries hentries key val).mp hmem)

theorem for_each_if_set_invariant (P : Db → Prop) {f : Callback} {content : Option Json}
    (hf : ∀ j, content = some j → ∀ key val, j.object_get key = some val →
      ∀ db ok db', P db → f key val db = some (ok, db') → P db')
    (hdb : P db) (h : for_each_if_set content f db = some (ok, db')) : P db' := by
  cases content with
  | none =>
    simp only [for_each_if_set, Option.some.injEq, Prod.mk.injEq] at h
    exact h.2 ▸ hdb
  | some j => exact for_each_invariant P (hf j rfl) hdb h

theorem Placed.unindex_all (h : Placed db) (entity : Entity) (content : Option Json)
    (hwalk : for_each_if_set content (unindex entity) db = some (ok, db')) : Placed db' := by
  refine for_each_if_set_invariant Placed ?_ h hwalk
  intro j _ key val _ db ok db' hdb hstep
  simp only [unindex, Option.some.injEq, Prod.mk.injEq] at hstep
  exact hstep.2 ▸ hdb.index_del entity key

theorem Placed.unindex_project (h : Placed db) {id : String}
    (hstep : unindex_project id db = some (ok, db')) : Placed db' := by
  unfold vocs_db.unindex_project at hstep
  split at hstep
  · cases hstep
    exact h
  split at hstep
  · cases hstep
  refine next_invariant Placed (fun _ _ hw => h.unindex_all _ _ hw) ?_ hstep
  intro db ok db' h hstep
  refine next_invariant Placed (fun _ _ hw => h.unindex_all _ _ hw) ?_ hstep
  intro db ok db' h hstep
  refine next_invariant Placed (fun _ _ hw => h.unindex_all _ _ hw) ?_ hstep
  intro db ok db' h hstep
  cases hstep
  exact h.index_del _ _

theorem Placed.unindex_projects (h : Placed db) (content : Option Json)
    (hwalk : for_each_if_set content unindex_projects db = some (ok, db')) : Placed db' :=
  for_each_if_set_invariant Placed (fun _ _ _ _ _ _ _ _ hdb hstep => hdb.unindex_project hstep) h hwalk

theorem Placed.unindex_domain (h : Placed db) {id : String}
    (hstep : unindex_domain id db = some (ok, db')) : Placed db' := by
  unfold vocs_db.unindex_domain at hstep
  split at hstep
  · cases hstep
    exact h
  refine next_invariant Placed (fun _ _ hw => h.unindex_projects _ hw) ?_ hstep
  intro db ok db' h hstep
  refine next_invariant Placed (fun _ _ hw => h.unindex_all _ _ hw) ?_ hstep
  intro db ok db' h hstep
  refine next_invariant Placed (fun _ _ hw => h.unindex_all _ _ hw) ?_ hstep
  intro db ok db' h hstep
  refine next_invariant Placed (fun _ _ hw => h.unindex_all _ _ hw) ?_ hstep
  intro db ok db' h hstep
  cases hstep
  exact h.index_del _ _

theorem node_member {path : Path} {val : Json} (hnode : db.node path = some val) (key : String) :
    db.node (path ++ [key]) = val.object_get key := by
  rw [node_append, hnode]
  simp [Json.node_at]

theorem has_member {path : Path} {j val : Json} {key : String} (hnode : db.node path = some j)
    (hget : j.object_get key = some val) : db.node (path ++ [key]) = some val :=
  (node_member hnode key).trans hget

theorem node_of_domains_eq (h : db'.domains = db.domains) (path : Path) : db'.node path = db.node path := by
  simp [Db.node, h]

theorem Placed.reindex_all (h : Placed db) (entity : Entity) {scope : Path} (content : Option Json)
    (hitem : entity.is_item = true) (hscope : IsScope scope)
    (hcontent : db.node (scope ++ [entity.container]) = content)
    (hwalk : for_each_if_set content (reindex entity (scope ++ [entity.container])) db = some (ok, db')) :
    Placed db' ∧ db'.domains = db.domains := by
  refine for_each_if_set_invariant (fun db' => Placed db' ∧ db'.domains = db.domains) ?_ ⟨h, rfl⟩ hwalk
  rintro j rfl key val hget mid ok next ⟨hmid, hdomains⟩ hstep
  simp only [reindex, Option.some.injEq, Prod.mk.injEq] at hstep
  obtain ⟨rfl, rfl⟩ := hstep
  refine ⟨hmid.index_set (.node ⟨?_, ?_⟩), hdomains⟩
  · simpa using IsPlace.item hitem hscope key
  have hnode : mid.node (scope ++ [entity.container]) = some j := by rw [node_of_domains_eq hdomains, hcontent]
  rw [has, has_member hnode hget]
  rfl

theorem Placed.reindex_scope (h : Placed db) {scope : Path} (hscope : IsScope scope) {val : Json}
    (hnode : db.node scope = some val) (hstep : reindex_scope scope val db = some (ok, db')) :
    Placed db' ∧ db'.domains = db.domains := by
  have hcontent : ∀ key, db.node (scope ++ [key]) = val.object_get key := node_member hnode
  refine next_invariant (fun db' => Placed db' ∧ db'.domains = db.domains) ?_ ?_ hstep
  · intro ok mid hwalk
    exact h.reindex_all .loop _ rfl hscope (hcontent "loops") hwalk
  rintro mid ok db' ⟨hmid, hdomains⟩ hstep
  refine next_invariant (fun db' => Placed db' ∧ db'.domains = db.domains) ?_ ?_ hstep
  · intro ok next hwalk
    have hnext := hmid.reindex_all .role _ rfl hscope
      ((node_of_domains_eq hdomains _).trans (hcontent "roles")) hwalk
    exact ⟨hnext.1, hnext.2.trans hdomains⟩
  rintro mid ok db' ⟨hmid, hdomains⟩ hstep
  have hnext := hmid.reindex_all .user _ rfl hscope
    ((node_of_domains_eq hdomains _).trans (hcontent "users")) hstep
  exact ⟨hnext.1, hnext.2.trans hdomains⟩

theorem Placed.reindex_projects (h : Placed db) {domain : String} {projects : Json}
    (hnode : db.node [domain, "projects"] = some projects)
    (hwalk : projects.object_for_each (reindex_projects [domain, "projects"]) db = some (ok, db')) :
    Placed db' ∧ db'.domains = db.domains := by
  refine for_each_invariant (fun db' => Placed db' ∧ db'.domains = db.domains) ?_ ⟨h, rfl⟩ hwalk
  rintro key val hget mid ok next ⟨hmid, hdomains⟩ hstep
  have hproject : mid.node [domain, "projects", key] = some val := by
    rw [node_of_domains_eq hdomains]
    exact has_member hnode hget
  refine next_invariant (fun db' => Placed db' ∧ db'.domains = db.domains) ?_ ?_ hstep
  · intro ok after hscope
    have hafter := hmid.reindex_scope (.project domain key) hproject hscope
    exact ⟨hafter.1, hafter.2.trans hdomains⟩
  rintro after ok last ⟨hafter, hdomains'⟩ hlast
  cases hlast
  refine ⟨hafter.index_set (.node ⟨.project domain key, ?_⟩), hdomains'⟩
  simp [has, node_of_domains_eq (hdomains'.trans hdomains.symm), hproject]

theorem Placed.reindex_auth (h : Placed db) (hstep : reindex_auth db = some (ok, db')) : Placed db' := by
  unfold vocs_db.reindex_auth at hstep
  cases hroot : db.domains with
  | none =>
    simp only [hroot, Option.some.injEq, Prod.mk.injEq] at hstep
    exact hstep.2 ▸ h
  | some root =>
    simp only [hroot] at hstep
    refine (for_each_invariant (fun db' => Placed db' ∧ db'.domains = db.domains) ?_ ⟨h, rfl⟩ hstep).1
    rintro key val hget mid ok next ⟨hmid, hdomains⟩ hstep
    have hdomain : mid.node [key] = some val := by
      rw [node_of_domains_eq hdomains]
      simp [Db.node, hroot, Json.node_at, hget]
    refine next_invariant (fun db' => Placed db' ∧ db'.domains = db.domains) ?_ ?_ hstep
    · intro ok after hscope
      have hafter := hmid.reindex_scope (.domain key) hdomain hscope
      exact ⟨hafter.1, hafter.2.trans hdomains⟩
    rintro after ok last ⟨hafter, hdomains'⟩ hlast
    have hdomain' : after.node [key] = some val := by rw [node_of_domains_eq (hdomains'.trans hdomains.symm), hdomain]
    refine next_invariant (fun db' => Placed db' ∧ db'.domains = db.domains) ?_ ?_ hlast
    · intro ok final hwalk
      cases hprojects : val.object_get "projects" with
      | none =>
        simp only [for_each_if_set, hprojects, Option.some.injEq, Prod.mk.injEq] at hwalk
        exact hwalk.2 ▸ ⟨hafter, hdomains'⟩
      | some projects =>
        simp only [for_each_if_set, hprojects] at hwalk
        have hfinal := hafter.reindex_projects (has_member hdomain' hprojects) hwalk
        exact ⟨hfinal.1, hfinal.2.trans hdomains'⟩
    rintro final ok result ⟨hfinal, hdomains''⟩ hresult
    cases hresult
    refine ⟨hfinal.index_set (.node ⟨.domain key, ?_⟩), hdomains''⟩
    simp [has, node_of_domains_eq (hdomains''.trans hdomains.symm), hdomain]

end Walks

section Calls

variable {db db' : Db} {ok : Bool}

variable {entity : Entity} {id : String}

theorem Placed.unindex_entity (h : Placed db)
    (hstep : unindex_entity entity id db = some (ok, db')) : Placed db' := by
  cases entity with
  | domain => exact h.unindex_domain hstep
  | project => exact h.unindex_project hstep
  | loop =>
    cases hstep
    exact h.index_del .loop id
  | role =>
    cases hstep
    exact h.index_del .role id
  | user =>
    cases hstep
    exact h.index_del .user id

theorem Placed.db_delete (h : Placed db) (hstep : db_delete entity id db = some (ok, db')) : Placed db' := by
  unfold vocs_db.db_delete at hstep
  split at hstep
  · cases hstep
    exact h
  split at hstep
  · cases hstep
  rename_i src _ result mid hunindex
  have hmid := h.unindex_entity hunindex
  split at hstep
  · cases hstep
  · cases hstep
    exact hmid
  cases hstep
  exact hmid.object_del _ _

variable {ptr : Ptr}

variable {id : String}

theorem delete_in_parent_cases {item key : String}
    (hstep : delete_in_parent entity item id key ptr db = some (ok, db')) :
    db' = db ∨ (∃ path, ptr = .node path ∧ db' = (db.object_del (path ++ [item]) id).2) ∨
      ∃ value value', ptr = .loose value ∧ db' = db.index_set entity key (.loose value') := by
  unfold vocs_db.delete_in_parent at hstep
  split at hstep
  · cases hstep
  split at hstep
  · cases hstep
    exact .inl rfl
  cases ptr with
  | node path =>
    simp only [Option.some.injEq] at hstep
    exact .inr (.inl ⟨path, rfl, by rw [hstep]⟩)
  | loose value =>
    cases hstep
    exact .inr (.inr ⟨value, _, rfl, rfl⟩)
  | dangling => cases hstep

theorem Placed.delete_in_parent (h : Placed db) {item key : String}
    (hloose : ∀ value, ptr = .loose value → entity = .user)
    (hstep : delete_in_parent entity item id key ptr db = some (ok, db')) : Placed db' := by
  rcases delete_in_parent_cases hstep with rfl | ⟨path, _, rfl⟩ | ⟨value, value', hptr, rfl⟩
  · exact h
  · exact h.object_del _ _
  · exact h.index_set (.loose _ (hloose value hptr))

theorem Placed.delete_in_parents (h : Placed db) {item : String}
    (hstep : delete_in_parents entity item id db = some (ok, db')) : Placed db' := by
  refine assoc.walk_invariant Placed (db.index_entries entity) ?_ h hstep
  intro key ptr hmem mid ok next hmid hnext
  refine hmid.delete_in_parent ?_ hnext
  rintro value rfl
  have hget : db.index_get entity key = some (.loose value) :=
    (assoc.mem_entries_iff _ _ _).mp hmem
  cases h entity key _ hget with
  | loose _ huser => exact huser

theorem Placed.delete_references (h : Placed db)
    (hstep : delete_references entity id db = some (ok, db')) : Placed db' := by
  -- the two walks over domains and projects that roles and loops share
  have htwo : ∀ item, ((vocs_db.delete_in_parents .domain item id db).bind fun r =>
      (vocs_db.delete_in_parents .project item id r.2).bind fun s => some (r.1 && s.1, s.2)) =
        some (ok, db') → Placed db' := by
    intro item hstep
    simp only [Option.bind_eq_some_iff] at hstep
    obtain ⟨⟨in_domains, mid⟩, hdomains, ⟨in_projects, next⟩, hprojects, hlast⟩ := hstep
    cases hlast
    exact (h.delete_in_parents hdomains).delete_in_parents hprojects
  cases entity with
  | domain => exact h.unindex_domain hstep
  | project => exact h.delete_in_parents hstep
  | loop => exact htwo _ hstep
  | role => exact htwo _ hstep
  | user => exact h.delete_in_parents hstep

theorem Placed.delete_entity (h : Placed db)
    (hstep : delete_entity entity id db = some (ok, db')) : Placed db' := by
  simp only [vocs_db.delete_entity, Option.bind_eq_bind, Option.bind_eq_some_iff] at hstep
  obtain ⟨⟨result, mid⟩, hdelete, ⟨references, next⟩, hrefs, hlast⟩ := hstep
  cases hlast
  exact (h.db_delete hdelete).delete_references hrefs

theorem get_create_parent_eq (data : Path) (key : String) (db : Db) : get_create_parent data key db =
      (if (get_create_content data key db).1 then some (data ++ [key]) else none,
        (get_create_content data key db).2) := by
  unfold get_create_parent get_create_content
  cases (db.node data).bind (fun node => node.object_get key) with
  | none => rfl
  | some child => rfl

theorem Placed.get_create_content (h : Placed db) (path : Path) (key : String) :
    Placed (get_create_content path key db).2 := by
  unfold vocs_db.get_create_content
  split
  · exact h
  · exact h.object_set _ _ _

variable {scope : Scope} {scope_id : String}

theorem Placed.isScope_of_scope_node (h : Placed db) {data : Path}
    (hnode : scope_node scope scope_id db = some (some data)) :
    IsScope data ∧ (scope = .domain → data = [scope_id]) := by
  cases scope with
  | domain =>
    simp only [scope_node, Option.some.injEq, ite_eq_iff, reduceCtorEq, and_false, or_false] at hnode
    obtain ⟨_, hdata⟩ := hnode
    cases hdata
    exact ⟨.domain scope_id, fun _ => rfl⟩
  | project =>
    simp only [scope_node] at hnode
    split at hnode
    · cases hnode
    · rename_i path hget
      cases hnode
      exact ⟨(h.sits hget).1.isScope rfl, fun hscope => nomatch hscope⟩
    · cases hnode

theorem get_parent_eq_some {parent : Path}
    (hstep : get_parent entity scope scope_id db = some (some parent, db')) :
    (entity = .domain ∧ parent = [] ∧ db' = { db with domains := some (db.domains.getD (.object [])) }) ∨
    (entity ≠ .domain ∧ (entity = .project → scope = .domain) ∧
      ∃ data, scope_node scope scope_id db = some (some data) ∧ parent = data ++ [entity.container] ∧
        get_create_content data entity.container db = (true, db')) := by
  unfold get_parent at hstep
  by_cases hdomain : entity = .domain
  · rw [if_pos hdomain] at hstep
    cases scope with
    | project => cases hstep
    | domain =>
      cases hstep
      exact .inl ⟨hdomain, rfl, rfl⟩
  rw [if_neg hdomain] at hstep
  refine .inr ⟨hdomain, ?_⟩
  split at hstep
  · cases hstep
  · cases hstep
  rename_i data hnode
  by_cases hproject : entity = .project ∧ scope ≠ .domain
  · rw [if_pos hproject] at hstep
    cases hstep
  rw [if_neg hproject, get_create_parent_eq] at hstep
  refine ⟨fun hentity => by_contra (fun hscope => hproject ⟨hentity, hscope⟩), data, hnode, ?_⟩
  rcases hcreate : vocs_db.get_create_content data entity.container db with ⟨_ | _, next⟩
  · simp [hcreate] at hstep
  simp only [hcreate, if_true, Option.some.injEq, Prod.mk.injEq] at hstep
  exact ⟨hstep.1.symm, by rw [hstep.2]⟩

theorem get_create_content_of_false {path : Path} {key : String}
    (h : (get_create_content path key db).1 = false) : (get_create_content path key db).2 = db := by
  unfold vocs_db.get_create_content at h ⊢
  split at h
  · cases h
  rw [object_set_ok] at h
  simp only [*, object_set_of_not_object h]

theorem get_parent_eq_none (hstep : get_parent entity scope scope_id db = some (none, db')) : db' = db := by
  unfold get_parent at hstep
  split at hstep
  · split at hstep <;> cases hstep
    rfl
  split at hstep
  · cases hstep
  · cases hstep
    rfl
  split at hstep
  · cases hstep
    rfl
  rename_i data _ _
  rw [get_create_parent_eq] at hstep
  cases hcreate : (vocs_db.get_create_content data entity.container db).1 with
  | true => simp [hcreate] at hstep
  | false =>
    simp only [hcreate, get_create_content_of_false hcreate, Bool.false_eq_true, if_false,
      Option.some.injEq, Prod.mk.injEq, true_and] at hstep
    exact hstep.symm

theorem create_entity_cases (hstep : create_entity entity id scope scope_id db = some (ok, db')) :
    (ok = false ∧ db' = db) ∨
    ((is_admin_role entity id ∨ db.index_get entity id = none) ∧
      ∃ parent mid, get_parent entity scope scope_id db = some (some parent, mid) ∧
      ((ok = false ∧ mid.is_object_at parent = false ∧ db' = mid) ∨
       (ok = true ∧ mid.is_object_at parent = true ∧
        db' = if is_admin_role entity id then (mid.object_set parent id (new_entity id)).2
          else (mid.object_set parent id (new_entity id)).2.index_set entity id (.node (parent ++ [id]))))) := by
  unfold vocs_db.create_entity at hstep
  split at hstep
  · cases hstep
    exact .inl ⟨rfl, rfl⟩
  rename_i hfree
  have hfree : is_admin_role entity id ∨ db.index_get entity id = none := by
    rcases not_and_or.mp hfree with hadmin | hnone
    · exact .inl (not_not.mp hadmin)
    · exact .inr (by simpa using hnone)
  split at hstep
  · cases hstep
  · rename_i mid hparent
    cases hstep
    exact .inl ⟨rfl, get_parent_eq_none hparent⟩
  rename_i parent mid hparent
  refine .inr ⟨hfree, parent, mid, hparent, ?_⟩
  cases hobject : mid.is_object_at parent with
  | false =>
    rw [object_set_of_not_object hobject] at hstep
    cases hstep
    exact .inl ⟨rfl, rfl, rfl⟩
  | true =>
    rcases hresult : mid.object_set parent id (new_entity id) with ⟨_ | _, next⟩
    · simp [object_set_of_object hobject] at hresult
    simp only [hresult] at hstep
    split at hstep <;> cases hstep
    · rename_i hadmin
      exact .inr ⟨rfl, rfl, by rw [if_pos hadmin]⟩
    rename_i hadmin
    exact .inr ⟨rfl, rfl, by rw [if_neg hadmin]⟩

theorem Placed.of_domains_created (h : Placed db) :
    Placed { db with domains := some (db.domains.getD (.object [])) } := by
  intro entity id ptr hget
  cases h entity id ptr hget with
  | @node path hsits =>
    refine .node ⟨hsits.1, ?_⟩
    have hhas := hsits.2
    cases hdomains : db.domains with
    | none => simp [has, Db.node, hdomains] at hhas
    | some root => simpa [has, Db.node, hdomains] using hhas
  | loose value huser => exact .loose value huser
  | dangling => exact .dangling

theorem Placed.isPlace_of_get_parent (h : Placed db)
    {parent : Path} (hstep : get_parent entity scope scope_id db = some (some parent, db')) (id : String) :
    IsPlace entity id (parent ++ [id]) := by
  rcases get_parent_eq_some hstep with ⟨rfl, rfl, _⟩ | ⟨hdomain, hproject, data, hnode, rfl, _⟩
  · exact .domain id
  obtain ⟨hscope, hdata⟩ := h.isScope_of_scope_node hnode
  cases entity with
  | domain => exact absurd rfl hdomain
  | project =>
    rw [hdata (hproject rfl)]
    exact .project scope_id id
  | loop => simpa using @IsPlace.item .loop _ rfl hscope id
  | role => simpa using @IsPlace.item .role _ rfl hscope id
  | user => simpa using @IsPlace.item .user _ rfl hscope id

theorem Placed.get_parent (h : Placed db)
    {parent : Path} (hstep : get_parent entity scope scope_id db = some (some parent, db')) : Placed db' := by
  rcases get_parent_eq_some hstep with ⟨_, _, rfl⟩ | ⟨_, _, data, _, _, hcreate⟩
  · exact h.of_domains_created
  · simpa [hcreate] using h.get_create_content data entity.container

theorem Placed.create_entity (h : Placed db) (hstep : create_entity entity id scope scope_id db = some (ok, db')) :
    Placed db' := by
  rcases create_entity_cases hstep with ⟨_, rfl⟩ | ⟨_, parent, mid, hparent, ⟨_, _, rfl⟩ | ⟨_, hobject, rfl⟩⟩
  · exact h
  · exact h.get_parent hparent
  have hset := (h.get_parent hparent).object_set parent id (new_entity id)
  split
  · exact hset
  refine hset.index_set (.node ⟨h.isPlace_of_get_parent hparent id, ?_⟩)
  rw [has, node_object_set_below hobject id (new_entity id) []]
  rfl

variable {u u' : Update}

theorem Update.lift_eq_some {f : Db → Option (Bool × Db)} (h : u.lift f = some (ok, u')) :
    f u.db = some (ok, u'.db) ∧ u'.out = u.out := by
  obtain ⟨⟨flag, mid⟩, hf, hlast⟩ := Option.map_eq_some_iff.mp h
  cases hlast
  exact ⟨hf, rfl⟩

variable {scope : Path}

theorem Placed.update_users_content (h : Placed db) (hscope : IsScope scope) {users : Json}
    (hstep : update_users_content (scope ++ ["users"]) users db = some (ok, db')) : Placed db' := by
  unfold vocs_db.update_users_content at hstep
  split at hstep
  · cases hstep
    exact h
  refine next_invariant Placed ?_ ?_ hstep
  · intro ok mid hwalk
    exact h.unindex_all .user (some ((db.node (scope ++ ["users"])).getD .null)) hwalk
  intro mid ok last hmid hlast
  have hdropped : ∀ (entries : List (String × Json)) (db : Db), Placed db →
      Placed (entries.foldl (fun db entry => drop_user (scope ++ ["users"]) entry.1 db) db) := by
    intro entries
    induction entries with
    | nil => exact fun db h => h
    | cons entry rest ih => exact fun db h => ih _ (h.object_del _ _)
  refine next_invariant Placed ?_ ?_ hlast
  · intro ok next hwalk
    refine for_each_invariant Placed ?_ (hdropped _ mid hmid) hwalk
    intro key val _ db ok db' hdb hadd
    unfold add_new_user at hadd
    split at hadd
    · cases hadd
      exact hdb
    simp only [Option.some.injEq] at hadd
    have hset := hdb.object_set (scope ++ ["users"]) key val
    rw [hadd] at hset
    exact hset
  intro next ok final hnext hwalk
  cases hnode : next.node (scope ++ ["users"]) with
  | none =>
    simp only [hnode, Option.getD_none, Json.object_for_each, Json.object_entries, Option.some.injEq,
      Prod.mk.injEq] at hwalk
    exact hwalk.2 ▸ hnext
  | some content =>
    simp only [hnode, Option.getD_some] at hwalk
    exact (hnext.reindex_all .user _ rfl hscope hnode hwalk).1

theorem Placed.update_users (h : Placed db) (hscope : IsScope scope) {users : Json}
    (hstep : update_users scope users db = some (ok, db')) : Placed db' := by
  unfold vocs_db.update_users at hstep
  split at hstep
  · cases hstep
    exact h
  have hcreated := h.get_create_content scope "users"
  rcases hcreate : vocs_db.get_create_content scope "users" db with ⟨_ | _, mid⟩
  · simp only [hcreate] at hstep hcreated
    unfold update_users_loose at hstep
    split at hstep
    · cases hstep
      exact hcreated
    refine for_each_invariant Placed ?_ hcreated hstep
    intro key val _ db ok db' hdb hset
    cases hset
    exact hdb.index_set (.loose val rfl)
  simp only [hcreate] at hstep hcreated
  exact hcreated.update_users_content hscope hstep

theorem Placed.replace_content (h : Placed db) {new : Json}
    (hitem : entity.is_item = true) (hscope : IsScope scope)
    (hstep : replace_content entity scope new db = some (ok, db')) : Placed db' := by
  refine next_invariant Placed ?_ ?_ hstep
  · intro ok mid hwalk
    exact h.unindex_all entity (some ((db.node (scope ++ [entity.container])).getD .null)) hwalk
  intro mid ok last hmid hlast
  rcases guarded.next_eq_some.mp hlast with ⟨next, hset, hwalk⟩ | ⟨hset, _⟩
  · simp only [Option.some.injEq] at hset
    have hobject : mid.is_object_at scope = true := by rw [← object_set_ok mid scope entity.container new, hset]
    have hnext := hmid.object_set scope entity.container new
    have hnode := node_object_set_below hobject entity.container new []
    rw [hset] at hnext hnode
    exact (hnext.reindex_all entity (some new) hitem hscope hnode hwalk).1
  simp only [Option.some.injEq] at hset
  have hnext := hmid.object_set scope entity.container new
  rw [hset] at hnext
  exact hnext

theorem Placed.update_roles (h : Placed db) (hscope : IsScope scope) {roles : Json}
    (hstep : update_roles scope roles db = some (ok, db')) : Placed db' := by
  unfold vocs_db.update_roles at hstep
  have hcreated := h.get_create_content scope "roles"
  split at hstep
  · cases hstep
    exact h
  rcases hcreate : vocs_db.get_create_content scope "roles" db with ⟨_ | _, mid⟩
  · simp only [hcreate] at hstep hcreated
    cases hstep
    exact hcreated
  simp only [hcreate] at hstep hcreated
  split at hstep
  · cases hstep
    exact hcreated
  · exact hcreated.replace_content rfl hscope hstep

theorem Placed.update_loops (h : Placed u.db) (hscope : IsScope scope)
    {loops : Json} (hstep : update_loops scope loops u = some (ok, u')) : Placed u'.db := by
  unfold vocs_db.update_loops at hstep
  have hcreated := h.get_create_content scope "loops"
  split at hstep
  · cases hstep
    exact h
  rcases hcreate : vocs_db.get_create_content scope "loops" u.db with ⟨linked, mid⟩
  rw [hcreate] at hcreated
  cases linked with
  | false =>
    simp only [hcreate, Bool.false_eq_true, if_false] at hstep
    split at hstep
    · cases hstep
      exact hcreated
    · split at hstep <;> cases hstep <;> exact hcreated
  | true =>
    simp only [hcreate, if_true] at hstep
    split at hstep
    · cases hstep
      exact hcreated
    split at hstep
    · cases hstep
      exact hcreated
    · exact hcreated.replace_content rfl hscope (lift_eq_some hstep).1

theorem Placed.update_domain_projects (h : Placed u.db) {domain : String} {projects : Json}
    (hstep : update_domain_projects [domain] projects u = some (ok, u')) : Placed u'.db := by
  unfold vocs_db.update_domain_projects at hstep
  split at hstep
  · cases hstep
    exact h
  refine next_invariant (fun u => Placed u.db) ?_ ?_ hstep
  · intro ok mid hlift
    exact h.unindex_projects _ (lift_eq_some hlift).1
  intro mid ok last hmid hlast
  split at hlast
  · cases hlast
    exact hmid
  rcases guarded.next_eq_some.mp hlast with ⟨next, hset, hwalk⟩ | ⟨hset, _⟩
  · obtain ⟨hset, _⟩ := lift_eq_some hset
    obtain ⟨hwalk, _⟩ := lift_eq_some hwalk
    simp only [Option.some.injEq] at hset
    have hobject : mid.db.is_object_at [domain] = true := by
      rw [← object_set_ok mid.db [domain] "projects" projects, hset]
    have hnext := hmid.object_set [domain] "projects" projects
    have hnode := node_object_set_below hobject "projects" projects []
    rw [hset] at hnext hnode
    exact (hnext.reindex_projects hnode hwalk).1
  obtain ⟨hset, _⟩ := lift_eq_some hset
  simp only [Option.some.injEq] at hset
  have hnext := hmid.object_set [domain] "projects" projects
  rw [hset] at hnext
  exact hnext

variable {val : Json}

theorem Placed.update_domain (h : Placed u.db) {domain key : String}
    (hstep : update_domain [domain] key val u = some (ok, u')) : Placed u'.db := by
  unfold vocs_db.update_domain at hstep
  split at hstep
  · exact h.update_domain_projects hstep
  split at hstep
  · exact h.update_users (.domain domain) (lift_eq_some hstep).1
  split at hstep
  · exact h.update_roles (.domain domain) (lift_eq_some hstep).1
  split at hstep
  · exact h.update_loops (.domain domain) hstep
  split at hstep
  · cases hstep
    exact h
  have hset := (lift_eq_some hstep).1
  simp only [Option.some.injEq] at hset
  have hnext := h.object_set [domain] key val
  rw [hset] at hnext
  exact hnext

theorem Placed.update_project (h : Placed u.db) (hscope : IsScope scope)
    {key : String} (hstep : update_project scope key val u = some (ok, u')) : Placed u'.db := by
  unfold vocs_db.update_project at hstep
  split at hstep
  · exact h.update_users hscope (lift_eq_some hstep).1
  split at hstep
  · exact h.update_roles hscope (lift_eq_some hstep).1
  split at hstep
  · exact h.update_loops hscope hstep
  split at hstep
  · cases hstep
    exact h
  have hset := (lift_eq_some hstep).1
  simp only [Option.some.injEq] at hset
  have hnext := h.object_set scope key val
  rw [hset] at hnext
  exact hnext

theorem Placed.set_through (h : Placed db) {key : String}
    (hloose : ∀ value, ptr = .loose value → entity = .user)
    (hstep : set_through entity id ptr key val db = some (ok, db')) : Placed db' := by
  cases ptr with
  | node path =>
    simp only [vocs_db.set_through, Option.some.injEq] at hstep
    have hset := h.object_set path key val
    rw [hstep] at hset
    exact hset
  | loose value =>
    simp only [vocs_db.set_through] at hstep
    split at hstep
    · cases hstep
      exact h.index_set (.loose _ (hloose value rfl))
    · cases hstep
  | dangling => cases hstep

/-- The shape of a pointer that an update goes through. -/
def PtrShape (entity : Entity) (id : String) : Ptr → Prop
  | .node path => IsPlace entity id path
  | .loose _ => entity = .user
  | .dangling => True

theorem Placed.ptrShape (h : Placed db)
    (hget : db.index_get entity id = some ptr) : PtrShape entity id ptr := by
  cases h entity id ptr hget with
  | node hsits => exact hsits.1
  | loose value huser => exact huser
  | dangling => trivial

theorem Placed.update_key (h : Placed u.db) {key : String} (hshape : PtrShape entity id ptr)
    (hstep : update_key entity id ptr key val u = some (ok, u')) : Placed u'.db := by
  have hitem : ∀ {entity : Entity}, PtrShape entity id ptr →
      vocs_db.update_entity entity id ptr key val u = some (ok, u') → Placed u'.db := by
    intro entity hshape hstep
    unfold vocs_db.update_entity at hstep
    split at hstep
    · cases hstep
    obtain ⟨hset, _⟩ := lift_eq_some hstep
    refine h.set_through ?_ hset
    rintro value rfl
    exact hshape
  cases entity with
  | domain =>
    cases ptr with
    | node path =>
      cases hshape with
      | domain => exact h.update_domain hstep
      | item himpossible => cases himpossible
    | _ => cases hstep
  | project =>
    cases ptr with
    | node path => exact h.update_project (IsPlace.isScope hshape rfl) hstep
    | _ => cases hstep
  | loop => exact hitem hshape hstep
  | role => exact hitem hshape hstep
  | user => exact hitem hshape hstep

section

variable (h : Placed db)

include h

theorem Placed.update_entity_key {id key : String}
    (hstep : update_entity_key entity id key val db = some (ok, db')) : Placed db' := by
  unfold vocs_db.update_entity_key at hstep
  split at hstep
  · cases hstep
    exact h
  split at hstep
  · cases hstep
    exact h
  rename_i ptr hget
  obtain ⟨⟨flag, u⟩, hupdate, hlast⟩ := Option.map_eq_some_iff.mp hstep
  cases hlast
  exact Placed.update_key (u := { db }) h (h.ptrShape hget) hupdate

theorem Placed.update_entity_item
    {r : ItemResult} (hstep : update_entity_item entity id val db = some r) : Placed r.db := by
  unfold vocs_db.update_entity_item at hstep
  split at hstep
  · cases hstep
  · cases hstep
    exact h
  split at hstep
  · cases hstep
    exact h
  rename_i ptr hget
  obtain ⟨⟨flag, u⟩, hwalk, hlast⟩ := Option.map_eq_some_iff.mp hstep
  cases hlast
  unfold Json.object_for_each at hwalk
  split at hwalk
  · refine assoc.walk_invariant (fun u : Update => Placed u.db) _ ?_ h hwalk
    intro key val _ u ok u' hu hupdate
    exact hu.update_key (h.ptrShape hget) hupdate
  cases hwalk
  exact h

theorem Placed.unindex_key {key : String} {content : Json}
    (hstep : unindex_key entity key content db = some (ok, db')) : Placed db' := by
  unfold vocs_db.unindex_key at hstep
  split at hstep
  · exact h.unindex_projects (some content) hstep
  split at hstep
  · exact h.unindex_all .user (some content) hstep
  split at hstep
  · exact h.unindex_all .role (some content) hstep
  split at hstep
  · exact h.unindex_all .loop (some content) hstep
  cases hstep
  exact h

theorem Placed.delete_scope_key {path : Path} {key : String}
    (hstep : delete_scope_key entity path key db = some (ok, db')) : Placed db' := by
  simp only [vocs_db.delete_scope_key] at hstep
  split at hstep
  · cases hstep
  rename_i result mid hunindex
  cases hstep
  exact (h.unindex_key hunindex).object_del path key

theorem Placed.delete_entity_key {id key : String}
    (hstep : delete_entity_key entity id key db = some (ok, db')) : Placed db' := by
  unfold vocs_db.delete_entity_key at hstep
  split at hstep
  · cases hstep
    exact h
  split at hstep
  · cases hstep
    exact h
  rename_i ptr hget
  split at hstep
  · exact h.delete_scope_key hstep
  · exact h.delete_scope_key hstep
  · rename_i path _ _
    simp only [Option.some.injEq] at hstep
    have hdel := h.object_del path key
    rw [hstep] at hdel
    exact hdel
  · cases hstep
    exact h.index_set (.loose _ (h.ptrShape hget))
  · cases hstep

theorem Placed.set_entity_key {id key : String}
    (hstep : set_entity_key entity id key val db = some (ok, db')) : Placed db' := by
  unfold vocs_db.set_entity_key at hstep
  split at hstep
  · cases hstep
    exact h
  rename_i ptr hget
  refine h.set_through ?_ hstep
  rintro value rfl
  exact h.ptrShape hget

theorem Placed.set_keyset_layout {domain name : String} {layout : Json}
    (hstep : set_keyset_layout domain name layout db = some (ok, db')) : Placed db' := by
  unfold vocs_db.set_keyset_layout at hstep
  split at hstep
  · cases hstep
    exact h
  · rename_i path _
    have hcreated := h.get_create_content path "layout"
    split at hstep
    · rename_i mid hcreate
      cases hstep
      simpa [hcreate] using hcreated
    rename_i mid hcreate
    rw [hcreate] at hcreated
    simp only [Option.some.injEq] at hstep
    have hset := hcreated.object_set (path ++ ["layout"]) name layout
    rw [hstep] at hset
    exact hset
  · cases hstep

theorem Placed.add_admin {scope : Entity} {scope_id user : String}
    (hstep : add_admin scope scope_id user db = some (ok, db')) : Placed db' := by
  unfold vocs_db.add_admin at hstep
  split at hstep
  · cases hstep
    exact h
  · rename_i path _
    have hcreated := ((h.get_create_content path "roles").get_create_content (path ++ ["roles"]) "admin")
      |>.get_create_content (path ++ ["roles", "admin"]) "users"
    simp only [Option.some.injEq] at hstep
    split at hstep
    · have hset := hcreated.object_set (path ++ ["roles", "admin", "users"]) user .null
      rw [hstep] at hset
      exact hset
    cases hstep
    exact hcreated
  · cases hstep

theorem Placed.step {op : Op} (hstep : op.step db = some (ok, db')) : Placed db' := by
  cases op with
  | create_entity => exact h.create_entity hstep
  | update_entity_item =>
    obtain ⟨r, hupdate, hlast⟩ := Option.map_eq_some_iff.mp hstep
    cases hlast
    exact h.update_entity_item hupdate
  | update_entity_key => exact h.update_entity_key hstep
  | delete_entity => exact h.delete_entity hstep
  | delete_entity_key => exact h.delete_entity_key hstep
  | inject_auth data =>
    refine @Placed.reindex_auth { domains := some data } _ _ ?_ hstep
    intro entity id ptr hget
    simp [index_get] at hget
  | set_password => exact h.set_entity_key hstep
  | set_layout => exact h.set_entity_key hstep
  | set_recorded => exact h.set_entity_key hstep
  | set_keyset_layout => exact h.set_keyset_layout hstep
  | add_project_admin => exact h.add_admin hstep
  | add_domain_admin => exact h.add_admin hstep

end

end Calls

theorem Reachable.placed (h : Reachable db) : Placed db := by
  obtain ⟨ops, hrun⟩ := h
  refine run_invariant Placed (fun _ _ => True) ?_ ops placed_empty ?_ hrun
  · intro db op ok db' hdb _ hstep
    exact hdb.step hstep
  intros
  trivial

end openvocs.vocs_db
