import Openvocs.VocsDb.Placed

namespace openvocs.vocs_db

open Db Entity

/-- Every entity of the tree is in the index, at its place. The role id `admin`
    is exempt. -/
def Covered (db : Db) : Prop :=
  ∀ entity id path, ¬ is_admin_role entity id → Sits db entity id path →
    db.index_get entity id = some (.node path)

/-- Every entry of the index is an entity of the tree. -/
def Settled (db : Db) : Prop :=
  ∀ entity id ptr, db.index_get entity id = some ptr → ∃ path, ptr = .node path ∧ Sits db entity id path

/-- Index and tree agree. -/
structure Consistent (db : Db) : Prop where
  agree : ∀ entity id, ¬ is_admin_role entity id → ∀ path,
    db.index_get entity id = some (.node path) ↔ Sits db entity id path
  settled : Settled db

theorem consistent_iff (db : Db) : Consistent db ↔ Covered db ∧ Settled db := by
  constructor
  · intro h
    exact ⟨fun entity id path hid hsits => (h.agree entity id hid path).mpr hsits, h.settled⟩
  rintro ⟨hcovered, hsettled⟩
  refine ⟨?_, hsettled⟩
  intro entity id hid path
  constructor
  · intro hget
    obtain ⟨other, hsame, hsits⟩ := hsettled entity id _ hget
    cases hsame
    exact hsits
  · exact hcovered entity id path hid

variable {db : Db}

theorem Settled.placed (h : Settled db) : Placed db := by
  intro entity id ptr hget
  obtain ⟨path, rfl, hsits⟩ := h entity id ptr hget
  exact .node hsits

/-- Ids leave the index. -/
structure Unindexed (gone : Entity → String → Prop) (db db' : Db) : Prop where
  domains_eq : db'.domains = db.domains
  dropped : ∀ {entity id}, gone entity id → db'.index_get entity id = none
  kept : ∀ {entity id}, ¬ gone entity id → db'.index_get entity id = db.index_get entity id

/-- Ids enter the index. -/
structure Reindexed (added : Entity → String → Path → Prop) (db db' : Db) : Prop where
  domains_eq : db'.domains = db.domains
  index_get_eq : ∀ entity id,
    (∃ path, added entity id path ∧ db'.index_get entity id = some (.node path)) ∨
    ((∀ path, ¬ added entity id path) ∧ db'.index_get entity id = db.index_get entity id)

theorem Unindexed.refl (db : Db) : Unindexed (fun _ _ => False) db db :=
  ⟨rfl, fun h => h.elim, fun _ => rfl⟩

variable {db' : Db}

theorem Unindexed.trans {first second : Entity → String → Prop} {mid : Db}
    (h₁ : Unindexed first db mid) (h₂ : Unindexed second mid db') :
    Unindexed (fun entity id => first entity id ∨ second entity id) db db' := by
  refine ⟨h₂.domains_eq.trans h₁.domains_eq, ?_, ?_⟩
  · intro entity id hgone
    by_cases hsecond : second entity id
    · exact h₂.dropped hsecond
    rw [h₂.kept hsecond]
    exact h₁.dropped (hgone.resolve_right hsecond)
  intro entity id hkept
  rw [not_or] at hkept
  rw [h₂.kept hkept.2, h₁.kept hkept.1]

theorem Unindexed.congr {gone gone' : Entity → String → Prop} (h : Unindexed gone db db')
    (hsame : ∀ entity id, gone entity id ↔ gone' entity id) : Unindexed gone' db db' := by
  have heq : gone = gone' := funext fun entity => funext fun id => propext (hsame entity id)
  exact heq ▸ h

theorem unindexed_index_del (db : Db) (entity : Entity) (id : String) :
    Unindexed (fun other other_id => other = entity ∧ other_id = id) db (db.index_del entity id) := by
  refine ⟨rfl, ?_, ?_⟩
  · intro other other_id hgone
    rw [index_get_index_del, if_pos hgone]
  intro other other_id hkept
  rw [index_get_index_del, if_neg hkept]

theorem Reindexed.refl (db : Db) : Reindexed (fun _ _ _ => False) db db :=
  ⟨rfl, fun _ _ => .inr ⟨fun _ h => h, rfl⟩⟩

theorem Reindexed.trans {first second : Entity → String → Path → Prop} {mid : Db}
    (h₁ : Reindexed first db mid) (h₂ : Reindexed second mid db') :
    Reindexed (fun entity id path => first entity id path ∨ second entity id path) db db' := by
  refine ⟨h₂.domains_eq.trans h₁.domains_eq, ?_⟩
  intro entity id
  rcases h₂.index_get_eq entity id with ⟨path, hadded, hget⟩ | ⟨hnone, hget⟩
  · exact .inl ⟨path, .inr hadded, hget⟩
  rw [hget]
  rcases h₁.index_get_eq entity id with ⟨path, hadded, hget⟩ | ⟨hnone', hget⟩
  · exact .inl ⟨path, .inl hadded, hget⟩
  · exact .inr ⟨fun path hadded => hadded.elim (hnone' path) (hnone path), hget⟩

theorem Reindexed.congr {added added' : Entity → String → Path → Prop}
    (h : Reindexed added db db') (hsame : ∀ entity id path, added entity id path ↔ added' entity id path) :
    Reindexed added' db db' := by
  have heq : added = added' :=
    funext fun entity => funext fun id => funext fun path => propext (hsame entity id path)
  exact heq ▸ h

theorem reindexed_index_set (db : Db) (entity : Entity) (id : String) (path : Path) :
    Reindexed (fun other other_id other_path => other = entity ∧ other_id = id ∧ other_path = path) db
      (db.index_set entity id (.node path)) := by
  refine ⟨rfl, ?_⟩
  intro other other_id
  rw [index_get_index_set]
  by_cases hsame : other = entity ∧ other_id = id
  · exact .inl ⟨path, ⟨hsame.1, hsame.2, rfl⟩, if_pos hsame⟩
  · exact .inr ⟨fun _ hadded => hsame ⟨hadded.1, hadded.2.1⟩, if_neg hsame⟩

theorem Sits.of_domains_eq {entity : Entity} {id : String} {path : Path}
    (h : Sits db entity id path) (hdomains : db'.domains = db.domains) : Sits db' entity id path := by
  refine ⟨h.1, ?_⟩
  simpa [has, Db.node, hdomains] using h.2

section Replace

variable {db mid next db' : Db} {path : Path} {gone : Entity → String → Prop}
  {added : Entity → String → Path → Prop}

theorem Covered.replace (h : Covered db) (hunindexed : Unindexed gone db mid)
    (hwrites : Db.Writes path mid next) (hreindexed : Reindexed added next db')
    (hgone : ∀ entity id, ¬ is_admin_role entity id → gone entity id →
      ∃ place, Sits db entity id place ∧ path <+: place)
    (hadded : ∀ entity id place, ¬ is_admin_role entity id → Sits next entity id place → path <+: place →
      added entity id place)
    (hfresh : ∀ entity id place, ¬ is_admin_role entity id → added entity id place →
      ∀ other, Sits db entity id other → path <+: other)
    (hunique : ∀ entity id place other, ¬ is_admin_role entity id → added entity id place →
      added entity id other → place = other) : Covered db' := by
  intro entity id place hid hsits
  have hnext : Sits next entity id place := hsits.of_domains_eq hreindexed.domains_eq.symm
  by_cases hbelow : path <+: place
  · have hplace := hadded entity id place hid hnext hbelow
    rcases hreindexed.index_get_eq entity id with ⟨other, hother, hget⟩ | ⟨hnone, _⟩
    · rw [hget, hunique entity id place other hid hplace hother]
    · exact absurd hplace (hnone place)
  have hmid : Sits mid entity id place := ⟨hnext.1, (hwrites.has_iff hbelow).mp hnext.2⟩
  have hold : Sits db entity id place := hmid.of_domains_eq hunindexed.domains_eq.symm
  have hget := h entity id place hid hold
  have hkept : ¬ gone entity id := by
    intro hgone'
    obtain ⟨other, hother, hpre⟩ := hgone entity id hid hgone'
    rw [h entity id other hid hother] at hget
    cases hget
    exact hbelow hpre
  rcases hreindexed.index_get_eq entity id with ⟨other, hother, _⟩ | ⟨_, hsame⟩
  · exact absurd (hfresh entity id other hid hother place hold) hbelow
  rw [hsame, hwrites.index_get_eq, hunindexed.kept hkept, hget]
  exact congrArg some (Ptr.release_of_not_below hbelow)

theorem Settled.replace (h : Settled db) (hunindexed : Unindexed gone db mid)
    (hwrites : Db.Writes path mid next) (hreindexed : Reindexed added next db')
    (hgone : ∀ entity id place, db.index_get entity id = some (.node place) → path <+: place →
      gone entity id)
    (hadded : ∀ entity id place, added entity id place → Sits next entity id place) : Settled db' := by
  intro entity id ptr hget
  rcases hreindexed.index_get_eq entity id with ⟨place, hplace, hsame⟩ | ⟨_, hsame⟩
  · rw [hsame] at hget
    cases hget
    exact ⟨place, rfl, (hadded entity id place hplace).of_domains_eq hreindexed.domains_eq⟩
  rw [hsame, hwrites.index_get_eq] at hget
  obtain ⟨old, hold, rfl⟩ := Option.map_eq_some_iff.mp hget
  have hkept : ¬ gone entity id := by
    intro hgone'
    rw [hunindexed.dropped hgone'] at hold
    cases hold
  rw [hunindexed.kept hkept] at hold
  obtain ⟨place, rfl, hsits⟩ := h entity id old hold
  have hbelow : ¬ path <+: place := fun hpre => hkept (hgone entity id place hold hpre)
  refine ⟨place, Ptr.release_of_not_below hbelow, ?_⟩
  have hmid : Sits mid entity id place := hsits.of_domains_eq hunindexed.domains_eq
  exact Sits.of_domains_eq ⟨hmid.1, (hwrites.has_iff hbelow).mpr hmid.2⟩ hreindexed.domains_eq

end Replace

section Writes

variable {db db' : Db} {path : Path}

theorem Covered.writes (h : Covered db) (hwrites : Db.Writes path db db')
    (hnone : ∀ entity id place, ¬ is_admin_role entity id → path <+: place → ¬ Sits db' entity id place) :
    Covered db' := by
  intro entity id place hid hsits
  have hbelow : ¬ path <+: place := fun hpre => hnone entity id place hid hpre hsits
  rw [hwrites.index_get_eq, h entity id place hid ⟨hsits.1, (hwrites.has_iff hbelow).mp hsits.2⟩]
  exact congrArg some (Ptr.release_of_not_below hbelow)

theorem Settled.writes (h : Settled db) (hwrites : Db.Writes path db db')
    (hnone : ∀ entity id place, path <+: place → db.index_get entity id ≠ some (.node place)) :
    Settled db' := by
  intro entity id ptr hget
  rw [hwrites.index_get_eq] at hget
  obtain ⟨old, hold, rfl⟩ := Option.map_eq_some_iff.mp hget
  obtain ⟨place, rfl, hsits⟩ := h entity id old hold
  have hbelow : ¬ path <+: place := fun hpre => hnone entity id place hpre hold
  exact ⟨place, Ptr.release_of_not_below hbelow, hsits.1, (hwrites.has_iff hbelow).mpr hsits.2⟩

theorem Covered.object_del (h : Covered db) (path : Path) (key : String) :
    Covered (db.object_del path key).2 := by
  cases hobject : db.is_object_at path with
  | false => simpa [object_del_of_not_object hobject] using h
  | true =>
    refine h.writes (writes_object_del hobject key) ?_
    rintro entity id place _ ⟨rest, rfl⟩ hsits
    refine not_has_object_del_below hobject key rest ?_
    simpa using hsits.2

end Writes

/-- An id is a key of a container. -/
def is_member (content : Option Json) (id : String) : Prop :=
  (content.bind (fun j => j.object_get id)).isSome = true

/-- A walk over a container comes to its end: it is absent or an object. -/
def walkable (content : Option Json) : Bool := content.all Json.is_object

/-- An id is a user, role or loop of a domain or project. -/
def in_scope (scope : Json) (entity : Entity) (id : String) : Prop :=
  entity.is_item = true ∧ is_member (scope.object_get entity.container) id

/-- The users, roles and loops of a domain or project can be walked. -/
def scope_walkable (scope : Json) : Bool :=
  walkable (scope.object_get "users") && walkable (scope.object_get "roles") &&
    walkable (scope.object_get "loops")

section Contents

variable {db : Db}

variable (entity : Entity)

theorem walk_unindex (entries : List (String × Json)) (db : Db) :
    ∃ db', assoc.walk (unindex entity) entries db = some (true, db') ∧
      Unindexed (fun other id => other = entity ∧ id ∈ entries.map Prod.fst) db db' := by
  induction entries generalizing db with
  | nil => exact ⟨db, rfl, (Unindexed.refl db).congr (by simp)⟩
  | cons entry rest ih =>
    obtain ⟨key, val⟩ := entry
    obtain ⟨db', hwalk, hrest⟩ := ih (db.index_del entity key)
    refine ⟨db', hwalk, ((unindexed_index_del db entity key).trans hrest).congr ?_⟩
    intro other id
    simp only [List.map_cons, List.mem_cons]
    exact and_or_left.symm

theorem walk_reindex (path : Path) (entries : List (String × Json)) (db : Db) :
    ∃ db', assoc.walk (reindex entity path) entries db = some (true, db') ∧
      Reindexed (fun other id place => other = entity ∧ id ∈ entries.map Prod.fst ∧ place = path ++ [id])
        db db' := by
  induction entries generalizing db with
  | nil => exact ⟨db, rfl, (Reindexed.refl db).congr (by simp)⟩
  | cons entry rest ih =>
    obtain ⟨key, val⟩ := entry
    obtain ⟨db', hwalk, hrest⟩ := ih (db.index_set entity key (.node (path ++ [key])))
    refine ⟨db', hwalk, ((reindexed_index_set db entity key (path ++ [key])).trans hrest).congr ?_⟩
    intro other id place
    simp only [List.map_cons, List.mem_cons]
    constructor
    · rintro (⟨rfl, rfl, rfl⟩ | ⟨rfl, hmem, rfl⟩)
      · exact ⟨rfl, .inl rfl, rfl⟩
      · exact ⟨rfl, .inr hmem, rfl⟩
    rintro ⟨rfl, rfl | hmem, rfl⟩
    · exact .inl ⟨rfl, rfl, rfl⟩
    · exact .inr ⟨rfl, hmem, rfl⟩

theorem mem_entries_keys_iff (members : List (String × Json)) (id : String) :
    id ∈ (assoc.entries members).map Prod.fst ↔ is_member (some (.object members)) id := by
  rw [assoc.mem_keys_iff]
  simp [is_member, Json.object_get]

theorem unindex_content (content : Option Json) (db : Db) :
    ∃ db', for_each_if_set content (unindex entity) db = some (walkable content, db') ∧
      Unindexed (fun other id => other = entity ∧ is_member content id) db db' := by
  cases content with
  | none => exact ⟨db, rfl, (Unindexed.refl db).congr (by simp [is_member])⟩
  | some j =>
    cases j with
    | object members =>
      obtain ⟨db', hwalk, hun⟩ := walk_unindex entity (assoc.entries members) db
      refine ⟨db', hwalk, hun.congr ?_⟩
      intro other id
      rw [mem_entries_keys_iff]
    | _ => exact ⟨db, rfl, (Unindexed.refl db).congr (by simp [is_member, Json.object_get])⟩

theorem reindex_content (path : Path) (content : Option Json) (db : Db) :
    ∃ db', for_each_if_set content (reindex entity path) db = some (walkable content, db') ∧
      Reindexed (fun other id place => other = entity ∧ is_member content id ∧ place = path ++ [id]) db db' := by
  cases content with
  | none => exact ⟨db, rfl, (Reindexed.refl db).congr (by simp [is_member])⟩
  | some j =>
    cases j with
    | object members =>
      obtain ⟨db', hwalk, hre⟩ := walk_reindex entity path (assoc.entries members) db
      refine ⟨db', hwalk, hre.congr ?_⟩
      intro other id place
      rw [mem_entries_keys_iff]
    | _ => exact ⟨db, rfl, (Reindexed.refl db).congr (by simp [is_member, Json.object_get])⟩

theorem in_scope_iff (scope : Json) (entity : Entity) (id : String) : in_scope scope entity id ↔
      (entity = .user ∧ is_member (scope.object_get "users") id) ∨
      (entity = .role ∧ is_member (scope.object_get "roles") id) ∨
      (entity = .loop ∧ is_member (scope.object_get "loops") id) := by
  cases entity <;> simp [in_scope, is_item, container]

theorem unindex_items (scope : Json) (db : Db) (rest : Db → Option (Bool × Db)) :
    (scope_walkable scope = true ∧ ∃ mid, Unindexed (in_scope scope) db mid ∧
      (guarded.next (for_each_if_set (scope.object_get "users") unindex_users db) fun db =>
       guarded.next (for_each_if_set (scope.object_get "roles") unindex_roles db) fun db =>
       guarded.next (for_each_if_set (scope.object_get "loops") unindex_loops db) rest) = rest mid) ∨
    (scope_walkable scope = false ∧ ∃ gone mid, Unindexed gone db mid ∧
      (∀ entity id, gone entity id → in_scope scope entity id) ∧
      (guarded.next (for_each_if_set (scope.object_get "users") unindex_users db) fun db =>
       guarded.next (for_each_if_set (scope.object_get "roles") unindex_roles db) fun db =>
       guarded.next (for_each_if_set (scope.object_get "loops") unindex_loops db) rest) = some (false, mid)) := by
  obtain ⟨db₁, husers, hun₁⟩ := unindex_content .user (scope.object_get "users") db
  obtain ⟨db₂, hroles, hun₂⟩ := unindex_content .role (scope.object_get "roles") db₁
  obtain ⟨db₃, hloops, hun₃⟩ := unindex_content .loop (scope.object_get "loops") db₂
  have hall := (hun₁.trans hun₂).trans hun₃
  simp only [unindex_users, unindex_roles, unindex_loops, husers]
  cases hw₁ : walkable (scope.object_get "users") with
  | false =>
    refine .inr ⟨by simp [scope_walkable, hw₁], _, db₁, hun₁, ?_, rfl⟩
    intro entity id hgone
    exact (in_scope_iff scope entity id).mpr (.inl hgone)
  | true =>
    simp only [guarded.next_true, hroles]
    cases hw₂ : walkable (scope.object_get "roles") with
    | false =>
      refine .inr ⟨by simp [scope_walkable, hw₂], _, db₂, hun₁.trans hun₂, ?_, rfl⟩
      intro entity id hgone
      exact (in_scope_iff scope entity id).mpr (hgone.imp_right .inl)
    | true =>
      simp only [guarded.next_true, hloops]
      have hsame : ∀ entity id, (((entity = .user ∧ is_member (scope.object_get "users") id) ∨
          entity = .role ∧ is_member (scope.object_get "roles") id) ∨
          entity = .loop ∧ is_member (scope.object_get "loops") id) ↔ in_scope scope entity id := by
        intro entity id
        rw [in_scope_iff, or_assoc]
      cases hw₃ : walkable (scope.object_get "loops") with
      | false =>
        refine .inr ⟨by simp [scope_walkable, hw₃], _, db₃, hall, ?_, rfl⟩
        intro entity id hgone
        exact (hsame entity id).mp hgone
      | true => exact .inl ⟨by simp [scope_walkable, hw₁, hw₂, hw₃], db₃, hall.congr hsame, rfl⟩

theorem reindex_scope_of_walkable (path : Path) {scope : Json} (h : scope_walkable scope = true) (db : Db) :
    ∃ db', reindex_scope path scope db = some (true, db') ∧
      Reindexed (fun entity id place => in_scope scope entity id ∧ place = path ++ [entity.container, id])
        db db' := by
  simp only [scope_walkable, Bool.and_eq_true] at h
  obtain ⟨⟨hw₁, hw₂⟩, hw₃⟩ := h
  obtain ⟨db₁, hloops, hre₁⟩ := reindex_content .loop (path ++ ["loops"]) (scope.object_get "loops") db
  obtain ⟨db₂, hroles, hre₂⟩ := reindex_content .role (path ++ ["roles"]) (scope.object_get "roles") db₁
  obtain ⟨db₃, husers, hre₃⟩ := reindex_content .user (path ++ ["users"]) (scope.object_get "users") db₂
  rw [hw₃] at hloops
  rw [hw₂] at hroles
  rw [hw₁] at husers
  refine ⟨db₃, ?_, ((hre₁.trans hre₂).trans hre₃).congr ?_⟩
  · simp [reindex_scope, reindex_loops, reindex_roles, reindex_users, hloops, hroles, husers]
  intro entity id place
  cases entity <;> simp [in_scope, is_item, container]

end Contents

section Below

variable {db : Db} {entity : Entity} {id : String} {place : Path}

theorem has_item_iff {path : Path} {scope : Json} (hnode : db.node path = some scope) (key id : String) :
    db.has (path ++ [key, id]) ↔ is_member (scope.object_get key) id := by
  unfold has is_member
  rw [node_append, hnode]
  simp only [Option.bind_some, Json.node_at]
  cases scope.object_get key with
  | none => simp
  | some content => simp

theorem sits_below_content {path : Path} {kind : Entity} (hpath : IsScope path) (hkind : kind.is_item = true) :
    (Sits db entity id place ∧ path ++ [kind.container] <+: place) ↔
      entity = kind ∧ place = path ++ [kind.container, id] ∧ db.has place := by
  constructor
  · rintro ⟨⟨hplace, hhas⟩, hbelow⟩
    refine ⟨?_, ?_, hhas⟩ <;> cases hpath <;> cases hplace with
      | domain => simp [List.cons_prefix_cons] at hbelow
      | project =>
        cases kind <;> simp_all [List.cons_prefix_cons, container, is_item]
      | item hitem hscope =>
        cases hscope <;> cases kind <;> cases entity <;>
          simp_all [List.cons_prefix_cons, container, is_item]
  rintro ⟨rfl, rfl, hhas⟩
  refine ⟨⟨.item hkind hpath id, hhas⟩, ?_⟩
  exact (List.prefix_append_right_inj path).mpr (by simp)

theorem sits_below_project {domain project : String} {val : Json}
    (hnode : db.node [domain, "projects", project] = some val) :
    (Sits db entity id place ∧ [domain, "projects", project] <+: place) ↔
      (entity = .project ∧ id = project ∧ place = [domain, "projects", project]) ∨
      (in_scope val entity id ∧ place = [domain, "projects", project] ++ [entity.container, id]) := by
  constructor
  · rintro ⟨⟨hplace, hhas⟩, hbelow⟩
    cases hplace with
    | domain => simp [List.cons_prefix_cons] at hbelow
    | project =>
      simp only [List.cons_prefix_cons, List.nil_prefix, and_true, true_and] at hbelow
      exact .inl ⟨rfl, hbelow.2.symm, by rw [hbelow.1, hbelow.2]⟩
    | item hitem hscope =>
      cases hscope with
      | domain =>
        cases entity <;> simp_all [List.cons_prefix_cons, container, is_item]
      | project other other_project =>
        simp only [List.cons_append, List.nil_append, List.cons_prefix_cons, List.nil_prefix, and_true,
          true_and] at hbelow
        obtain ⟨rfl, rfl⟩ := hbelow
        exact .inr ⟨⟨hitem, (has_item_iff hnode _ _).mp hhas⟩, rfl⟩
  rintro (⟨rfl, rfl, rfl⟩ | ⟨⟨hitem, hmember⟩, rfl⟩)
  · exact ⟨⟨.project domain id, by rw [has, hnode]; rfl⟩, List.prefix_rfl⟩
  exact ⟨⟨.item hitem (.project domain project) id, (has_item_iff hnode _ _).mpr hmember⟩, List.prefix_append _ _⟩

theorem sits_below_projects {domain : String} : (Sits db entity id place ∧ [domain, "projects"] <+: place) ↔
      ∃ project val, db.node [domain, "projects", project] = some val ∧
        Sits db entity id place ∧ [domain, "projects", project] <+: place := by
  constructor
  · rintro ⟨⟨hplace, hhas⟩, hbelow⟩
    have hproject : ∃ project, [domain, "projects", project] <+: place := by
      cases hplace with
      | domain => simp [List.cons_prefix_cons] at hbelow
      | project other id =>
        simp only [List.cons_prefix_cons, List.nil_prefix, and_true] at hbelow
        exact ⟨id, by simp [hbelow]⟩
      | item hitem hscope =>
        cases hscope with
        | domain =>
          cases entity <;> simp_all [List.cons_prefix_cons, container, is_item]
        | project other project =>
          simp only [List.cons_append, List.nil_append, List.cons_prefix_cons, List.nil_prefix, and_true] at hbelow
          exact ⟨project, by simp [hbelow, List.cons_prefix_cons]⟩
    obtain ⟨project, hpre⟩ := hproject
    obtain ⟨val, hval⟩ := Option.isSome_iff_exists.mp (has_of_below hpre hhas)
    exact ⟨project, val, hval, ⟨hplace, hhas⟩, hpre⟩
  rintro ⟨project, val, _, hsits, hpre⟩
  exact ⟨hsits, List.IsPrefix.trans (by simp [List.cons_prefix_cons]) hpre⟩

theorem sits_below_domain {domain : String} {val : Json} (hnode : db.node [domain] = some val) :
    (Sits db entity id place ∧ [domain] <+: place) ↔
      (entity = .domain ∧ id = domain ∧ place = [domain]) ∨
      (in_scope val entity id ∧ place = [domain] ++ [entity.container, id]) ∨
      (Sits db entity id place ∧ [domain, "projects"] <+: place) := by
  constructor
  · rintro ⟨⟨hplace, hhas⟩, hbelow⟩
    cases hplace with
    | domain =>
      simp only [List.cons_prefix_cons, List.nil_prefix, and_true] at hbelow
      exact .inl ⟨rfl, hbelow.symm, by rw [hbelow]⟩
    | project other id =>
      simp only [List.cons_prefix_cons, List.nil_prefix, and_true] at hbelow
      subst hbelow
      exact .inr (.inr ⟨⟨.project domain id, hhas⟩, by simp [List.cons_prefix_cons]⟩)
    | item hitem hscope =>
      cases hscope with
      | domain other =>
        simp only [List.cons_append, List.nil_append, List.cons_prefix_cons, List.nil_prefix, and_true] at hbelow
        subst hbelow
        exact .inr (.inl ⟨⟨hitem, (has_item_iff hnode _ _).mp hhas⟩, rfl⟩)
      | project other project =>
        simp only [List.cons_append, List.nil_append, List.cons_prefix_cons, List.nil_prefix, and_true] at hbelow
        subst hbelow
        exact .inr (.inr ⟨⟨.item hitem (.project domain project) id, hhas⟩, by simp [List.cons_prefix_cons]⟩)
  rintro (⟨rfl, rfl, rfl⟩ | ⟨⟨hitem, hmember⟩, rfl⟩ | ⟨hsits, hpre⟩)
  · exact ⟨⟨.domain id, by rw [has, hnode]; rfl⟩, List.prefix_rfl⟩
  · exact ⟨⟨.item hitem (.domain domain) id, (has_item_iff hnode _ _).mpr hmember⟩, List.prefix_append _ _⟩
  · exact ⟨hsits, List.IsPrefix.trans (by simp [List.cons_prefix_cons]) hpre⟩

end Below

/-- What a walk that takes entities out of the index does: it takes out entities
    below a path only, and all of them when it comes to its end. An entity whose own
    walk breaks off stays in the index. -/
structure UnindexedBelow (path : Path) (ok : Bool) (gone : Entity → String → Prop) (db db' : Db) : Prop where
  unindexed : Unindexed gone db db'
  below : ∀ {entity id}, gone entity id → ∃ place, Sits db entity id place ∧ path <+: place
  all : ok = true → ∀ {entity id place}, Sits db entity id place → path <+: place → gone entity id

theorem sits_of_domains_eq_iff (h : db'.domains = db.domains) (entity : Entity) (id : String)
    (path : Path) : Sits db' entity id path ↔ Sits db entity id path :=
  ⟨fun hsits => hsits.of_domains_eq h.symm, fun hsits => hsits.of_domains_eq h⟩

section Unindex

variable {db : Db} {domain : String}

theorem unindex_project_spec {project : String} {val : Json}
    (hget : db.index_get .project project = some (.node [domain, "projects", project]))
    (hnode : db.node [domain, "projects", project] = some val) :
    ∃ gone db', unindex_project project db = some (scope_walkable val, db') ∧
      UnindexedBelow [domain, "projects", project] (scope_walkable val) gone db db' ∧
      (scope_walkable val = false → ∀ other, ¬ gone .project other) ∧
      (∀ other, gone .project other → other = project) := by
  have hitem : ∀ {entity id}, in_scope val entity id →
      ∃ place, Sits db entity id place ∧ [domain, "projects", project] <+: place :=
    fun {entity id} hscope => ⟨_, (sits_below_project hnode).mpr (.inr ⟨hscope, rfl⟩)⟩
  have hnot : ∀ id, ¬ in_scope val .project id := fun id hscope => by cases hscope.1
  unfold unindex_project
  simp only [hget, Db.read, hnode]
  rcases unindex_items val db (fun db => some (true, db.index_del .project project)) with
    ⟨hwalk, mid, hun, heq⟩ | ⟨hwalk, gone, mid, hun, hgone, heq⟩
  · refine ⟨_, mid.index_del .project project, by rw [heq, hwalk],
      ⟨hun.trans (unindexed_index_del mid .project project), ?_, ?_⟩, by simp [hwalk], ?_⟩
    · rintro entity id (hscope | ⟨rfl, rfl⟩)
      · exact hitem hscope
      · exact ⟨_, (sits_below_project hnode).mpr (.inl ⟨rfl, rfl, rfl⟩)⟩
    · intro _ entity id place hsits hbelow
      rcases (sits_below_project hnode).mp ⟨hsits, hbelow⟩ with ⟨rfl, rfl, _⟩ | ⟨hscope, _⟩
      · exact .inr ⟨rfl, rfl⟩
      · exact .inl hscope
    rintro other (hscope | ⟨_, rfl⟩)
    · exact absurd hscope (hnot other)
    · rfl
  refine ⟨gone, mid, by rw [heq, hwalk], ⟨hun, fun hg => hitem (hgone _ _ hg), ?_⟩, ?_, ?_⟩
  · intro hok
    rw [hwalk] at hok
    cases hok
  · intro _ other hg
    exact hnot other (hgone _ _ hg)
  intro other hg
  exact absurd (hgone _ _ hg) (hnot other)

theorem walk_unindex_projects (domain : String) (entries : List (String × Json)) {db : Db}
    (hnodup : (entries.map Prod.fst).Nodup)
    (hentries : ∀ entry ∈ entries, db.node [domain, "projects", entry.1] = some entry.2 ∧
      db.index_get .project entry.1 = some (.node [domain, "projects", entry.1])) :
    ∃ gone db', assoc.walk unindex_projects entries db =
        some (entries.all (fun entry => scope_walkable entry.2), db') ∧
      Unindexed gone db db' ∧
      (∀ {entity id}, gone entity id → ∃ entry ∈ entries, ∃ place, Sits db entity id place ∧
        [domain, "projects", entry.1] <+: place) ∧
      (entries.all (fun entry => scope_walkable entry.2) = true →
        ∀ entry ∈ entries, ∀ {entity id place}, Sits db entity id place →
          [domain, "projects", entry.1] <+: place → gone entity id) ∧
      (entries.all (fun entry => scope_walkable entry.2) = false →
        ∃ entry ∈ entries, ¬ gone .project entry.1) := by
  induction entries generalizing db with
  | nil => exact ⟨_, db, rfl, Unindexed.refl db, fun h => h.elim, by simp, by simp⟩
  | cons entry rest ih =>
    obtain ⟨project, val⟩ := entry
    simp only [List.map_cons, List.nodup_cons] at hnodup
    obtain ⟨hnode, hget⟩ := hentries (project, val) List.mem_cons_self
    obtain ⟨gone₁, mid, hstep, hbelow₁, hstays, honly⟩ := unindex_project_spec hget hnode
    have hdomains := hbelow₁.unindexed.domains_eq
    have hdistinct : ∀ entry ∈ rest, ¬ gone₁ .project entry.1 := by
      intro entry hmem hgone
      have hsame : entry.1 = project := honly entry.1 hgone
      exact hnodup.1 (hsame ▸ List.mem_map_of_mem hmem)
    cases hwalk : scope_walkable val with
    | false =>
      refine ⟨gone₁, mid, ?_, hbelow₁.unindexed, ?_, ?_, ?_⟩
      · simp [assoc.walk, unindex_projects, hstep, hwalk]
      · intro entity id hgone
        exact ⟨(project, val), List.mem_cons_self, hbelow₁.below hgone⟩
      · intro hall
        simp [hwalk] at hall
      intro _
      exact ⟨(project, val), List.mem_cons_self, hstays hwalk project⟩
    | true =>
      have hrest : ∀ entry ∈ rest, mid.node [domain, "projects", entry.1] = some entry.2 ∧
          mid.index_get .project entry.1 = some (.node [domain, "projects", entry.1]) := by
        intro entry hmem
        obtain ⟨hnode', hget'⟩ := hentries entry (List.mem_cons_of_mem _ hmem)
        refine ⟨(node_of_domains_eq hdomains _).trans hnode', ?_⟩
        rw [hbelow₁.unindexed.kept (hdistinct entry hmem), hget']
      obtain ⟨gone₂, db', hwalk₂, hun₂, hbelow₂, hall₂, hstays₂⟩ := ih hnodup.2 hrest
      refine ⟨_, db', ?_, hbelow₁.unindexed.trans hun₂, ?_, ?_, ?_⟩
      · simp only [assoc.walk, unindex_projects, hstep, hwalk, List.all_cons, Bool.true_and]
        exact hwalk₂
      · rintro entity id (hgone | hgone)
        · exact ⟨(project, val), List.mem_cons_self, hbelow₁.below hgone⟩
        obtain ⟨entry, hmem, place, hsits, hpre⟩ := hbelow₂ hgone
        exact ⟨entry, List.mem_cons_of_mem _ hmem, place, hsits.of_domains_eq hdomains.symm, hpre⟩
      · intro hall entry hmem entity id place hsits hpre
        simp only [List.all_cons, hwalk, Bool.true_and] at hall
        rcases List.mem_cons.mp hmem with rfl | hmem
        · exact .inl (hbelow₁.all hwalk hsits hpre)
        · exact .inr (hall₂ hall entry hmem (hsits.of_domains_eq hdomains) hpre)
      intro hall
      simp only [List.all_cons, hwalk, Bool.true_and] at hall
      obtain ⟨entry, hmem, hnot⟩ := hstays₂ hall
      refine ⟨entry, List.mem_cons_of_mem _ hmem, ?_⟩
      rintro (hgone | hgone)
      · exact hdistinct entry hmem hgone
      · exact hnot hgone

/-- The projects of a domain can be walked, each with its users, roles and loops. -/
def projects_walkable (projects : Json) : Bool :=
  ((projects.object_entries).getD []).all (fun entry => scope_walkable entry.2)

theorem unindex_projects_spec {projects : Json} (hnode : db.node [domain, "projects"] = some projects)
    (hcovered : ∀ project, db.has [domain, "projects", project] →
      db.index_get .project project = some (.node [domain, "projects", project])) :
    ∃ gone db', projects.object_for_each unindex_projects db =
        some (projects.is_object && projects_walkable projects, db') ∧
      UnindexedBelow [domain, "projects"] (projects_walkable projects) gone db db' ∧
      (projects_walkable projects = false → ∃ project, db.has [domain, "projects", project] ∧
        ¬ gone .project project) := by
  have hmember : ∀ project, db.node [domain, "projects", project] = projects.object_get project :=
    fun project => node_member hnode project
  cases hentries : projects.object_entries with
  | none =>
    have hobject : projects.is_object = false := by simpa [hentries] using (Json.object_entries_isSome projects).symm
    have hempty : ∀ project, projects.object_get project = none := by
      intro project
      cases hget : projects.object_get project with
      | none => rfl
      | some val => simp [Json.is_object_of_object_get hget] at hobject
    refine ⟨_, db, by simp [Json.object_for_each, hentries, hobject], ⟨Unindexed.refl db, fun h => h.elim, ?_⟩, ?_⟩
    · intro _ entity id place hsits hbelow
      obtain ⟨project, val, hval, _⟩ := sits_below_projects.mp ⟨hsits, hbelow⟩
      simp [hmember, hempty] at hval
    · simp [projects_walkable, hentries]
  | some members =>
    have hobject : projects.is_object = true := by simpa [hentries] using (Json.object_entries_isSome projects).symm
    have hmem : ∀ project val, (project, val) ∈ members ↔ projects.object_get project = some val :=
      Json.mem_object_entries hentries
    have hnodup : (members.map Prod.fst).Nodup := by
      cases projects with
      | object fields =>
        cases hentries
        exact assoc.entries_keys_nodup fields
      | _ => cases hentries
    obtain ⟨gone, db', hwalk, hun, hbelow, hall, hstays⟩ :=
      walk_unindex_projects domain members hnodup (by
        rintro ⟨project, val⟩ hentry
        have hval : db.node [domain, "projects", project] = some val :=
          (hmember project).trans ((hmem project val).mp hentry)
        exact ⟨hval, hcovered project (by rw [has, hval]; rfl)⟩)
    refine ⟨gone, db', ?_, ⟨hun, ?_, ?_⟩, ?_⟩
    · simp only [Json.object_for_each, hentries, projects_walkable, Option.getD_some, hobject, Bool.true_and]
      exact hwalk
    · intro entity id hgone
      obtain ⟨entry, _, place, hsits, hpre⟩ := hbelow hgone
      exact ⟨place, hsits, List.IsPrefix.trans (by simp [List.cons_prefix_cons]) hpre⟩
    · intro hok entity id place hsits hpre
      obtain ⟨project, val, hval, _, hpre'⟩ := sits_below_projects.mp ⟨hsits, hpre⟩
      simp only [projects_walkable, hentries, Option.getD_some] at hok
      exact hall hok (project, val) ((hmem project val).mpr ((hmember project).symm.trans hval)) hsits hpre'
    intro hbad
    simp only [projects_walkable, hentries, Option.getD_some] at hbad
    obtain ⟨⟨project, val⟩, hentry, hnot⟩ := hstays hbad
    refine ⟨project, ?_, hnot⟩
    rw [has, hmember, (hmem project val).mp hentry]
    rfl

/-- All of a domain can be walked. -/
def domain_walkable (val : Json) : Bool :=
  walkable (val.object_get "projects") && ((val.object_get "projects").all projects_walkable) &&
    scope_walkable val

theorem unindex_domain_spec {val : Json} (hnode : db.node [domain] = some val)
    (hcovered : ∀ project, db.has [domain, "projects", project] →
      db.index_get .project project = some (.node [domain, "projects", project])) :
    ∃ gone db', unindex_domain domain db = some (domain_walkable val, db') ∧
      UnindexedBelow [domain] (domain_walkable val) gone db db' ∧
      (domain_walkable val = false → ¬ gone .domain domain) := by
  have hprojects : db.node [domain, "projects"] = val.object_get "projects" := node_member hnode "projects"
  have hup : ∀ {place : Path}, [domain, "projects"] <+: place → [domain] <+: place :=
    fun hpre => List.IsPrefix.trans (by simp [List.cons_prefix_cons]) hpre
  -- the walk over the projects, whether there are any or not
  have hfirst : ∃ gone mid, for_each_if_set (val.object_get "projects") unindex_projects db =
        some (walkable (val.object_get "projects") && (val.object_get "projects").all projects_walkable, mid) ∧
      UnindexedBelow [domain, "projects"] ((val.object_get "projects").all projects_walkable) gone db mid := by
    cases hget : val.object_get "projects" with
    | none =>
      refine ⟨_, db, rfl, Unindexed.refl db, fun h => h.elim, ?_⟩
      intro _ entity id place hsits hbelow
      have hhas := has_of_below hbelow hsits.2
      simp [has, hprojects, hget] at hhas
    | some projects =>
      obtain ⟨gone, mid, hwalk, hbelow, _⟩ := unindex_projects_spec (hprojects.trans hget) hcovered
      exact ⟨gone, mid, by simpa [for_each_if_set, walkable] using hwalk, by simpa using hbelow⟩
  obtain ⟨gone₁, mid, hwalk₁, hbelow₁⟩ := hfirst
  have hdomain₁ : ¬ gone₁ .domain domain := by
    intro hgone
    obtain ⟨place, hsits, hpre⟩ := hbelow₁.below hgone
    cases hsits.1 with
    | domain => simp [List.cons_prefix_cons] at hpre
    | item hitem => cases hitem
  have hitem : ∀ {entity id}, in_scope val entity id → ∃ place, Sits db entity id place ∧ [domain] <+: place :=
    fun hscope => ⟨_, (sits_below_domain hnode).mpr (.inr (.inl ⟨hscope, rfl⟩))⟩
  have hbelow₁' : ∀ {entity id}, gone₁ entity id → ∃ place, Sits db entity id place ∧ [domain] <+: place := by
    intro entity id hgone
    obtain ⟨place, hsits, hpre⟩ := hbelow₁.below hgone
    exact ⟨place, hsits, hup hpre⟩
  unfold unindex_domain
  simp only [hnode, hwalk₁]
  cases hok₁ : walkable (val.object_get "projects") && (val.object_get "projects").all projects_walkable with
  | false =>
    refine ⟨gone₁, mid, by simp [domain_walkable, hok₁], ⟨hbelow₁.unindexed, hbelow₁', ?_⟩, fun _ => hdomain₁⟩
    intro hok
    simp [domain_walkable, hok₁] at hok
  | true =>
    simp only [guarded.next_true]
    rcases unindex_items val mid (fun db => some (true, db.index_del .domain domain)) with
      ⟨hwalk, last, hun, heq⟩ | ⟨hwalk, gone, last, hun, hgone, heq⟩
    · refine ⟨_, last.index_del .domain domain, by simp [heq, domain_walkable, hok₁, hwalk],
        ⟨(hbelow₁.unindexed.trans hun).trans (unindexed_index_del last .domain domain), ?_, ?_⟩, ?_⟩
      · rintro entity id ((hgone | hscope) | ⟨rfl, rfl⟩)
        · exact hbelow₁' hgone
        · exact hitem hscope
        · exact ⟨_, (sits_below_domain hnode).mpr (.inl ⟨rfl, rfl, rfl⟩)⟩
      · intro _ entity id place hsits hpre
        rcases (sits_below_domain hnode).mp ⟨hsits, hpre⟩ with ⟨rfl, rfl, _⟩ | ⟨hscope, _⟩ | ⟨_, hpre'⟩
        · exact .inr ⟨rfl, rfl⟩
        · exact .inl (.inr hscope)
        · exact .inl (.inl (hbelow₁.all (Bool.and_eq_true _ _ ▸ hok₁).2 hsits hpre'))
      intro hbad
      simp [domain_walkable, hok₁, hwalk] at hbad
    refine ⟨_, last, by simp [heq, domain_walkable, hok₁, hwalk], ⟨hbelow₁.unindexed.trans hun, ?_, ?_⟩, ?_⟩
    · rintro entity id (hg | hg)
      · exact hbelow₁' hg
      · exact hitem (hgone _ _ hg)
    · intro hok
      simp [domain_walkable, hok₁, hwalk] at hok
    rintro _ (hg | hg)
    · exact hdomain₁ hg
    · cases (hgone _ _ hg).1

end Unindex

end openvocs.vocs_db
