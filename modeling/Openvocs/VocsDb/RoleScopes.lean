import Mathlib.Data.Set.Insert
import Openvocs.VocsDb.Consistency

namespace openvocs.vocs_db

open Db

theorem IsScope.eq_of_role_below {scope other : Path} (hscope : IsScope scope) (hother : IsScope other) {id key : String}
    (hpre : scope ++ ["roles", id] <+: other ++ ["roles", key]) : scope = other ∧ id = key := by
  have hplace : IsPlace .role id (scope ++ ["roles", id]) := .item rfl hscope id
  have hplace' : IsPlace .role key (other ++ ["roles", key]) := .item rfl hother key
  have heq := hplace.eq_of_below rfl hplace' hpre
  obtain ⟨-, rfl⟩ := hplace.unique (heq ▸ hplace')
  have hsame : other ++ ["roles", id] = scope ++ ["roles", id] := heq
  exact ⟨(List.append_left_injective ["roles", id] hsame).symm, rfl⟩

theorem IsScope.eq_of_roles_below {scope other : Path} (hscope : IsScope scope) (hother : IsScope other) {key : String}
    (hpre : scope ++ ["roles"] <+: other ++ ["roles", key]) : scope = other := by
  cases hscope with
  | domain domain =>
    cases hother with
    | domain => simpa [List.cons_prefix_cons] using hpre
    | project => simp [List.cons_prefix_cons] at hpre
  | project domain project =>
    cases hother with
    | domain => simp [List.cons_prefix_cons] at hpre
    | project => simpa [List.cons_prefix_cons] using hpre

theorem IsScope.not_role_below_scope {scope other : Path} (hscope : IsScope scope) (hother : IsScope other) (id : String)
    (rest : Path) (hrest : rest.length ≤ 1) : ¬ scope ++ ["roles", id] <+: other ++ rest := by
  intro hpre
  have hlength := hpre.length_le
  cases hscope with
  | domain domain =>
    cases hother with
    | domain => simp at hlength; omega
    | project => simp [List.cons_prefix_cons] at hpre
  | project => cases hother <;> simp at hlength <;> omega

/-- A role object was created, deleted or replaced. -/
def RoleChanged (db db' : Db) (scope : Path) (id : String) : Prop :=
  db'.node (scope ++ ["roles", id]) ≠ db.node (scope ++ ["roles", id])

/-- At most one role object has changed. -/
def OneRoleChanged (db db' : Db) : Prop :=
  ∀ scope other, IsScope scope → IsScope other → ∀ id key,
    RoleChanged db db' scope id → RoleChanged db db' other key → scope = other ∧ id = key

/-- The role objects that were there are as they were. -/
def RolesKept (db db' : Db) : Prop :=
  ∀ scope, IsScope scope → ∀ id, db.has (scope ++ ["roles", id]) → ¬ RoleChanged db db' scope id

/-- The role of one id was deleted in some scopes. -/
structure RolesDeleted (id : String) (scopes : Set Path) (db db' : Db) : Prop where
  gone : ∀ scope ∈ scopes, db'.node (scope ++ ["roles", id]) = none
  kept : ∀ scope, IsScope scope → ∀ key, ¬ (key = id ∧ scope ∈ scopes) →
    db'.node (scope ++ ["roles", key]) = db.node (scope ++ ["roles", key])
  has_iff : ∀ scope, IsScope scope → ∀ rest : Path, rest.length ≤ 1 → (db'.has (scope ++ rest) ↔ db.has (scope ++ rest))
  is_object_at_eq : ∀ scope, IsScope scope →
    db'.is_object_at (scope ++ ["roles"]) = db.is_object_at (scope ++ ["roles"])
  index_entries_eq : ∀ entity, entity.is_item = false → db'.index_entries entity = db.index_entries entity

namespace RolesDeleted

variable {id : String} {scopes others : Set Path} {db mid db' : Db}

theorem refl (id : String) (db : Db) : RolesDeleted id ∅ db db where
  gone _ h := h.elim
  kept _ _ _ _ := rfl
  has_iff _ _ _ _ := Iff.rfl
  is_object_at_eq _ _ := rfl
  index_entries_eq _ _ := rfl

theorem trans (hscopes : ∀ scope ∈ scopes, IsScope scope)
    (h : RolesDeleted id scopes db mid) (h' : RolesDeleted id others mid db') :
    RolesDeleted id (scopes ∪ others) db db' where
  gone scope hmem := by
    by_cases hlast : scope ∈ others
    · exact h'.gone scope hlast
    have hfirst : scope ∈ scopes := hmem.resolve_right hlast
    rw [h'.kept scope (hscopes scope hfirst) id (fun hboth => hlast hboth.2)]
    exact h.gone scope hfirst
  kept scope hscope key hnot := by
    rw [h'.kept scope hscope key (fun hboth => hnot ⟨hboth.1, .inr hboth.2⟩)]
    exact h.kept scope hscope key (fun hboth => hnot ⟨hboth.1, .inl hboth.2⟩)
  has_iff scope hscope rest hrest := (h'.has_iff scope hscope rest hrest).trans (h.has_iff scope hscope rest hrest)
  is_object_at_eq scope hscope := (h'.is_object_at_eq scope hscope).trans (h.is_object_at_eq scope hscope)
  index_entries_eq entity hentity := (h'.index_entries_eq entity hentity).trans (h.index_entries_eq entity hentity)

theorem index_del (id : String) (db : Db) : RolesDeleted id ∅ db (db.index_del .role id) where
  gone _ h := h.elim
  kept _ _ _ _ := rfl
  has_iff _ _ _ _ := Iff.rfl
  is_object_at_eq _ _ := rfl
  index_entries_eq entity hentity := by
    have hne : entity ≠ .role := by
      rintro rfl
      cases hentity
    simp only [index_entries, Db.index_del, Function.update_of_ne hne]

theorem object_del (hplaced : Placed db) {scope : Path} (hscope : IsScope scope)
    (hobject : db.is_object_at (scope ++ ["roles"]) = true) (id : String) :
    RolesDeleted id {scope} db (db.object_del (scope ++ ["roles"]) id).2 := by
  have happend : scope ++ ["roles"] ++ [id] = scope ++ ["roles", id] := by simp
  have hwrites := writes_object_del hobject id
  rw [happend] at hwrites
  refine ⟨?_, ?_, ?_, ?_, ?_⟩
  · rintro other rfl
    have hnone := not_has_object_del_below hobject id []
    rwa [happend, has, Option.not_isSome_iff_eq_none] at hnone
  · intro other hother key hnot
    refine hwrites.node_eq (fun hpre => hnot ?_) (fun hpre => hnot ?_)
    · obtain ⟨rfl, rfl⟩ := hscope.eq_of_role_below hother hpre
      exact ⟨rfl, rfl⟩
    obtain ⟨rfl, rfl⟩ := hother.eq_of_role_below hscope hpre
    exact ⟨rfl, rfl⟩
  · exact fun other hother rest hrest => hwrites.has_iff (hscope.not_role_below_scope hother id rest hrest)
  · exact fun other hother => hwrites.is_object_at_eq (hscope.not_role_below_scope hother id _ (Nat.le_refl 1))
  intro entity hentity
  -- no domain and no project is below a role
  have hsame : ∀ entry ∈ db.index_entries entity, entry.2.release (scope ++ ["roles", id]) = entry.2 := by
    rintro ⟨key, ptr⟩ hmem
    cases hplaced entity key ptr ((assoc.mem_entries_iff _ _ _).mp hmem) with
    | @node path hsits =>
      have hnot := hscope.not_role_below_scope (hsits.1.isScope hentity) id [] (Nat.zero_le 1)
      rw [List.append_nil] at hnot
      exact Ptr.release_of_not_below hnot
    | loose value huser => rfl
    | dangling => rfl
  rw [object_del_of_object hobject, happend]
  change assoc.entries ((db.index entity).map fun entry => (entry.1, entry.2.release (scope ++ ["roles", id]))) = _
  rw [assoc.entries_map_value]
  have hmap : ∀ entry ∈ db.index_entries entity,
      (entry.1, entry.2.release (scope ++ ["roles", id])) = (fun entry => entry) entry :=
    fun entry hmem => Prod.ext rfl (hsame entry hmem)
  exact (List.map_congr_left hmap).trans (List.map_id' _)

end RolesDeleted

/-- The scopes that a walk with `delete_role_in_parent` comes to. It stops behind
    the first one of which the roles are not an object. -/
def swept (db : Db) : List (String × Ptr) → List Path
  | [] => []
  | (_, .node path) :: rest =>
    if db.is_object_at (path ++ ["roles"]) then path :: swept db rest
    else if (db.node (path ++ ["roles"])).isSome then []
    else swept db rest
  | _ :: _ => []

section

variable {id : String} {db db' : Db}

/-- The entries of an index that lead to scopes, or nowhere. -/
def ScopeEntries (entries : List (String × Ptr)) : Prop :=
  ∀ entry ∈ entries, entry.2 = .dangling ∨ ∃ path, entry.2 = .node path ∧ IsScope path

theorem Placed.scope_entries (h : Placed db) {entity : Entity} (hentity : entity.is_item = false) :
    ScopeEntries (db.index_entries entity) := by
  rintro ⟨key, ptr⟩ hmem
  cases h entity key ptr ((assoc.mem_entries_iff _ _ _).mp hmem) with
  | node hsits => exact .inr ⟨_, rfl, hsits.1.isScope hentity⟩
  | loose value huser =>
    subst huser
    cases hentity
  | dangling => exact .inl rfl

theorem RolesDeleted.swept_eq {scopes : Set Path} (h : RolesDeleted id scopes db db') {entries : List (String × Ptr)}
    (hentries : ScopeEntries entries) : swept db' entries = swept db entries := by
  induction entries with
  | nil => rfl
  | cons entry rest ih =>
    have hrest := ih (fun other hother => hentries other (List.mem_cons_of_mem _ hother))
    obtain ⟨key, ptr⟩ := entry
    obtain rfl | ⟨path, rfl, hscope⟩ : ptr = .dangling ∨ ∃ path, ptr = .node path ∧ IsScope path :=
      hentries (key, ptr) List.mem_cons_self
    · rfl
    have hsome : (db'.node (path ++ ["roles"])).isSome = true ↔ (db.node (path ++ ["roles"])).isSome = true :=
      h.has_iff path hscope ["roles"] (Nat.le_refl 1)
    simp only [swept, h.is_object_at_eq path hscope, hsome, hrest]

theorem swept_scope {entries : List (String × Ptr)} (hentries : ScopeEntries entries) :
    ∀ scope ∈ swept db entries, IsScope scope := by
  induction entries with
  | nil => exact fun scope hmem => absurd hmem List.not_mem_nil
  | cons entry rest ih =>
    have hrest := ih (fun other hother => hentries other (List.mem_cons_of_mem _ hother))
    obtain ⟨key, ptr⟩ := entry
    obtain rfl | ⟨path, rfl, hscope⟩ : ptr = .dangling ∨ ∃ path, ptr = .node path ∧ IsScope path :=
      hentries (key, ptr) List.mem_cons_self
    · exact fun scope hmem => absurd hmem List.not_mem_nil
    intro scope hmem
    simp only [swept] at hmem
    split at hmem
    · obtain rfl | hmem := List.mem_cons.mp hmem
      · exact hscope
      · exact hrest scope hmem
    split at hmem
    · exact absurd hmem List.not_mem_nil
    · exact hrest scope hmem

theorem walk_delete_role {parent : Entity} {entries : List (String × Ptr)} {ok : Bool} (hplaced : Placed db)
    (hentries : ScopeEntries entries)
    (hwalk : assoc.walk (delete_in_parent parent "roles" id) entries db = some (ok, db')) :
    RolesDeleted id {scope | scope ∈ swept db entries} db db' := by
  induction entries generalizing db with
  | nil =>
    cases hwalk
    simpa [swept] using RolesDeleted.refl id db'
  | cons entry rest ih =>
    have hrest : ScopeEntries rest := fun other hother => hentries other (List.mem_cons_of_mem _ hother)
    obtain ⟨key, ptr⟩ := entry
    obtain rfl | ⟨path, rfl, hscope⟩ : ptr = .dangling ∨ ∃ path, ptr = .node path ∧ IsScope path :=
      hentries (key, ptr) List.mem_cons_self
    · cases hwalk
    cases hnode : db.node path with
    | none => simp [assoc.walk, delete_in_parent, Db.read, hnode] at hwalk
    | some v =>
      have hroles : db.node (path ++ ["roles"]) = v.object_get "roles" := node_member hnode "roles"
      cases hget : v.object_get "roles" with
      | none =>
        -- a scope without roles is passed over
        have hswept : swept db ((key, .node path) :: rest) = swept db rest := by
          simp [swept, is_object_at, hroles, hget]
        rw [hswept]
        refine ih hplaced hrest ?_
        simpa [assoc.walk, delete_in_parent, Db.read, hnode, hget] using hwalk
      | some roles =>
        cases hobject : db.is_object_at (path ++ ["roles"]) with
        | false =>
          have hswept : swept db ((key, .node path) :: rest) = [] := by simp [swept, hobject, hroles, hget]
          simp only [assoc.walk, delete_in_parent, Db.read, hnode, hget, object_del_of_not_object hobject,
            Option.some.injEq, Prod.mk.injEq] at hwalk
          rw [hswept, ← hwalk.2]
          simpa using RolesDeleted.refl id db
        | true =>
          have hfirst := RolesDeleted.object_del hplaced hscope hobject id
          have hnext : assoc.walk (delete_in_parent parent "roles" id) rest
              (db.object_del (path ++ ["roles"]) id).2 = some (ok, db') := by
            have hok : db.object_del (path ++ ["roles"]) id = (true, (db.object_del (path ++ ["roles"]) id).2) := by
              rw [object_del_of_object hobject]
            simp only [assoc.walk, delete_in_parent, Db.read, hnode, hget] at hwalk
            rwa [hok] at hwalk
          have hlast := ih (hplaced.object_del _ _) hrest hnext
          rw [hfirst.swept_eq hrest] at hlast
          have hswept : {scope | scope ∈ swept db ((key, .node path) :: rest)} =
              {path} ∪ {scope | scope ∈ swept db rest} := by
            ext scope
            simp [swept, hobject]
          rw [hswept]
          refine hfirst.trans ?_ hlast
          rintro scope rfl
          exact hscope

end

section

variable {id : String} {db db' : Db} {ok : Bool}

theorem mem_index_role_scope (hplaced : Placed db) {path : Path} (hget : db.index_get .role id = some (.node path)) :
    ∃ scope, IsScope scope ∧ path = scope ++ ["roles", id] ∧ db.has path := by
  obtain ⟨hplace, hhas⟩ := hplaced.sits hget
  cases hplace with
  | item _ hscope => exact ⟨_, hscope, rfl, hhas⟩

theorem db_delete_role (hplaced : Placed db) (hstep : db_delete .role id db = some (ok, db')) :
    RolesDeleted id {scope | db.index_get .role id = some (.node (scope ++ ["roles", id]))} db db' := by
  unfold db_delete at hstep
  cases hget : db.index_get .role id with
  | none =>
    rw [hget] at hstep
    cases hstep
    simpa using RolesDeleted.refl id _
  | some ptr =>
    have hmid : Placed (db.index_del .role id) := hplaced.index_del .role id
    have hunindexed : unindex_entity .role id db = some (true, db.index_del .role id) := rfl
    rw [hget, hunindexed] at hstep
    cases hplaced .role id ptr hget with
    | loose value huser => cases huser
    | dangling => cases hstep
    | @node path hsits =>
      obtain ⟨scope, hscope, rfl, hhas⟩ := mem_index_role_scope hplaced hget
      have happend : scope ++ ["roles", id] = scope ++ ["roles"] ++ [id] := by simp
      have hlast : (scope ++ ["roles", id]).dropLast = scope ++ ["roles"] := by rw [happend, List.dropLast_concat]
      have hobject : (db.index_del .role id).is_object_at (scope ++ ["roles"]) = true := by
        rw [happend] at hhas
        exact is_object_at_of_has id hhas
      simp only [hlast, Option.some.injEq, Prod.mk.injEq] at hstep
      rw [← hstep.2]
      have hdeleted := (RolesDeleted.index_del id db).trans (fun scope hmem => hmem.elim)
        (RolesDeleted.object_del hmid hscope hobject id)
      have hset : {other | some (Ptr.node (scope ++ ["roles", id])) = some (.node (other ++ ["roles", id]))} =
          ∅ ∪ {scope} := by
        ext other
        simp [eq_comm]
      rw [hset]
      exact hdeleted

/-- The scopes in which the deletion of a role looks for its id. -/
def role_deleted_in (id : String) (db : Db) : Set Path :=
  {scope | db.index_get .role id = some (.node (scope ++ ["roles", id])) ∨
    scope ∈ swept db (db.index_entries .domain) ∨ scope ∈ swept db (db.index_entries .project)}

theorem role_deleted_in_scope (hplaced : Placed db) : ∀ scope ∈ role_deleted_in id db, IsScope scope := by
  rintro scope (hget | hmem | hmem)
  · obtain ⟨other, hother, heq, -⟩ := mem_index_role_scope hplaced hget
    rwa [List.append_left_injective ["roles", id] heq]
  · exact swept_scope (hplaced.scope_entries rfl) scope hmem
  · exact swept_scope (hplaced.scope_entries rfl) scope hmem

theorem delete_role (hplaced : Placed db) (hstep : delete_entity .role id db = some (ok, db')) :
    RolesDeleted id (role_deleted_in id db) db db' := by
  simp only [delete_entity, delete_references, Option.bind_eq_bind, Option.bind_eq_some_iff] at hstep
  obtain ⟨⟨result, mid⟩, hdelete, ⟨references, last⟩, ⟨⟨in_domains, next⟩, hdomains, ⟨in_projects, last'⟩, hprojects, hlast⟩,
    heq⟩ := hstep
  cases hlast
  cases heq
  have hmid := hplaced.db_delete hdelete
  have hnext := hmid.delete_in_parents hdomains
  have hfirst := db_delete_role hplaced hdelete
  have hsecond := walk_delete_role hmid (hmid.scope_entries rfl) hdomains
  have hthird := walk_delete_role hnext (hnext.scope_entries rfl) hprojects
  -- the three steps find the same scopes as the database before
  have hentries := @Placed.scope_entries _ hplaced .domain rfl
  have hentries' := @Placed.scope_entries _ hplaced .project rfl
  rw [hfirst.index_entries_eq .domain rfl, hfirst.swept_eq hentries] at hsecond
  rw [hsecond.index_entries_eq .project rfl, hfirst.index_entries_eq .project rfl, hsecond.swept_eq hentries',
    hfirst.swept_eq hentries'] at hthird
  have hscope : ∀ scope ∈ role_deleted_in id db, IsScope scope := role_deleted_in_scope hplaced
  have htwo := hfirst.trans (fun scope hmem => hscope scope (.inl hmem)) hsecond
  have hall := htwo.trans (fun scope hmem => hscope scope (hmem.imp_right .inl)) hthird
  have hset : role_deleted_in id db =
      {scope | db.index_get .role id = some (.node (scope ++ ["roles", id]))} ∪
        {scope | scope ∈ swept db (db.index_entries .domain)} ∪
        {scope | scope ∈ swept db (db.index_entries .project)} := by
    ext scope
    simp [role_deleted_in, or_assoc]
  rw [hset]
  exact hall

theorem RolesDeleted.changed_iff {scopes : Set Path} (h : RolesDeleted id scopes db db') {scope : Path}
    (hscope : IsScope scope) (key : String) :
    RoleChanged db db' scope key ↔ key = id ∧ scope ∈ scopes ∧ db.has (scope ++ ["roles", id]) := by
  unfold RoleChanged
  by_cases hboth : key = id ∧ scope ∈ scopes
  · obtain ⟨rfl, hmem⟩ := hboth
    rw [h.gone scope hmem]
    simp only [true_and, hmem, has, Option.isSome_iff_ne_none]
    exact ne_comm
  rw [h.kept scope hscope key hboth]
  exact iff_of_false (fun hne => hne rfl) (fun hall => hboth ⟨hall.1, hall.2.1⟩)

theorem delete_role_scoped_iff (hplaced : Placed db) (hstep : delete_entity .role id db = some (ok, db')) :
    OneRoleChanged db db' ↔
      ∀ scope ∈ role_deleted_in id db, ∀ other ∈ role_deleted_in id db,
        db.has (scope ++ ["roles", id]) → db.has (other ++ ["roles", id]) → scope = other := by
  have hdeleted := delete_role hplaced hstep
  have hscope : ∀ scope ∈ role_deleted_in id db, IsScope scope := role_deleted_in_scope hplaced
  constructor
  · intro hone scope hmem other hmem' hhas hhas'
    have hchanged := (hdeleted.changed_iff (hscope scope hmem) id).mpr ⟨rfl, hmem, hhas⟩
    have hchanged' := (hdeleted.changed_iff (hscope other hmem') id).mpr ⟨rfl, hmem', hhas'⟩
    exact (hone scope other (hscope scope hmem) (hscope other hmem') id id hchanged hchanged').1
  intro hunique scope other hs ho key key' hchanged hchanged'
  obtain ⟨rfl, hmem, hhas⟩ := (hdeleted.changed_iff hs key).mp hchanged
  obtain ⟨rfl, hmem', hhas'⟩ := (hdeleted.changed_iff ho key').mp hchanged'
  exact ⟨hunique scope hmem other hmem' hhas hhas', rfl⟩

end

section

variable {id : String} {db mid db' : Db} {ok : Bool}

theorem get_create_roles {data : Path} (hdata : IsScope data) (hcreate : get_create_content data "roles" db = (true, mid))
    {scope : Path} (hscope : IsScope scope) (key : String) :
    mid.node (scope ++ ["roles", key]) = db.node (scope ++ ["roles", key]) := by
  obtain ⟨-, heq⟩ | ⟨hnone, heq⟩ := get_create_content_cases db data "roles"
  · rw [heq] at hcreate
    cases hcreate
    rfl
  have hobject : db.is_object_at data = true := by rw [← object_set_ok db data "roles" (.object []), ← heq, hcreate]
  have hmid : mid = (db.object_set data "roles" (.object [])).2 := by rw [← heq, hcreate]
  have hempty : db.node (data ++ ["roles"]) = none := by simpa [has] using hnone
  by_cases hsame : scope = data
  · subst hsame
    have hbefore : db.node (scope ++ ["roles", key]) = none := by
      rw [show scope ++ ["roles", key] = scope ++ ["roles"] ++ [key] by simp, node_append, hempty]
      rfl
    rw [hbefore, hmid, node_object_set_below hobject "roles" (.object []) [key]]
    rfl
  rw [hmid]
  refine (writes_object_set hobject "roles" _).node_eq
    (fun hpre => hsame (hdata.eq_of_roles_below hscope hpre).symm) (fun hpre => ?_)
  have hlength := hpre.length_le
  cases hdata with
  | domain => cases hscope <;> simp at hlength
  | project =>
    cases hscope with
    | domain => simp [List.cons_prefix_cons] at hpre
    | project => simp at hlength

theorem create_role (hplaced : Placed db) {scope : Scope} {scope_id : String}
    (hstep : create_entity .role id scope scope_id db = some (ok, db')) :
    (∀ other, IsScope other → ∀ key, ¬ RoleChanged db db' other key) ∨
      ∃ data, IsScope data ∧ scope_node scope scope_id db = some (some data) ∧
        (is_admin_role .role id ∨ db.index_get .role id = none) ∧
        db'.node (data ++ ["roles", id]) = some (new_entity id) ∧
        ∀ other, IsScope other → ∀ key, ¬ (other = data ∧ key = id) → ¬ RoleChanged db db' other key := by
  obtain ⟨-, rfl⟩ | ⟨hfree, parent, mid, hparent, hset⟩ := create_entity_cases hstep
  · exact .inl (fun other _ key hchanged => hchanged rfl)
  obtain ⟨hdomain, -⟩ | ⟨-, -, data, hnode, rfl, hcreate⟩ := get_parent_eq_some hparent
  · cases hdomain
  obtain ⟨hdata, -⟩ := hplaced.isScope_of_scope_node hnode
  have hsame : ∀ other, IsScope other → ∀ key, ¬ RoleChanged db mid other key :=
    fun other hother key hchanged => hchanged (get_create_roles hdata hcreate hother key)
  obtain ⟨-, -, rfl⟩ | ⟨-, hobject, heq⟩ := hset
  · exact .inl hsame
  have hdb' : ∀ path, db'.node path = (mid.object_set (data ++ ["roles"]) id (new_entity id)).2.node path := by
    intro path
    rw [heq]
    split <;> rfl
  refine .inr ⟨data, hdata, hnode, hfree, ?_, fun other hother key hnot hchanged => hchanged ?_⟩
  · have hnew := node_object_set_below hobject id (new_entity id) []
    rw [List.append_assoc] at hnew
    exact (hdb' _).trans hnew
  have hwrites := writes_object_set hobject id (new_entity id)
  have happend : data ++ ["roles"] ++ [id] = data ++ ["roles", id] := by simp
  change Db.Writes (data ++ ["roles"] ++ [id]) _ _ at hwrites
  rw [happend] at hwrites
  rw [hdb', ← not_not.mp (hsame other hother key)]
  refine hwrites.node_eq (fun hpre => hnot ?_) (fun hpre => hnot ?_)
  · obtain ⟨rfl, rfl⟩ := hdata.eq_of_role_below hother hpre
    exact ⟨rfl, rfl⟩
  obtain ⟨rfl, rfl⟩ := hother.eq_of_role_below hdata hpre
  exact ⟨rfl, rfl⟩

end

section

variable {id : String} {db db' : Db} {ok : Bool} {scope : Scope} {scope_id : String}

theorem create_role_over {data : Path} (hfree : is_admin_role .role id ∨ db.index_get .role id = none)
    (hnode : scope_node scope scope_id db = some (some data)) (hhas : db.has (data ++ ["roles", id]))
    (hstep : create_entity .role id scope scope_id db = some (ok, db')) :
    db'.node (data ++ ["roles", id]) = some (new_entity id) := by
  have happend : data ++ ["roles", id] = data ++ ["roles"] ++ [id] := by simp
  rw [happend] at hhas ⊢
  have hobject : db.is_object_at (data ++ ["roles"]) = true := is_object_at_of_has _ hhas
  have hcontent : get_create_content data "roles" db = (true, db) := by
    obtain ⟨-, heq⟩ | ⟨hnone, -⟩ := get_create_content_cases db data "roles"
    · exact heq
    · exact absurd (has_of_has_append _ hhas) hnone
  have hparent : get_parent .role scope scope_id db = some (some (data ++ ["roles"]), db) := by
    simp [get_parent, hnode, get_create_parent_eq, hcontent, Entity.container]
  have hnew := node_object_set_below hobject id (new_entity id) []
  have hnot : ¬ (¬ is_admin_role .role id ∧ (db.index_get .role id).isSome) := by
    rintro ⟨hadmin, hsome⟩
    rw [hfree.resolve_left hadmin] at hsome
    cases hsome
  have hok := object_set_ok db (data ++ ["roles"]) id (new_entity id)
  unfold create_entity at hstep
  rw [if_neg hnot, hparent] at hstep
  rcases hset : db.object_set (data ++ ["roles"]) id (new_entity id) with ⟨set, next⟩
  rw [hset] at hok hnew
  obtain rfl : set = true := hok.trans hobject
  simp only [hset] at hstep
  split at hstep <;> (cases hstep; exact hnew)

theorem create_role_scoped_iff (hplaced : Placed db)
    (hstep : create_entity .role id scope scope_id db = some (ok, db')) :
    OneRoleChanged db db' ∧ RolesKept db db' ↔
      (is_admin_role .role id ∨ db.index_get .role id = none →
        ∀ data role, scope_node scope scope_id db = some (some data) → db.node (data ++ ["roles", id]) = some role →
          role = new_entity id) := by
  constructor
  · rintro ⟨-, hkept⟩ hfree data role hnode hrole
    obtain ⟨hdata, -⟩ := hplaced.isScope_of_scope_node hnode
    have hhas : db.has (data ++ ["roles", id]) := by
      rw [has, hrole]
      rfl
    have hnew := create_role_over hfree hnode hhas hstep
    have hsame := not_not.mp (hkept data hdata id hhas)
    rw [hnew, hrole] at hsame
    exact (Option.some.inj hsame).symm
  intro hcondition
  obtain hnone | ⟨data, hdata, hnode, hfree, hnew, hothers⟩ := create_role hplaced hstep
  · exact ⟨fun s _ hs _ key _ hchanged => absurd hchanged (hnone s hs key), fun s hs key _ => hnone s hs key⟩
  have hunique : ∀ s, IsScope s → ∀ key, RoleChanged db db' s key → s = data ∧ key = id := by
    intro s hs key hchanged
    by_contra hnot
    exact hothers s hs key hnot hchanged
  refine ⟨fun s s' hs hs' key key' hchanged hchanged' => ?_, fun s hs key hhas hchanged => ?_⟩
  · obtain ⟨rfl, rfl⟩ := hunique s hs key hchanged
    obtain ⟨rfl, rfl⟩ := hunique s' hs' key' hchanged'
    exact ⟨rfl, rfl⟩
  obtain ⟨rfl, rfl⟩ := hunique s hs key hchanged
  obtain ⟨role, hrole⟩ := Option.isSome_iff_exists.mp hhas
  rw [hcondition hfree s role hnode hrole] at hrole
  exact hchanged (hnew.trans hrole.symm)

end

/-- The operations on roles, and when they stay in one scope: a deletion when its id
    is a role of one scope only, a creation when it replaces no role. In a consistent
    database both are defined. -/
theorem role_operations_scoped_when (db : Db) (h : Reachable db) :
    (∀ id ok db', (Op.delete_entity .role id).step db = some (ok, db') →
      (OneRoleChanged db db' ↔
        ∀ scope ∈ role_deleted_in id db, ∀ other ∈ role_deleted_in id db,
          db.has (scope ++ ["roles", id]) → db.has (other ++ ["roles", id]) → scope = other)) ∧
    (∀ id scope scope_id ok db', (Op.create_entity .role id scope scope_id).step db = some (ok, db') →
      (OneRoleChanged db db' ∧ RolesKept db db' ↔
        (is_admin_role .role id ∨ db.index_get .role id = none →
          ∀ data role, scope_node scope scope_id db = some (some data) → db.node (data ++ ["roles", id]) = some role →
            role = new_entity id))) ∧
    (Consistent db → ∀ id scope scope_id, ((Op.delete_entity .role id).step db).isSome ∧
      ((Op.create_entity .role id scope scope_id).step db).isSome) := by
  refine ⟨fun id ok db' hstep => delete_role_scoped_iff h.placed hstep,
    fun id scope scope_id ok db' hstep => create_role_scoped_iff h.placed hstep, fun hconsistent id scope scope_id => ?_⟩
  have hadmissible : delete_admissible .role id db := trivial
  obtain ⟨ok, db', hdelete, -⟩ := (delete_entity_consistent_iff hconsistent).mpr hadmissible
  refine ⟨?_, create_entity_isSome hconsistent.settled .role id scope scope_id⟩
  rw [Op.step, hdelete]
  rfl

/-- In a new domain there is no role to replace. -/
theorem role_operations_scoped_when_new :
    ∃ db ok db', (Op.create_entity .role "r" .domain "d").step db = some (ok, db') ∧
      OneRoleChanged db db' ∧ RolesKept db db' := by
  have hcheck : (run [.create_entity .domain "d" .domain ""] Db.empty).any (fun db =>
      ((Op.create_entity .role "r" .domain "d").step db).isSome &&
        decide (scope_node .domain "d" db = some (some ["d"])) && (db.node ["d", "roles", "r"]).isNone) = true := by
    decide +kernel
  obtain ⟨db, hrun, hcheck⟩ := (Option.any_eq_true _ _).mp hcheck
  simp only [Bool.and_eq_true, decide_eq_true_eq, Option.isNone_iff_eq_none, Option.isSome_iff_exists] at hcheck
  obtain ⟨⟨⟨⟨ok, db'⟩, hstep⟩, hscope⟩, hnone⟩ := hcheck
  refine ⟨db, ok, db', hstep, ((role_operations_scoped_when db ⟨_, hrun⟩).2.1 "r" .domain "d" ok db' hstep).mpr ?_⟩
  intro _ data role hdata hrole
  rw [hscope] at hdata
  cases hdata
  rw [List.cons_append, List.nil_append, hnone] at hrole
  cases hrole

def admin_ops : List Op :=
  [.create_entity .domain "d" .domain "", .create_entity .domain "e" .domain "",
   .add_domain_admin "d" "u", .add_domain_admin "e" "v"]

/-- The admin roles of both domains are deleted. -/
theorem admin_roles_deleted_together :
    ¬ ∀ db, Reachable db → ∀ id ok db', (Op.delete_entity .role id).step db = some (ok, db') → OneRoleChanged db db' := by
  intro h
  have hcheck : (run admin_ops Db.empty).any (fun db => ((Op.delete_entity .role "admin").step db).any fun r =>
      ["d", "e"].all fun domain => (db.node [domain, "roles", "admin"]).isSome &&
        (r.2.node [domain, "roles", "admin"]).isNone) = true := by
    decide +kernel
  obtain ⟨db, hrun, hdelete⟩ := (Option.any_eq_true _ _).mp hcheck
  obtain ⟨⟨ok, db'⟩, hstep, hboth⟩ := (Option.any_eq_true _ _).mp hdelete
  have hchanged : ∀ domain ∈ ["d", "e"], RoleChanged db db' [domain] "admin" := by
    intro domain hmem hsame
    have hnodes := List.all_eq_true.mp hboth domain hmem
    have heq : db'.node [domain, "roles", "admin"] = db.node [domain, "roles", "admin"] := hsame
    rw [heq] at hnodes
    cases hnode : db.node [domain, "roles", "admin"] <;> simp [hnode] at hnodes
  have hsame := h db ⟨admin_ops, hrun⟩ "admin" ok db' hstep ["d"] ["e"] (.domain "d") (.domain "e") "admin" "admin"
    (hchanged "d" (by simp)) (hchanged "e" (by simp))
  exact absurd hsame.1 (by decide)

end openvocs.vocs_db
