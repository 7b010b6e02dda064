import Openvocs.VocsDb.Run

open List Option

namespace openvocs.vocs_db

open Entity Json

theorem Ptr.release_of_below {path other : Path} (h : path <+: other) :
    Ptr.release path (.node other) = .dangling := if_pos h

theorem Ptr.release_of_not_below {path other : Path} (h : ¬ path <+: other) :
    Ptr.release path (.node other) = .node other := if_neg h

theorem Ptr.release_eq_node {path other : Path} {ptr : Ptr} (h : ptr.release path = .node other) :
    ptr = .node other ∧ ¬ path <+: other := by
  cases ptr with
  | node old =>
    by_cases hbelow : path <+: old
    · rw [release_of_below hbelow] at h
      cases h
    rw [release_of_not_below hbelow] at h
    cases h
    exact ⟨rfl, hbelow⟩
  | loose value => cases h
  | dangling => cases h

namespace Db

/-- There is a node at a path of the tree. -/
def has (db : Db) (path : Path) : Prop := (db.node path).isSome = true

/-- There is an object at a path of the tree. -/
def is_object_at (db : Db) (path : Path) : Bool := (db.node path).any Json.is_object

theorem node_append (db : Db) (path rest : Path) :
    db.node (path ++ rest) = (db.node path).bind (fun child => child.node_at rest) := by
  unfold node
  cases db.domains with
  | none => rfl
  | some root => exact node_at_append root path rest

variable {db : Db}

theorem has_of_has_append {path : Path} (rest : Path) (h : db.has (path ++ rest)) : db.has path := by
  unfold has at *
  rw [node_append] at h
  cases hnode : db.node path with
  | none => simp [hnode] at h
  | some child => rfl

theorem has_of_below {path other : Path} (hpre : path <+: other) (h : db.has other) :
    db.has path := by
  obtain ⟨rest, rfl⟩ := hpre
  exact has_of_has_append _ h

theorem is_object_at_of_has {path : Path} (key : String) (h : db.has (path ++ [key])) :
    db.is_object_at path = true := by
  unfold has at h
  unfold is_object_at
  rw [node_append] at h
  cases hnode : db.node path with
  | none => simp [hnode] at h
  | some child =>
    cases hget : child.object_get key with
    | none => simp [hnode, node_at, hget] at h
    | some grandchild => simp [is_object_of_object_get hget]

theorem is_object_at_iff (db : Db) (path : Path) :
    db.is_object_at path = true ↔ ∃ members, db.node path = some (.object members) := by
  unfold is_object_at
  cases db.node path with
  | none => simp
  | some child => simp [is_object_iff]

theorem object_set_of_object {path : Path} (h : db.is_object_at path = true) (key : String)
    (value : Json) :
    db.object_set path key value = (true, { db.release (path ++ [key]) with
      domains := db.domains.map (update_at (fun node => node.object_put key value) path) }) := by
  obtain ⟨members, hnode⟩ := (is_object_at_iff db path).mp h
  simp [object_set, hnode]

theorem object_set_of_not_object {path : Path} (h : db.is_object_at path = false) (key : String)
    (value : Json) : db.object_set path key value = (false, db) := by
  unfold object_set
  split
  · rename_i members hnode
    simp [is_object_at, hnode, Json.is_object] at h
  · rfl

theorem object_del_of_object {path : Path} (h : db.is_object_at path = true) (key : String) :
    db.object_del path key = (true, { db.release (path ++ [key]) with
      domains := db.domains.map (update_at (fun node => node.object_erase key) path) }) := by
  obtain ⟨members, hnode⟩ := (is_object_at_iff db path).mp h
  simp [object_del, hnode]

theorem object_del_of_not_object {path : Path} (h : db.is_object_at path = false) (key : String) :
    db.object_del path key = (false, db) := by
  unfold object_del
  split
  · rename_i members hnode
    simp [is_object_at, hnode, Json.is_object] at h
  · rfl

theorem object_set_ok (db : Db) (path : Path) (key : String) (value : Json) :
    (db.object_set path key value).1 = db.is_object_at path := by
  cases h : db.is_object_at path with
  | false => rw [object_set_of_not_object h]
  | true => rw [object_set_of_object h]

theorem object_del_ok (db : Db) (path : Path) (key : String) :
    (db.object_del path key).1 = db.is_object_at path := by
  cases h : db.is_object_at path with
  | false => rw [object_del_of_not_object h]
  | true => rw [object_del_of_object h]

/-- What a write below a path leaves alone. The write may add and remove nodes
    below the path, and nowhere else. -/
structure Writes (path : Path) (db db' : Db) : Prop where
  has_iff : ∀ {other}, ¬ path <+: other → (db'.has other ↔ db.has other)
  is_object_at_eq : ∀ {other}, ¬ path <+: other → db'.is_object_at other = db.is_object_at other
  node_eq : ∀ {other}, ¬ path <+: other → ¬ other <+: path → db'.node other = db.node other
  index_get_eq : ∀ entity id, db'.index_get entity id = (db.index_get entity id).map (Ptr.release path)

theorem index_get_release (db : Db) (path : Path) (entity : Entity) (id : String) :
    (db.release path).index_get entity id = (db.index_get entity id).map (Ptr.release path) :=
  assoc.lookup_map_value (Ptr.release path) (db.index entity) id

private theorem writes_update_at {f : Json → Json} {key : String}
    (hobject : ∀ j, (f j).is_object = j.is_object)
    (hget : ∀ j other, j.is_object = true → other ≠ key → (f j).object_get other = j.object_get other) {path : Path} (hpath : db.is_object_at path = true) :
    Writes (path ++ [key]) db
      { db.release (path ++ [key]) with domains := db.domains.map (update_at f path) } := by
  obtain ⟨members, hnode⟩ := (is_object_at_iff db path).mp hpath
  cases hroot : db.domains with
  | none => simp [node, hroot] at hnode
  | some root =>
    simp only [node, hroot, bind_some] at hnode
    -- the node at another path, when the path of the object leads to it
    have hbelow : ∀ rest, (update_at f path root).node_at (path ++ rest) =
        (f (.object members)).node_at rest := by
      intro rest
      rw [node_at_update_at_append, hnode]
      rfl
    have hold : ∀ rest, root.node_at (path ++ rest) = (Json.object members).node_at rest := by
      intro rest
      rw [node_at_append, hnode]
      rfl
    have hother : ∀ rest, ¬ path ++ [key] <+: path ++ rest → rest ≠ [] →
        (f (.object members)).node_at rest = (Json.object members).node_at rest := by
      intro rest hnot hrest
      cases rest with
      | nil => exact absurd rfl hrest
      | cons first rest =>
        have hne : first ≠ key := by
          rintro rfl
          exact hnot ((prefix_append_right_inj path).mpr (by simp))
        simp only [node_at, hget (.object members) first rfl hne]
    refine ⟨?_, ?_, ?_, fun entity id => index_get_release db _ entity id⟩
    · intro other hnot
      simp only [has, node, hroot, map_some, bind_some]
      by_cases hpre : path <+: other
      · obtain ⟨rest, rfl⟩ := hpre
        rw [hbelow, hold]
        by_cases hrest : rest = []
        · simp [hrest, node_at]
        · rw [hother rest hnot hrest]
      · rw [node_at_update_at_isSome f hpre]
    · intro other hnot
      simp only [is_object_at, node, hroot, map_some, bind_some]
      by_cases hpre : path <+: other
      · obtain ⟨rest, rfl⟩ := hpre
        rw [hbelow, hold]
        by_cases hrest : rest = []
        · simp [hrest, node_at, hobject]
        · rw [hother rest hnot hrest]
      rw [node_at_update_at_of_not_below f hpre]
      cases root.node_at other with
      | none => rfl
      | some child =>
        by_cases hup : other <+: path
        · simp [hup, is_object_update_at hobject]
        · simp [hup]
    intro other hnot hup
    simp only [node, hroot, map_some, bind_some]
    by_cases hpre : path <+: other
    · obtain ⟨rest, rfl⟩ := hpre
      have hrest : rest ≠ [] := by
        rintro rfl
        exact hup (by simp)
      rw [hbelow, hold, hother rest hnot hrest]
    have hup' : ¬ other <+: path := fun h => hup (h.trans (prefix_append _ _))
    rw [node_at_update_at_of_not_below f hpre]
    simp [hup']

theorem writes_object_set {path : Path} (h : db.is_object_at path = true) (key : String)
    (value : Json) : Writes (path ++ [key]) db (db.object_set path key value).2 := by
  rw [object_set_of_object h]
  refine writes_update_at (fun j => is_object_object_put j key value) ?_ h
  intro j other hobject hne
  rw [object_get_object_put hobject, if_neg hne]

theorem writes_object_del {path : Path} (h : db.is_object_at path = true) (key : String) :
    Writes (path ++ [key]) db (db.object_del path key).2 := by
  rw [object_del_of_object h]
  refine writes_update_at (fun j => is_object_object_erase j key) ?_ h
  intro j other hobject hne
  rw [object_get_object_erase, if_neg hne]

theorem has_object_set_iff (db : Db) {path other : Path} {key : String} (value : Json)
    (h : ¬ path ++ [key] <+: other) : (db.object_set path key value).2.has other ↔ db.has other := by
  cases hobject : db.is_object_at path with
  | false => rw [object_set_of_not_object hobject]
  | true => exact (writes_object_set hobject key value).has_iff h

theorem node_object_set_below {path : Path} (h : db.is_object_at path = true) (key : String)
    (value : Json) (rest : Path) :
    (db.object_set path key value).2.node (path ++ key :: rest) = value.node_at rest := by
  obtain ⟨members, hnode⟩ := (is_object_at_iff db path).mp h
  rw [object_set_of_object h]
  cases hroot : db.domains with
  | none => simp [node, hroot] at hnode
  | some root =>
    simp only [node, hroot, bind_some] at hnode
    simp only [node, map_some, bind_some]
    rw [node_at_update_at_append, hnode]
    simp [node_at, object_get_object_put (j := .object members) rfl]

theorem not_has_object_del_below {path : Path} (h : db.is_object_at path = true) (key : String)
    (rest : Path) : ¬ (db.object_del path key).2.has (path ++ key :: rest) := by
  obtain ⟨members, hnode⟩ := (is_object_at_iff db path).mp h
  rw [object_del_of_object h]
  cases hroot : db.domains with
  | none => simp [node, hroot] at hnode
  | some root =>
    simp only [node, hroot, bind_some] at hnode
    simp only [has, node, map_some, bind_some]
    rw [node_at_update_at_append, hnode]
    simp [node_at, object_get_object_erase]

@[simp] theorem node_index_set (db : Db) (entity : Entity) (id : String) (ptr : Ptr) (path : Path) :
    (db.index_set entity id ptr).node path = db.node path := rfl

@[simp] theorem node_index_del (db : Db) (entity : Entity) (id : String) (path : Path) :
    (db.index_del entity id).node path = db.node path := rfl

theorem index_get_index_set (db : Db) (entity : Entity) (id : String) (ptr : Ptr) (other : Entity)
    (other_id : String) :
    (db.index_set entity id ptr).index_get other other_id =
      if other = entity ∧ other_id = id then some ptr else db.index_get other other_id := by
  unfold index_get index_set
  by_cases hother : other = entity
  · subst hother
    simp [assoc.lookup_put]
  · simp [hother]

theorem index_get_index_del (db : Db) (entity : Entity) (id : String) (other : Entity) (other_id : String) :
    (db.index_del entity id).index_get other other_id =
      if other = entity ∧ other_id = id then none else db.index_get other other_id := by
  unfold index_get index_del
  by_cases hother : other = entity
  · subst hother
    simp [assoc.lookup_erase]
  · simp [hother]

end Db

/-- Users, roles and loops: the entities that sit inside a domain or project. -/
def Entity.is_item : Entity → Bool
  | .user | .role | .loop => true
  | _ => false

/-- The path leads to a domain or to a project. -/
inductive IsScope : Path → Prop where
  | domain (domain : String) : IsScope [domain]
  | project (domain project : String) : IsScope [domain, "projects", project]

/-- The places of an entity in the tree. -/
inductive IsPlace : Entity → String → Path → Prop where
  | domain (id : String) : IsPlace .domain id [id]
  | project (domain id : String) : IsPlace .project id [domain, "projects", id]
  | item {entity : Entity} {scope : Path} (hitem : entity.is_item = true) (hscope : IsScope scope) (id : String) :
      IsPlace entity id (scope ++ [entity.container, id])

/-- An entity is in the tree at one of its places. -/
def Sits (db : Db) (entity : Entity) (id : String) (path : Path) : Prop :=
  IsPlace entity id path ∧ db.has path

variable {entity : Entity}

theorem IsPlace.eq_dropLast_append {id : String} {path : Path} (h : IsPlace entity id path) :
    path = path.dropLast ++ [id] := by
  cases h with
  | domain => rfl
  | project => rfl
  | item hitem hscope => simp

theorem IsPlace.isScope {id : String} {path : Path} (h : IsPlace entity id path)
    (hscope : entity.is_item = false) : IsScope path := by
  cases h with
  | domain id => exact .domain id
  | project domain id => exact .project domain id
  | item hitem => simp [hitem] at hscope

theorem IsPlace.unique {other : Entity} {id other_id : String} {path : Path}
    (h : IsPlace entity id path) (hother : IsPlace other other_id path) : entity = other ∧ id = other_id := by
  have hid : id = other_id := by
    have hlast := h.eq_dropLast_append.symm.trans hother.eq_dropLast_append
    simpa using hlast
  refine ⟨?_, hid⟩
  generalize hsame : path = path' at hother
  cases h with
  | domain =>
    cases hother with
    | domain => rfl
    | project => simp at hsame
    | item _ hscope => cases hscope <;> simp at hsame
  | project =>
    cases hother with
    | domain => simp at hsame
    | project => rfl
    | item hitem hscope => cases hscope <;> cases other <;> simp_all [container, is_item]
  | item hitem hscope =>
    cases hother with
    | domain => cases hscope <;> simp at hsame
    | project => cases hscope <;> cases entity <;> simp_all [container, is_item]
    | item hitem' hscope' =>
      cases hscope <;> cases hscope' <;> cases entity <;> cases other <;>
        simp_all [container, is_item]

theorem IsPlace.eq_of_below {other : Entity} {id other_id : String} {path below : Path}
    (h : IsPlace entity id path) (hitem : entity.is_item = true) (hbelow : IsPlace other other_id below)
    (hpre : path <+: below) : below = path := by
  cases h with
  | domain => simp [is_item] at hitem
  | project => simp [is_item] at hitem
  | item _ hscope id =>
    cases hscope <;> cases hbelow with
    | domain => simp [cons_prefix_cons] at hpre
    | project =>
      cases entity <;> simp_all [cons_prefix_cons, container, is_item]
    | item hother hscope' id' =>
      cases hscope' <;> cases entity <;> cases other <;>
        simp_all [cons_prefix_cons, container, is_item]

end openvocs.vocs_db
