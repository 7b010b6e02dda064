import Openvocs.VocsDb.Content

open List Option

namespace openvocs.vocs_db

open Db Entity

section Prune

variable {db mid : Db} {path : Path} {key : String} {ok : Bool} {gone : Entity → String → Prop}

private theorem not_gone_of_not_object (hun : UnindexedBelow (path ++ [key]) ok gone db mid)
    (hobject : mid.is_object_at path = false) (entity : Entity) (id : String) : ¬ gone entity id := by
  intro hgone
  obtain ⟨place, hsits, hbelow⟩ := hun.below hgone
  have hhas := has_of_below hbelow hsits.2
  have hmid : mid.has (path ++ [key]) := by
    rw [has, node_of_domains_eq hun.unindexed.domains_eq]
    exact hhas
  rw [is_object_at_of_has _ hmid] at hobject
  cases hobject

private theorem not_sits_object_del (hobject : mid.is_object_at path = true) {entity : Entity} {id : String}
    {place : Path} (hbelow : path ++ [key] <+: place) : ¬ Sits (mid.object_del path key).2 entity id place := by
  rintro ⟨_, hhas⟩
  obtain ⟨rest, rfl⟩ := hbelow
  refine not_has_object_del_below hobject key rest ?_
  simpa using hhas

theorem Covered.prune (h : Covered db) (hun : UnindexedBelow (path ++ [key]) ok gone db mid) :
    Covered (mid.object_del path key).2 := by
  cases hobject : mid.is_object_at path with
  | false =>
    rw [object_del_of_not_object hobject]
    intro entity id place hid hsits
    rw [hun.unindexed.kept (not_gone_of_not_object hun hobject entity id)]
    exact h entity id place hid (hsits.of_domains_eq hun.unindexed.domains_eq.symm)
  | true =>
    refine h.replace hun.unindexed (writes_object_del hobject key) (Reindexed.refl _) ?_ ?_ ?_ ?_
    · exact fun entity id _ hgone => hun.below hgone
    · exact fun entity id place _ hsits hbelow => not_sits_object_del hobject hbelow hsits
    · exact fun _ _ _ _ hadded => hadded.elim
    · exact fun _ _ _ _ _ hadded => hadded.elim

theorem Settled.prune (h : Settled db) (hun : UnindexedBelow (path ++ [key]) true gone db mid) :
    Settled (mid.object_del path key).2 := by
  cases hobject : mid.is_object_at path with
  | false =>
    rw [object_del_of_not_object hobject]
    intro entity id ptr hget
    rw [hun.unindexed.kept (not_gone_of_not_object hun hobject entity id)] at hget
    obtain ⟨place, rfl, hsits⟩ := h entity id ptr hget
    exact ⟨place, rfl, hsits.of_domains_eq hun.unindexed.domains_eq⟩
  | true =>
    refine h.replace hun.unindexed (writes_object_del hobject key) (Reindexed.refl _) ?_ ?_
    · intro entity id place hget hbelow
      obtain ⟨_, hsame, hsits⟩ := h entity id _ hget
      cases hsame
      exact hun.all rfl hsits hbelow
    · exact fun _ _ _ hadded => hadded.elim

theorem Consistent.prune (h : Consistent db) (hun : UnindexedBelow (path ++ [key]) true gone db mid) :
    Consistent (mid.object_del path key).2 := by
  obtain ⟨hcovered, hsettled⟩ := (consistent_iff db).mp h
  exact (consistent_iff _).mpr ⟨hcovered.prune hun, hsettled.prune hun⟩

end Prune

theorem not_consistent_of_dangling {db : Db} (entity : Entity) (id : String)
    (h : db.index_get entity id = some .dangling) : ¬ Consistent db := by
  intro hdb
  obtain ⟨path, hsame, _⟩ := hdb.settled entity id _ h
  cases hsame

variable {entity : Entity}

theorem Db.Writes.dangling {db db' : Db} {path : Path} (h : Db.Writes path db db')
    {id : String} (hget : db.index_get entity id = some .dangling) :
    db'.index_get entity id = some .dangling := by
  rw [h.index_get_eq, hget]
  rfl

theorem dangling_object_del {db : Db} {id : String}
    (hget : db.index_get entity id = some .dangling) (path : Path) (key : String) :
    (db.object_del path key).2.index_get entity id = some .dangling := by
  cases hobject : db.is_object_at path with
  | false => rw [object_del_of_not_object hobject, hget]
  | true => exact (writes_object_del hobject key).dangling hget

theorem dangling_of_kept {db mid : Db} {path : Path} {key : String} {ok : Bool} {gone : Entity → String → Prop}
    (hun : UnindexedBelow (path ++ [key]) ok gone db mid) {id : String} {place : Path}
    (hget : db.index_get entity id = some (.node place)) (hhas : db.has place) (hbelow : path ++ [key] <+: place)
    (hkept : ¬ gone entity id) : (mid.object_del path key).2.index_get entity id = some .dangling := by
  have hobject : mid.is_object_at path = true := by
    refine is_object_at_of_has key ?_
    rw [has, node_of_domains_eq hun.unindexed.domains_eq]
    exact has_of_below hbelow hhas
  rw [(writes_object_del hobject key).index_get_eq, hun.unindexed.kept hkept, hget]
  exact congrArg some (Ptr.release_of_below hbelow)

/-- Two databases with the same entities and the same index. -/
structure SameEntities (db db' : Db) : Prop where
  sits_iff : ∀ {entity id path}, Sits db' entity id path ↔ Sits db entity id path
  index_get_eq : ∀ {entity id}, db'.index_get entity id = db.index_get entity id

theorem SameEntities.covered {db db' : Db} (h : SameEntities db db') (hdb : Covered db) : Covered db' := by
  intro entity id path hid hsits
  rw [h.index_get_eq]
  exact hdb entity id path hid (h.sits_iff.mp hsits)

theorem SameEntities.settled {db db' : Db} (h : SameEntities db db') (hdb : Settled db) : Settled db' := by
  intro entity id ptr hget
  rw [h.index_get_eq] at hget
  obtain ⟨path, hptr, hsits⟩ := hdb entity id ptr hget
  exact ⟨path, hptr, h.sits_iff.mpr hsits⟩

theorem IsPlace.ne_nil {id : String} {path : Path} (h : IsPlace entity id path) : path ≠ [] := by
  rintro rfl
  have hodd := h.length_odd
  simp at hodd

section Create

variable {db mid : Db} {entity : Entity} {id : String} {scope : Scope} {scope_id : String} {parent : Path}

theorem same_entities_domains_created (db : Db) :
    SameEntities db { db with domains := some (db.domains.getD (.object [])) } := by
  refine ⟨?_, rfl⟩
  intro entity id path
  cases hdomains : db.domains with
  | some root => simp [Sits, has, Db.node, hdomains]
  | none =>
    have hnone : ∀ path, path ≠ [] → ¬ has { db with domains := some (.object []) } path := by
      intro path hne
      cases path with
      | nil => exact absurd rfl hne
      | cons first rest => simp [has, Db.node, Json.node_at, Json.object_get]
    constructor
    · rintro ⟨hplace, hhas⟩
      exact absurd hhas (hnone path hplace.ne_nil)
    rintro ⟨_, hhas⟩
    simp [has, Db.node, hdomains] at hhas

theorem same_entities_content_created (hplaced : Placed db) {data : Path} (hdata : IsScope data) (key : String) :
    SameEntities db (get_create_content data key db).2 := by
  rcases get_create_content_cases db data key with ⟨_, heq⟩ | ⟨hnone, heq⟩
  · rw [heq]
    exact ⟨Iff.rfl, rfl⟩
  rw [heq]
  cases hobject : db.is_object_at data with
  | false =>
    rw [object_set_of_not_object hobject]
    exact ⟨Iff.rfl, rfl⟩
  | true =>
    have hwrites := writes_object_set hobject key (.object [])
    refine ⟨?_, ?_⟩
    · intro entity id path
      by_cases hbelow : data ++ [key] <+: path
      · constructor
        · rintro ⟨hplace, hhas⟩
          rw [has_object_set_empty hobject hbelow hhas] at hplace
          exact absurd hplace (hdata.not_place key)
        rintro ⟨_, hhas⟩
        exact absurd (has_of_below hbelow hhas) hnone
      · simp only [Sits, hwrites.has_iff hbelow]
    intro entity id
    rw [hwrites.index_get_eq]
    cases hget : db.index_get entity id with
    | none => rfl
    | some ptr =>
      cases hplaced entity id ptr hget with
      | node hsits =>
        have hbelow : ¬ data ++ [key] <+: _ := fun hbelow => hnone (has_of_below hbelow hsits.2)
        simp [Ptr.release_of_not_below hbelow]
      | loose value huser => rfl
      | dangling => rfl

theorem same_entities_get_parent (hplaced : Placed db)
    (hparent : get_parent entity scope scope_id db = some (some parent, mid)) : SameEntities db mid := by
  rcases get_parent_eq_some hparent with ⟨_, _, rfl⟩ | ⟨_, _, data, hnode, _, hcreate⟩
  · exact same_entities_domains_created db
  have hsame := same_entities_content_created hplaced (hplaced.isScope_of_scope_node hnode).1 entity.container
  rw [hcreate] at hsame
  exact hsame

theorem sits_new_entity (hobject : mid.is_object_at parent = true) (hplace : IsPlace entity id (parent ++ [id]))
    {other : Entity} {other_id : String} {path : Path} (hbelow : parent ++ [id] <+: path)
    (hsits : Sits (mid.object_set parent id (new_entity id)).2 other other_id path) :
    path = parent ++ [id] ∧ other = entity ∧ other_id = id := by
  have hpath : path = parent ++ [id] := by
    obtain ⟨rest, rfl⟩ := hbelow
    obtain ⟨hother, hhas⟩ := hsits
    have hodd := hother.length_odd
    have hodd' := hplace.length_odd
    rw [append_assoc, singleton_append, has, node_object_set_below hobject] at hhas
    cases rest with
    | nil => simp
    | cons first rest =>
      -- the member `id` is the only one, at an even depth
      have hrest : rest = [] := by
        cases rest with
        | nil => rfl
        | cons second rest =>
          by_cases hfirst : first = "id"
          · simp [Json.node_at, new_entity, Json.object_get, hfirst] at hhas
          · simp [Json.node_at, new_entity, Json.object_get, assoc.lookup_cons_eq, hfirst] at hhas
      subst hrest
      simp only [length_append, length_cons, length_nil] at hodd hodd'
      omega
  subst hpath
  obtain ⟨hentity, hid⟩ := hsits.1.unique hplace
  exact ⟨rfl, hentity, hid⟩

theorem create_indexed (hcovered : Covered mid) (hfree : mid.index_get entity id = none)
    (hadmin : ¬ is_admin_role entity id)
    (hobject : mid.is_object_at parent = true) (hplace : IsPlace entity id (parent ++ [id])) :
    Covered ((mid.object_set parent id (new_entity id)).2.index_set entity id (.node (parent ++ [id]))) ∧
    (Settled mid →
      Settled ((mid.object_set parent id (new_entity id)).2.index_set entity id (.node (parent ++ [id])))) := by
  have hwrites := writes_object_set hobject id (new_entity id)
  have hre := reindexed_index_set (mid.object_set parent id (new_entity id)).2 entity id (parent ++ [id])
  have hnew : Sits (mid.object_set parent id (new_entity id)).2 entity id (parent ++ [id]) := by
    refine ⟨hplace, ?_⟩
    rw [has, node_object_set_below hobject]
    rfl
  have hnone : ∀ {path}, ¬ Sits mid entity id path := by
    intro path hsits
    rw [hcovered entity id path hadmin hsits] at hfree
    cases hfree
  constructor
  · refine hcovered.replace (Unindexed.refl mid) hwrites hre (fun _ _ _ h => h.elim) ?_ ?_ ?_
    · intro other other_id path _ hsits hbelow
      obtain ⟨hpath, hother, hid⟩ := sits_new_entity hobject hplace hbelow hsits
      exact ⟨hother, hid, hpath⟩
    · rintro other other_id path _ ⟨rfl, rfl, rfl⟩ place hsits
      exact absurd hsits hnone
    rintro other other_id path path' _ ⟨_, _, rfl⟩ ⟨_, _, rfl⟩
    rfl
  intro hsettled
  refine hsettled.replace (Unindexed.refl mid) hwrites hre ?_ ?_
  · intro other other_id path hget hbelow
    obtain ⟨_, hsame, hsits⟩ := hsettled other other_id _ hget
    cases hsame
    exact hnone ⟨hplace, has_of_below hbelow hsits.2⟩
  rintro other other_id path ⟨rfl, rfl, rfl⟩
  exact hnew

theorem create_admin_role (hadmin : is_admin_role entity id) (hobject : mid.is_object_at parent = true)
    (hplace : IsPlace entity id (parent ++ [id])) :
    (Covered mid → Covered (mid.object_set parent id (new_entity id)).2) ∧
    (Settled mid → mid.index_get .role "admin" ≠ some (.node (parent ++ [id])) →
      Settled (mid.object_set parent id (new_entity id)).2) := by
  have hwrites := writes_object_set hobject id (new_entity id)
  obtain ⟨rfl, rfl⟩ := hadmin
  constructor
  · intro hcovered
    refine hcovered.writes hwrites ?_
    intro other other_id path hid hbelow hsits
    obtain ⟨_, hother, hother_id⟩ := sits_new_entity hobject hplace hbelow hsits
    exact hid ⟨hother, hother_id⟩
  intro hsettled hother
  refine hsettled.writes hwrites ?_
  intro entity id path hbelow hget
  obtain ⟨_, hsame, hsits⟩ := hsettled entity id _ hget
  cases hsame
  obtain rfl := hplace.eq_of_below rfl hsits.1 hbelow
  obtain ⟨rfl, rfl⟩ := hsits.1.unique hplace
  exact hother hget

theorem Covered.create_entity {ok : Bool} {db' : Db} (h : Covered db) (hplaced : Placed db)
    (hstep : create_entity entity id scope scope_id db = some (ok, db')) : Covered db' := by
  rcases create_entity_cases hstep with ⟨_, rfl⟩ | ⟨hfree, parent, mid, hparent, hset⟩
  · exact h
  have hsame := same_entities_get_parent hplaced hparent
  have hplace := hplaced.isPlace_of_get_parent hparent id
  rcases hset with ⟨_, _, rfl⟩ | ⟨_, hobject, rfl⟩
  · exact hsame.covered h
  by_cases hadmin : is_admin_role entity id
  · rw [if_pos hadmin]
    exact (create_admin_role hadmin hobject hplace).1 (hsame.covered h)
  rw [if_neg hadmin]
  refine (create_indexed (hsame.covered h) ?_ hadmin hobject hplace).1
  rw [hsame.index_get_eq]
  exact hfree.resolve_left hadmin

theorem scope_node_isSome (h : Settled db) (scope : Scope) (scope_id : String) :
    (scope_node scope scope_id db).isSome = true := by
  cases scope with
  | domain => rfl
  | project =>
    unfold scope_node
    cases hget : db.index_get .project scope_id with
    | none => rfl
    | some ptr =>
      obtain ⟨path, rfl, _⟩ := h .project scope_id ptr hget
      rfl

theorem create_entity_isSome (h : Settled db) (entity : Entity) (id : String) (scope : Scope) (scope_id : String) :
    (create_entity entity id scope scope_id db).isSome = true := by
  have hparent : (get_parent entity scope scope_id db).isSome = true := by
    unfold get_parent
    split
    · split <;> rfl
    obtain ⟨data, hdata⟩ := isSome_iff_exists.mp (scope_node_isSome h scope scope_id)
    rw [hdata]
    cases data with
    | none => rfl
    | some data =>
      simp only
      split <;> rfl
  obtain ⟨⟨parent, mid⟩, hparent⟩ := isSome_iff_exists.mp hparent
  unfold create_entity
  split
  · rfl
  rw [hparent]
  cases parent with
  | none => rfl
  | some parent =>
    simp only
    split
    · rfl
    · split <;> rfl

theorem create_admin_over_indexed (h : Settled db) {data : Path}
    (hnode : scope_node scope scope_id db = some (some data))
    (hget : db.index_get .role "admin" = some (.node (data ++ ["roles", "admin"]))) :
    ∃ db', create_entity .role "admin" scope scope_id db = some (true, db') ∧
      db'.index_get .role "admin" = some .dangling := by
  obtain ⟨_, hsame, hsits⟩ := h .role "admin" _ hget
  cases hsame
  have happend : data ++ ["roles", "admin"] = data ++ ["roles"] ++ ["admin"] := by simp
  have hhas : db.has (data ++ ["roles"] ++ ["admin"]) := happend ▸ hsits.2
  have hobject : db.is_object_at (data ++ ["roles"]) = true := is_object_at_of_has _ hhas
  have hcontent : get_create_content data "roles" db = (true, db) := by
    rcases get_create_content_cases db data "roles" with ⟨_, heq⟩ | ⟨hnone, _⟩
    · exact heq
    · exact absurd (has_of_has_append _ hhas) hnone
  have hparent : get_parent .role scope scope_id db = some (some (data ++ ["roles"]), db) := by
    simp [get_parent, hnode, get_create_parent_eq, hcontent, container]
  refine ⟨(db.object_set (data ++ ["roles"]) "admin" (new_entity "admin")).2, ?_, ?_⟩
  · simp [create_entity, hparent, is_admin_role, object_set_of_object hobject]
  rw [(writes_object_set hobject "admin" (new_entity "admin")).index_get_eq, hget, happend]
  exact congrArg some (Ptr.release_of_below prefix_rfl)

theorem create_entity_consistent_iff (h : Consistent db) :
    (∃ ok db', create_entity entity id scope scope_id db = some (ok, db') ∧ Consistent db') ↔
      (is_admin_role entity id → ∀ data, scope_node scope scope_id db = some (some data) →
        db.index_get .role "admin" ≠ some (.node (data ++ ["roles", "admin"]))) := by
  obtain ⟨hcovered, hsettled⟩ := (consistent_iff db).mp h
  have hplaced := hsettled.placed
  constructor
  · rintro ⟨ok, db', hstep, hdb'⟩ ⟨rfl, rfl⟩ data hnode hget
    obtain ⟨freed, hcreate, hdangling⟩ := create_admin_over_indexed hsettled hnode hget
    rw [hcreate] at hstep
    cases hstep
    exact not_consistent_of_dangling _ _ hdangling hdb'
  intro hadmissible
  obtain ⟨⟨ok, db'⟩, hstep⟩ := isSome_iff_exists.mp (create_entity_isSome hsettled entity id scope scope_id)
  refine ⟨ok, db', hstep, (consistent_iff db').mpr ⟨hcovered.create_entity hplaced hstep, ?_⟩⟩
  rcases create_entity_cases hstep with ⟨_, rfl⟩ | ⟨hfree, parent, mid, hparent, hset⟩
  · exact hsettled
  have hsame := same_entities_get_parent hplaced hparent
  have hplace := hplaced.isPlace_of_get_parent hparent id
  rcases hset with ⟨_, _, rfl⟩ | ⟨_, hobject, rfl⟩
  · exact hsame.settled hsettled
  by_cases hadmin : is_admin_role entity id
  · rw [if_pos hadmin]
    refine (create_admin_role hadmin hobject hplace).2 (hsame.settled hsettled) ?_
    rw [hsame.index_get_eq]
    obtain ⟨rfl, rfl⟩ := hadmin
    rcases get_parent_eq_some hparent with ⟨hdomain, _⟩ | ⟨_, _, data, hnode, rfl, _⟩
    · cases hdomain
    · simpa [container] using hadmissible ⟨rfl, rfl⟩ data hnode
  rw [if_neg hadmin]
  refine (create_indexed (hsame.covered hcovered) ?_ hadmin hobject hplace).2 (hsame.settled hsettled)
  rw [hsame.index_get_eq]
  exact hfree.resolve_left hadmin

end Create

section Delete

variable {db : Db} {entity : Entity} {id : String}

theorem delete_in_parents_spec (parent : Entity) (item : String) (P : Db → Prop)
    (hkeep : ∀ {key path key' path'}, IsPlace parent key path → IsPlace parent key' path' →
      ¬ path ++ [item] ++ [id] <+: path')
    (hstep : ∀ db key path, P db → Sits db parent key path → P (db.object_del (path ++ [item]) id).2)
    (h : Settled db) (hP : P db) :
    ∃ ok db', delete_in_parents parent item id db = some (ok, db') ∧ P db' := by
  have hwalk : ∀ (entries : List (String × Ptr)) (db : Db), P db →
      (∀ entry ∈ entries, ∃ path, entry.2 = .node path ∧ Sits db parent entry.1 path) →
      ∃ ok db', assoc.walk (delete_in_parent parent item id) entries db = some (ok, db') ∧ P db' := by
    intro entries
    induction entries with
    | nil => exact fun db hP _ => ⟨true, db, rfl, hP⟩
    | cons entry rest ih =>
      intro db hP hentries
      obtain ⟨key, ptr⟩ := entry
      obtain ⟨path, hptr, hsits⟩ := hentries (key, ptr) mem_cons_self
      obtain rfl : ptr = .node path := hptr
      obtain ⟨v, hv⟩ := isSome_iff_exists.mp hsits.2
      have hrest := fun entry hmem => hentries entry (mem_cons_of_mem _ hmem)
      cases hitem : v.object_get item with
      | none =>
        obtain ⟨ok, db', hrestwalk, hdb'⟩ := ih db hP hrest
        exact ⟨ok, db', by simp [assoc.walk, delete_in_parent, Db.read, hv, hitem, hrestwalk], hdb'⟩
      | some content =>
        have hdelete : delete_in_parent parent item id key (.node path) db =
            some (db.object_del (path ++ [item]) id) := by
          simp [delete_in_parent, Db.read, hv, hitem]
        have hnext := hstep db key path hP hsits
        cases hobject : db.is_object_at (path ++ [item]) with
        | false =>
          rw [object_del_of_not_object hobject] at hdelete
          exact ⟨false, db, by simp [assoc.walk, hdelete], hP⟩
        | true =>
          obtain ⟨ok, db', hrestwalk, hdb'⟩ := ih _ hnext (by
            intro entry hmem
            obtain ⟨path', hptr', hsits'⟩ := hrest entry hmem
            refine ⟨path', hptr', hsits'.1, ?_⟩
            exact ((writes_object_del hobject id).has_iff (hkeep hsits.1 hsits'.1)).mpr hsits'.2)
          have hok : db.object_del (path ++ [item]) id = (true, (db.object_del (path ++ [item]) id).2) := by
            rw [object_del_of_object hobject]
          rw [hok] at hdelete
          exact ⟨ok, db', by simp [assoc.walk, hdelete, hrestwalk], hdb'⟩
  refine hwalk (db.index_entries parent) db hP ?_
  rintro ⟨key, ptr⟩ hmem
  exact h parent key ptr ((assoc.mem_entries_iff _ _ _).mp hmem)

theorem index_get_none_object_del (h : db.index_get entity id = none) (path : Path) (key : String) :
    (db.object_del path key).2.index_get entity id = none := by
  cases hobject : db.is_object_at path with
  | false => rw [object_del_of_not_object hobject, h]
  | true =>
    rw [(writes_object_del hobject key).index_get_eq, h]
    rfl

theorem Consistent.object_del (h : Consistent db) {path : Path} {key : String}
    (hnone : ∀ entity id place, path ++ [key] <+: place → db.index_get entity id ≠ some (.node place)) :
    Consistent (db.object_del path key).2 := by
  obtain ⟨hcovered, hsettled⟩ := (consistent_iff db).mp h
  refine (consistent_iff _).mpr ⟨hcovered.object_del path key, ?_⟩
  cases hobject : db.is_object_at path with
  | false => simpa [object_del_of_not_object hobject] using hsettled
  | true => exact hsettled.writes (writes_object_del hobject key) hnone

/-- Consistent, and without an index entry for one id. -/
def ConsistentWithout (entity : Entity) (id : String) (db : Db) : Prop :=
  Consistent db ∧ db.index_get entity id = none

theorem ConsistentWithout.not_sits (h : ConsistentWithout entity id db) (hadmin : ¬ is_admin_role entity id)
    (path : Path) : ¬ Sits db entity id path := by
  intro hsits
  have hnone := h.2
  rw [(h.1.agree entity id hadmin path).mpr hsits] at hnone
  cases hnone

theorem ConsistentWithout.object_del {path : Path} (h : ConsistentWithout entity id db)
    (hplace : IsPlace entity id (path ++ [id])) : ConsistentWithout entity id (db.object_del path id).2 := by
  refine ⟨h.1.object_del ?_, index_get_none_object_del h.2 path id⟩
  intro other other_id place hbelow hget
  obtain ⟨_, hsame, hsits⟩ := h.1.settled other other_id _ hget
  cases hsame
  by_cases hitem : entity.is_item = true
  · obtain rfl := hplace.eq_of_below hitem hsits.1 hbelow
    obtain ⟨rfl, rfl⟩ := hsits.1.unique hplace
    rw [h.2] at hget
    cases hget
  have hadmin : ¬ is_admin_role entity id := by
    rintro ⟨rfl, _⟩
    exact hitem rfl
  exact h.not_sits hadmin _ ⟨hplace, has_of_below hbelow hsits.2⟩

theorem delete_references_consistent (h : ConsistentWithout entity id db) :
    ∃ ok db', delete_references entity id db = some (ok, db') ∧ Consistent db' := by
  have hscope : ∀ {parent key path}, IsPlace parent key path → parent.is_item = false → IsScope path :=
    fun hplace hitem => hplace.isScope hitem
  -- one walk over the domains or the projects, for the users, roles or loops of them
  have hitems : ∀ (parent : Entity) (db : Db), parent.is_item = false → entity.is_item = true →
      ConsistentWithout entity id db →
      ∃ ok db', delete_in_parents parent entity.container id db = some (ok, db') ∧
        ConsistentWithout entity id db' := by
    intro parent db hparent hentity hdb
    refine delete_in_parents_spec parent entity.container (ConsistentWithout entity id) ?_ ?_ hdb.1.settled hdb
    · intro key path key' path' hplace hplace' hpre
      have hlength := hpre.length_le
      cases parent with
      | domain =>
        cases hplace' with
        | domain => simp at hlength
        | item hitem => cases hitem
      | project =>
        cases hplace with
        | project =>
          cases hplace' with
          | project => simp at hlength
          | item hitem => cases hitem
        | item hitem => cases hitem
      | _ => cases hparent
    intro db key path hdb hsits
    refine hdb.object_del ?_
    simpa using IsPlace.item hentity (hscope hsits.1 hparent) id
  cases entity with
  | domain =>
    have hnone : db.node [id] = none := by
      cases hnode : db.node [id] with
      | none => rfl
      | some val =>
        refine absurd ⟨.domain id, ?_⟩ (h.not_sits (fun hadmin => by cases hadmin.1) [id])
        rw [has, hnode]
        rfl
    exact ⟨true, db, by simp [delete_references, unindex_domain, hnone], h.1⟩
  | project =>
    obtain ⟨ok, db', hwalk, hdb'⟩ := delete_in_parents_spec .domain "projects"
      (ConsistentWithout .project id) (by
        intro key path key' path' hplace hplace' hpre
        have hlength := hpre.length_le
        cases hplace' with
        | domain => simp at hlength
        | item hitem => cases hitem) (by
        intro db key path hdb hsits
        refine hdb.object_del ?_
        cases hsits.1 with
        | domain => exact .project key id
        | item hitem => cases hitem) h.1.settled h
    exact ⟨ok, db', hwalk, hdb'.1⟩
  | loop =>
    obtain ⟨ok, mid, hwalk, hmid⟩ := hitems .domain db rfl rfl h
    obtain ⟨ok', db', hwalk', hdb'⟩ := hitems .project mid rfl rfl hmid
    simp only [container] at hwalk hwalk'
    exact ⟨ok && ok', db', by simp [delete_references, hwalk, hwalk'], hdb'.1⟩
  | role =>
    obtain ⟨ok, mid, hwalk, hmid⟩ := hitems .domain db rfl rfl h
    obtain ⟨ok', db', hwalk', hdb'⟩ := hitems .project mid rfl rfl hmid
    simp only [container] at hwalk hwalk'
    exact ⟨ok && ok', db', by simp [delete_references, hwalk, hwalk'], hdb'.1⟩
  | user =>
    refine delete_in_parents_spec .role "users" Consistent ?_ ?_ h.1.settled h.1
    · intro key path key' path' hplace hplace' hpre
      cases hplace with
      | item _ hs =>
        cases hplace' with
        | item _ hs' =>
          cases hs <;> cases hs' <;> simp [cons_prefix_cons, container] at hpre
    intro db key path hdb hsits
    refine hdb.object_del ?_
    intro other other_id place hbelow hget
    obtain ⟨_, hsame, hplace⟩ := hdb.settled other other_id _ hget
    cases hsame
    have hrole : path <+: place := by
      refine List.IsPrefix.trans ?_ hbelow
      rw [append_assoc]
      exact prefix_append _ _
    have hpath := hsits.1.eq_of_below rfl hplace.1 hrole
    have hlength := hbelow.length_le
    rw [hpath] at hlength
    simp only [length_append, length_cons, length_nil] at hlength
    omega

theorem db_delete_of_unindexed (h : Consistent db) {path : Path} {ok : Bool} {mid : Db}
    {gone : Entity → String → Prop} (hget : db.index_get entity id = some (.node path))
    (hunindex : unindex_entity entity id db = some (ok, mid))
    (hun : UnindexedBelow path ok gone db mid) (hstays : ok = false → ¬ gone entity id) :
    ∃ result db', db_delete entity id db = some (result, db') ∧
      db'.node path = none ∧
      (ok = true → ConsistentWithout entity id db') ∧
      (ok = false → db'.index_get entity id = some .dangling) := by
  obtain ⟨_, hsame, hsits⟩ := h.settled entity id _ hget
  cases hsame
  have hlast := hsits.1.eq_dropLast_append
  have hself : path.dropLast ++ [id] <+: path := by
    refine ⟨[], ?_⟩
    rw [List.append_nil]
    exact hlast.symm
  refine ⟨ok && (mid.object_del path.dropLast id).1, (mid.object_del path.dropLast id).2, ?_, ?_, ?_, ?_⟩
  · simp only [db_delete, hget, hunindex]
  · have hobject : mid.is_object_at path.dropLast = true := by
      refine is_object_at_of_has id ?_
      rw [← hlast, has, node_of_domains_eq hun.unindexed.domains_eq]
      exact hsits.2
    have hgone := not_has_object_del_below hobject id []
    rw [← hlast] at hgone
    simpa [has] using hgone
  · rintro rfl
    rw [hlast] at hun
    refine ⟨h.prune hun, ?_⟩
    refine index_get_none_object_del (hun.unindexed.dropped ?_) _ _
    exact hun.all rfl hsits hself
  intro hbad
  rw [hlast] at hun
  exact dangling_of_kept hun hget hsits.2 hself (hstays hbad)

theorem unindex_item_spec (hitem : entity.is_item = true) {path : Path} (hsits : Sits db entity id path) :
    unindex_entity entity id db = some (true, db.index_del entity id) ∧
      UnindexedBelow path true (fun other other_id => other = entity ∧ other_id = id) db
        (db.index_del entity id) := by
  constructor
  · cases entity <;> first | rfl | cases hitem
  refine ⟨unindexed_index_del db entity id, ?_, ?_⟩
  · rintro other other_id ⟨rfl, rfl⟩
    exact ⟨path, hsits, prefix_rfl⟩
  intro _ other other_id place hother hbelow
  obtain rfl := hsits.1.eq_of_below hitem hother.1 hbelow
  exact hother.1.unique hsits.1

theorem db_delete_item (h : Consistent db) (hitem : entity.is_item = true) {path : Path}
    (hget : db.index_get entity id = some (.node path)) :
    ∃ result db', db_delete entity id db = some (result, db') ∧ ConsistentWithout entity id db' := by
  obtain ⟨_, hsame, hsits⟩ := h.settled entity id _ hget
  cases hsame
  obtain ⟨hunindex, hun⟩ := unindex_item_spec hitem hsits
  obtain ⟨result, db', hdelete, _, hok, _⟩ :=
    db_delete_of_unindexed h hget hunindex hun (fun hbad => by cases hbad)
  exact ⟨result, db', hdelete, hok rfl⟩

theorem delete_entity_of_db_delete {result : Bool} {mid : Db}
    (hdelete : db_delete entity id db = some (result, mid)) (hmid : ConsistentWithout entity id mid) :
    ∃ ok db', delete_entity entity id db = some (ok, db') ∧ Consistent db' := by
  obtain ⟨references, db', hrefs, hdb'⟩ := delete_references_consistent hmid
  exact ⟨result && references, db', by simp [delete_entity, hdelete, hrefs], hdb'⟩

theorem delete_entity_dangling {result : Bool} {mid : Db} (hitem : entity.is_item = false)
    (hdelete : db_delete entity id db = some (result, mid)) (hmid : mid.index_get entity id = some .dangling)
    (hnode : entity = .domain → mid.node [id] = none) :
    ¬ ∃ ok db', delete_entity entity id db = some (ok, db') ∧ Consistent db' := by
  rintro ⟨ok, db', hstep, hdb'⟩
  simp only [delete_entity, hdelete, bind_eq_bind, bind_some, bind_eq_some_iff] at hstep
  obtain ⟨⟨references, last⟩, hrefs, hlast⟩ := hstep
  cases hlast
  refine not_consistent_of_dangling entity id ?_ hdb'
  cases entity with
  | domain =>
    simp only [delete_references, unindex_domain, hnode rfl, some.injEq, Prod.mk.injEq] at hrefs
    exact hrefs.2 ▸ hmid
  | project =>
    refine assoc.walk_invariant (fun db => db.index_get .project id = some .dangling) _ ?_ hmid hrefs
    intro key ptr _ db ok next hdb hstep
    rcases delete_in_parent_cases hstep with rfl | ⟨path, _, rfl⟩ | ⟨value, value', _, rfl⟩
    · exact hdb
    · exact dangling_object_del hdb _ _
    rw [index_get_index_set, if_neg (fun hsame => by cases hsame.1)]
    exact hdb
  | _ => cases hitem

/-- The objects whose deletion takes all entities below them out of the index. -/
def delete_admissible (entity : Entity) (id : String) (db : Db) : Prop :=
  match entity with
  | .domain => ∀ val, db.node [id] = some val → domain_walkable val = true
  | .project => ∀ path val, db.index_get .project id = some (.node path) → db.node path = some val →
      scope_walkable val = true
  | _ => True

theorem delete_entity_consistent_iff (h : Consistent db) :
    (∃ ok db', delete_entity entity id db = some (ok, db') ∧ Consistent db') ↔
      delete_admissible entity id db := by
  cases hget : db.index_get entity id with
  | none =>
    have hdelete : db_delete entity id db = some (true, db) := by simp [db_delete, hget]
    refine iff_of_true (delete_entity_of_db_delete hdelete ⟨h, hget⟩) ?_
    cases entity with
    | domain =>
      intro val hnode
      have hsits : Sits db .domain id [id] := ⟨.domain id, by rw [has, hnode]; rfl⟩
      rw [(h.agree .domain id (fun hadmin => by cases hadmin.1) _).mpr hsits] at hget
      cases hget
    | project =>
      intro path val hsome
      rw [hget] at hsome
      cases hsome
    | _ => trivial
  | some ptr =>
    obtain ⟨path, rfl, hsits⟩ := h.settled entity id ptr hget
    by_cases hitem : entity.is_item = true
    · obtain ⟨result, mid, hdelete, hmid⟩ := db_delete_item h hitem hget
      refine iff_of_true (delete_entity_of_db_delete hdelete hmid) ?_
      cases entity <;> trivial
    obtain ⟨val, hnode⟩ := isSome_iff_exists.mp hsits.2
    have hcovered : ∀ domain project, db.has [domain, "projects", project] →
        db.index_get .project project = some (.node [domain, "projects", project]) :=
      fun domain project hhas =>
        (h.agree .project project (fun hadmin => by cases hadmin.1) _).mpr ⟨.project domain project, hhas⟩
    cases entity with
    | domain =>
      obtain rfl : path = [id] := by
        cases hsits.1 with
        | domain => rfl
        | item himpossible => cases himpossible
      obtain ⟨gone, mid, hunindex, hun, hstays⟩ := unindex_domain_spec hnode (hcovered id)
      obtain ⟨result, last, hdelete, hfreed, hok, hbad⟩ := db_delete_of_unindexed h hget hunindex hun hstays
      cases hwalk : domain_walkable val with
      | true =>
        refine iff_of_true (delete_entity_of_db_delete hdelete (hok hwalk)) ?_
        intro other hother
        rw [hnode] at hother
        cases hother
        exact hwalk
      | false =>
        refine iff_of_false (delete_entity_dangling rfl hdelete (hbad hwalk) (fun _ => hfreed)) ?_
        intro hadmissible
        rw [hadmissible val hnode] at hwalk
        cases hwalk
    | project =>
      obtain ⟨domain, rfl⟩ : ∃ domain, path = [domain, "projects", id] := by
        cases hsits.1 with
        | project domain => exact ⟨domain, rfl⟩
        | item himpossible => cases himpossible
      obtain ⟨gone, mid, hunindex, hun, hstays, _⟩ := unindex_project_spec hget hnode
      obtain ⟨result, last, hdelete, _, hok, hbad⟩ :=
        db_delete_of_unindexed h hget hunindex hun (fun hwalk => hstays hwalk id)
      cases hwalk : scope_walkable val with
      | true =>
        refine iff_of_true (delete_entity_of_db_delete hdelete (hok hwalk)) ?_
        intro other other_val hother hother_val
        rw [hget] at hother
        cases hother
        rw [hnode] at hother_val
        cases hother_val
        exact hwalk
      | false =>
        refine iff_of_false (delete_entity_dangling rfl hdelete (hbad hwalk) (fun hdomain => by cases hdomain)) ?_
        intro hadmissible
        rw [hadmissible _ val hget hnode] at hwalk
        cases hwalk
    | _ => exact absurd rfl hitem

end Delete

section DeleteKey

variable {db : Db} {entity : Entity} {id key : String}

theorem IsScope.key_of_place {path place : Path} (hpath : IsScope path) (hplace : IsPlace entity id place)
    (hbelow : path ++ [key] <+: place) :
    key = "users" ∨ key = "roles" ∨ key = "loops" ∨ (key = "projects" ∧ ∃ domain, path = [domain]) := by
  cases hpath <;> cases hplace with
  | domain => simp [cons_prefix_cons] at hbelow
  | project => simp_all [cons_prefix_cons]
  | item hitem hscope =>
    cases hscope <;> cases entity <;> simp_all [cons_prefix_cons, container, is_item]

theorem unindexedBelow_refl {path : Path} (ok : Bool)
    (hnone : ∀ {entity id place}, Sits db entity id place → ¬ path <+: place) :
    UnindexedBelow path ok (fun _ _ => False) db db :=
  ⟨Unindexed.refl db, fun h => h.elim, fun _ _ _ _ hsits hbelow => hnone hsits hbelow⟩

theorem unindexedBelow_content (db : Db) {path : Path} (kind : Entity) (hpath : IsScope path) (hkind : kind.is_item = true) :
    ∃ ok gone mid, (((db.node path).bind (fun node => node.object_get kind.container)).getD .null).object_for_each
        (unindex kind) db = some (ok, mid) ∧
      UnindexedBelow (path ++ [kind.container]) true gone db mid := by
  have hnode : (db.node path).bind (fun node => node.object_get kind.container) =
      db.node (path ++ [kind.container]) := by
    rw [node_append]
    simp only [Json.node_at_singleton]
  rw [hnode]
  obtain ⟨mid, hwalk, hun⟩ :=
    unindex_content kind (some ((db.node (path ++ [kind.container])).getD .null)) db
  have hgone : ∀ other id, (other = kind ∧ is_member (some ((db.node (path ++ [kind.container])).getD .null)) id) ↔
      (other = kind ∧ db.has (path ++ [kind.container] ++ [id])) := by
    intro other id
    rw [← is_member_node_iff]
    cases db.node (path ++ [kind.container]) with
    | none => simp [is_member, Json.object_get]
    | some content => simp
  refine ⟨_, _, mid, hwalk, hun.congr hgone, ?_, ?_⟩
  · rintro other id ⟨rfl, hhas⟩
    have happend : path ++ [other.container] ++ [id] = path ++ [other.container, id] := by simp
    rw [happend] at hhas
    exact ⟨_, (sits_below_content hpath hkind).mpr ⟨rfl, rfl, hhas⟩⟩
  intro _ other id place hsits hbelow
  obtain ⟨rfl, rfl, hhas⟩ := (sits_below_content hpath hkind).mp ⟨hsits, hbelow⟩
  refine ⟨rfl, ?_⟩
  simpa using hhas

theorem unindex_key_spec (h : Covered db) {path : Path} (hpath : IsScope path) (entity : Entity) (key : String)
    (hdomain : entity = .domain → ∃ domain, path = [domain]) (hproject : entity ≠ .domain → path.length = 3) :
    ∃ result ok gone mid,
      unindex_key entity key (((db.node path).bind (fun node => node.object_get key)).getD .null) db =
        some (result, mid) ∧
      UnindexedBelow (path ++ [key]) ok gone db mid ∧
      (ok = false ↔ entity = .domain ∧ key = "projects" ∧
        ∃ projects, db.node (path ++ ["projects"]) = some projects ∧ projects_walkable projects = false) ∧
      (ok = false → ∃ domain project, path = [domain] ∧ db.has [domain, "projects", project] ∧
        ¬ gone .project project) := by
  unfold unindex_key
  by_cases hprojects : key = "projects" ∧ entity = .domain
  · rw [if_pos hprojects]
    obtain ⟨rfl, rfl⟩ := hprojects
    obtain ⟨domain, rfl⟩ := hdomain rfl
    have hnode : (db.node [domain]).bind (fun node => node.object_get "projects") = db.node [domain, "projects"] := by
      rw [show [domain, "projects"] = [domain] ++ ["projects"] from rfl, node_append]
      simp only [Json.node_at_singleton]
    rw [hnode]
    cases hcontent : db.node [domain, "projects"] with
    | none =>
      refine ⟨false, true, _, db, rfl, unindexedBelow_refl true ?_, ?_, fun hbad => by cases hbad⟩
      · intro other id place hsits hbelow
        have hhas := has_of_below hbelow hsits.2
        simp [has, hcontent] at hhas
      · simp [hcontent]
    | some projects =>
      obtain ⟨gone, mid, hwalk, hun, hstays⟩ := unindex_projects_spec hcontent (fun project hhas =>
        h .project project _ (fun hadmin => by cases hadmin.1) ⟨.project domain project, hhas⟩)
      refine ⟨_, projects_walkable projects, gone, mid, hwalk, hun, by simp [hcontent], ?_⟩
      intro hbad
      obtain ⟨project, hhas, hkept⟩ := hstays hbad
      exact ⟨domain, project, rfl, hhas, hkept⟩
  rw [if_neg hprojects]
  have hiff : (true = false ↔ entity = .domain ∧ key = "projects" ∧
      ∃ projects, db.node (path ++ ["projects"]) = some projects ∧ projects_walkable projects = false) := by
    constructor
    · intro hbad
      cases hbad
    rintro ⟨hentity, hkey, _⟩
    exact absurd ⟨hkey, hentity⟩ hprojects
  by_cases husers : key = "users"
  · rw [if_pos husers]
    subst husers
    obtain ⟨ok, gone, mid, hwalk, hun⟩ := unindexedBelow_content db .user hpath rfl
    exact ⟨ok, true, gone, mid, hwalk, hun, hiff, fun hbad => by cases hbad⟩
  rw [if_neg husers]
  by_cases hroles : key = "roles"
  · rw [if_pos hroles]
    subst hroles
    obtain ⟨ok, gone, mid, hwalk, hun⟩ := unindexedBelow_content db .role hpath rfl
    exact ⟨ok, true, gone, mid, hwalk, hun, hiff, fun hbad => by cases hbad⟩
  rw [if_neg hroles]
  by_cases hloops : key = "loops"
  · rw [if_pos hloops]
    subst hloops
    obtain ⟨ok, gone, mid, hwalk, hun⟩ := unindexedBelow_content db .loop hpath rfl
    exact ⟨ok, true, gone, mid, hwalk, hun, hiff, fun hbad => by cases hbad⟩
  rw [if_neg hloops]
  refine ⟨true, true, _, db, rfl, unindexedBelow_refl true ?_, hiff, fun hbad => by cases hbad⟩
  intro other id place hsits hbelow
  rcases hpath.key_of_place hsits.1 hbelow with hkey | hkey | hkey | ⟨hkey, domain, rfl⟩
  · exact husers hkey
  · exact hroles hkey
  · exact hloops hkey
  by_cases hentity : entity = .domain
  · exact hprojects ⟨hkey, hentity⟩
  · simpa using hproject hentity

theorem delete_scope_key_consistent_iff {path : Path} (h : Consistent db) (hpath : IsScope path)
    (hdomain : entity = .domain → ∃ domain, path = [domain]) (hproject : entity ≠ .domain → path.length = 3) :
    (∃ ok db', delete_scope_key entity path key db = some (ok, db') ∧ Consistent db') ↔
      (entity = .domain → key = "projects" → ∀ projects, db.node (path ++ ["projects"]) = some projects →
        projects_walkable projects = true) := by
  obtain ⟨hcovered, hsettled⟩ := (consistent_iff db).mp h
  obtain ⟨result, ok, gone, mid, hunindex, hun, hiff, hstays⟩ :=
    unindex_key_spec hcovered hpath entity key hdomain hproject
  have hstep : delete_scope_key entity path key db =
      some (result && (mid.object_del path key).1, (mid.object_del path key).2) := by
    simp only [delete_scope_key, hunindex]
  rw [hstep]
  cases ok with
  | true =>
    refine iff_of_true ⟨_, _, rfl, h.prune hun⟩ ?_
    intro hentity hkey projects hprojects
    by_contra hbad
    have himpossible := hiff.mpr ⟨hentity, hkey, projects, hprojects, by simpa using hbad⟩
    cases himpossible
  | false =>
    obtain ⟨hentity, hkey, projects, hprojects, hbad⟩ := hiff.mp rfl
    refine iff_of_false ?_ ?_
    · rintro ⟨_, db', hsame, hdb'⟩
      cases hsame
      obtain ⟨domain, project, rfl, hhas, hkept⟩ := hstays rfl
      subst hkey
      refine not_consistent_of_dangling .project project ?_ hdb'
      refine dangling_of_kept hun (hcovered .project project _ (fun hadmin => by cases hadmin.1)
        ⟨.project domain project, hhas⟩) hhas ?_ hkept
      simp [cons_prefix_cons]
    intro hadmissible
    rw [hadmissible hentity hkey projects hprojects] at hbad
    cases hbad

theorem IsPlace.not_below_member {path place : Path} {other : Entity} {other_id : String}
    (hplace : IsPlace entity id path) (hitem : entity.is_item = true) (hother : IsPlace other other_id place)
    (key : String) : ¬ path ++ [key] <+: place := by
  intro hbelow
  have hpath := hplace.eq_of_below hitem hother ((prefix_append _ _).trans hbelow)
  rw [hpath] at hbelow
  exact not_prefix_self_append path key hbelow

theorem Consistent.object_set_item (h : Consistent db) {path : Path} (hplace : IsPlace entity id path)
    (hitem : entity.is_item = true) (key : String) (val : Json) : Consistent (db.object_set path key val).2 := by
  cases hobject : db.is_object_at path with
  | false => simpa [object_set_of_not_object hobject] using h
  | true =>
    obtain ⟨hcovered, hsettled⟩ := (consistent_iff db).mp h
    have hwrites := writes_object_set hobject key val
    refine (consistent_iff _).mpr ⟨hcovered.writes hwrites ?_, hsettled.writes hwrites ?_⟩
    · intro other other_id place _ hbelow hsits
      exact hplace.not_below_member hitem hsits.1 key hbelow
    intro other other_id place hbelow hget
    obtain ⟨_, hsame, hsits⟩ := hsettled other other_id _ hget
    cases hsame
    exact hplace.not_below_member hitem hsits.1 key hbelow

/-- The key `projects` of a domain can be deleted when its projects can be walked. -/
def delete_key_admissible (entity : Entity) (id key : String) (db : Db) : Prop :=
  entity = .domain → key = "projects" → ∀ projects, db.node [id, "projects"] = some projects →
    projects_walkable projects = true

theorem delete_entity_key_consistent_iff (h : Consistent db) :
    (∃ ok db', delete_entity_key entity id key db = some (ok, db') ∧ Consistent db') ↔
      delete_key_admissible entity id key db := by
  unfold delete_entity_key
  by_cases hid : key = "id"
  · refine iff_of_true ⟨false, db, by simp [hid], h⟩ ?_
    intro _ hkey
    simp [hid] at hkey
  rw [if_neg hid]
  cases hget : db.index_get entity id with
  | none =>
    refine iff_of_true ⟨false, db, rfl, h⟩ ?_
    rintro rfl _ projects hprojects
    have hsits : Sits db .domain id [id] := by
      refine ⟨.domain id, has_of_has_append ["projects"] ?_⟩
      rw [has, singleton_append, hprojects]
      rfl
    rw [(h.agree .domain id (fun hadmin => by cases hadmin.1) _).mpr hsits] at hget
    cases hget
  | some ptr =>
    obtain ⟨path, rfl, hsits⟩ := h.settled entity id ptr hget
    have hitem : entity.is_item = true →
        ((∃ ok db', some (db.object_del path key) = some (ok, db') ∧ Consistent db') ↔
          delete_key_admissible entity id key db) := by
      intro hitem
      refine iff_of_true ⟨_, _, rfl, h.object_del ?_⟩ ?_
      · intro other other_id place hbelow hother
        obtain ⟨_, hsame, hplace⟩ := h.settled other other_id _ hother
        cases hsame
        exact hsits.1.not_below_member hitem hplace.1 key hbelow
      rintro rfl
      cases hitem
    cases entity with
    | domain =>
      obtain rfl : path = [id] := by
        cases hsits.1 with
        | domain => rfl
        | item himpossible => cases himpossible
      exact delete_scope_key_consistent_iff h (.domain id) (fun _ => ⟨id, rfl⟩) (fun hne => absurd rfl hne)
    | project =>
      obtain ⟨domain, rfl⟩ : ∃ domain, path = [domain, "projects", id] := by
        cases hsits.1 with
        | project domain => exact ⟨domain, rfl⟩
        | item himpossible => cases himpossible
      refine (delete_scope_key_consistent_iff h (.project domain id) (fun hne => by cases hne)
        (fun _ => rfl)).trans (iff_of_true ?_ ?_) <;> intro hne <;> cases hne
    | loop => exact hitem rfl
    | role => exact hitem rfl
    | user => exact hitem rfl

end DeleteKey

section UpdateKey

variable {db : Db} {entity : Entity} {id key : String} {val : Json}

/-- The users of a domain or project that is no object cannot be linked to it: none
    of them may be entered in the index. -/
def update_key_admissible (entity : Entity) (id key : String) (val : Json) (db : Db) : Prop :=
  entity = .domain ∨ entity = .project → key = "users" → ∀ path, db.index_get entity id = some (.node path) →
    db.is_object_at path = true ∨ (∀ user, ¬ is_member (some val) user) ∨ ¬ free_users val db

theorem update_users_consistent_iff (h : Consistent db) {path : Path} (hpath : IsScope path) (val : Json) :
    (∃ ok db', update_users path val db = some (ok, db') ∧ Consistent db') ↔
      db.is_object_at path = true ∨ (∀ user, ¬ is_member (some val) user) ∨ ¬ free_users val db := by
  obtain ⟨hcovered, hsettled⟩ := (consistent_iff db).mp h
  cases hobject : db.is_object_at path with
  | true =>
    obtain ⟨ok, db', hstep, hupdate⟩ := update_users_spec hcovered hsettled.placed hpath hobject val
    exact iff_of_true ⟨ok, db', hstep, (consistent_iff db').mpr ⟨hupdate.covered, hupdate.settled hsettled⟩⟩
      (.inl rfl)
  | false =>
    obtain ⟨ok, db', hstep, hdomains, hindex⟩ := update_users_loose_spec hobject val
    rw [hstep]
    constructor
    · rintro ⟨_, _, hsame, hdb'⟩
      cases hsame
      by_contra hbad
      simp only [Bool.false_eq_true, false_or, not_or, not_forall, not_not] at hbad
      obtain ⟨⟨user, hmember⟩, hfree⟩ := hbad
      rcases hindex .user user with ⟨_, value, hget⟩ | ⟨hnot, _⟩
      · obtain ⟨_, hptr, _⟩ := hdb'.settled .user user _ hget
        cases hptr
      · exact hnot ⟨rfl, hmember, hfree⟩
    intro hadmissible
    have hsame : SameEntities db db' := by
      refine ⟨sits_of_domains_eq_iff hdomains _ _ _, ?_⟩
      intro other other_id
      rcases hindex other other_id with ⟨⟨_, hmember, hfree⟩, _⟩ | ⟨_, hget⟩
      · rcases hadmissible with hfalse | hnone | hused
        · cases hfalse
        · exact absurd hmember (hnone other_id)
        · exact absurd hfree hused
      · exact hget
    exact ⟨ok, db', rfl, (consistent_iff db').mpr ⟨hsame.covered hcovered, hsame.settled hsettled⟩⟩

theorem update_scope_consistent_iff (h : Consistent db) {path : Path} (hpath : IsScope path)
    (hkey : key = "users" ∨ key = "roles" ∨ key = "loops")
    (hupdate : ∀ u : Update, update_key entity id (.node path) key val u =
      if key = "users" then u.lift (update_users path val)
      else if key = "roles" then u.lift (update_roles path val)
      else update_loops path val u) :
    (∃ ok db', (update_key entity id (.node path) key val { db }).map (fun r => (r.1, r.2.db)) =
        some (ok, db') ∧ Consistent db') ↔
      (key = "users" →
        db.is_object_at path = true ∨ (∀ user, ¬ is_member (some val) user) ∨ ¬ free_users val db) := by
  obtain ⟨hcovered, hsettled⟩ := (consistent_iff db).mp h
  rw [hupdate]
  rcases hkey with rfl | rfl | rfl
  · have hlift : (Update.lift { db } (update_users path val)).map (fun r => (r.1, r.2.db)) =
        update_users path val db := by
      unfold Update.lift
      cases update_users path val db <;> rfl
    rw [if_pos rfl, hlift, update_users_consistent_iff h hpath val]
    simp
  · obtain ⟨ok, db', hstep, hcontent⟩ := update_roles_spec hcovered hsettled.placed hpath val
    refine iff_of_true ⟨ok, db', ?_, (consistent_iff db').mpr ⟨hcontent.covered, hcontent.settled hsettled⟩⟩
      (fun hkey => by simp at hkey)
    simp [Update.lift, hstep]
  obtain ⟨ok, u', hstep, hcontent⟩ := update_loops_spec (u := { db }) hcovered hsettled.placed hpath val
  refine iff_of_true ⟨ok, u'.db, ?_, (consistent_iff u'.db).mpr ⟨hcontent.covered, hcontent.settled hsettled⟩⟩
    (fun hkey => by simp at hkey)
  simp [hstep]

theorem update_entity_key_consistent_iff (h : Consistent db)
    (hkey : key = "users" ∨ key = "roles" ∨ key = "loops") :
    (∃ ok db', update_entity_key entity id key val db = some (ok, db') ∧ Consistent db') ↔
      update_key_admissible entity id key val db := by
  have hid : key ≠ "id" := by rcases hkey with rfl | rfl | rfl <;> decide
  have hsip : key ≠ "sip" := by rcases hkey with rfl | rfl | rfl <;> decide
  unfold update_entity_key
  rw [if_neg hid]
  cases hget : db.index_get entity id with
  | none =>
    refine iff_of_true ⟨false, db, rfl, h⟩ ?_
    intro _ _ path hsome
    rw [hget] at hsome
    cases hsome
  | some ptr =>
    obtain ⟨path, rfl, hsits⟩ := h.settled entity id ptr hget
    -- for a scope the condition is about the path of its index entry
    have hscope : (entity = .domain ∨ entity = .project) → ((key = "users" → db.is_object_at path = true ∨
        (∀ user, ¬ is_member (some val) user) ∨ ¬ free_users val db) ↔
        update_key_admissible entity id key val db) := by
      intro hentity
      constructor
      · intro hcond _ hkey other hother
        rw [hget] at hother
        cases hother
        exact hcond hkey
      intro hadmissible hkey
      exact hadmissible hentity hkey path hget
    have hitem : entity.is_item = true → (∃ ok db',
        (update_entity entity id (.node path) key val { db }).map (fun r => (r.1, r.2.db)) = some (ok, db') ∧
          Consistent db') := by
      intro hitem
      obtain ⟨data, hdata⟩ := isSome_iff_exists.mp hsits.2
      refine ⟨(db.object_set path key val).1, (db.object_set path key val).2, ?_,
        h.object_set_item hsits.1 hitem key val⟩
      simp [update_entity, Db.read, hdata, hsip, Update.lift, set_through]
    have hnot : entity.is_item = true → update_key_admissible entity id key val db := by
      rintro hitem (rfl | rfl) <;> cases hitem
    cases entity with
    | domain =>
      refine (update_scope_consistent_iff h (hsits.1.isScope rfl) hkey ?_).trans (hscope (.inl rfl))
      intro u
      rcases hkey with rfl | rfl | rfl <;> rfl
    | project =>
      refine (update_scope_consistent_iff h (hsits.1.isScope rfl) hkey ?_).trans (hscope (.inr rfl))
      intro u
      rcases hkey with rfl | rfl | rfl <;> rfl
    | loop => exact iff_of_true (hitem rfl) (hnot rfl)
    | role => exact iff_of_true (hitem rfl) (hnot rfl)
    | user => exact iff_of_true (hitem rfl) (hnot rfl)

end UpdateKey

/-- The calls for which index and tree are to stay in agreement. -/
def Op.changes_entities : Op → Prop
  | .create_entity .. | .delete_entity .. | .delete_entity_key .. => True
  | .update_entity_key _ _ key _ => key = "users" ∨ key = "roles" ∨ key = "loops"
  | _ => False

/-- The calls that keep the agreement. -/
def Op.admissible (db : Db) : Op → Prop
  | .create_entity entity id scope scope_id =>
    is_admin_role entity id → ∀ data, scope_node scope scope_id db = some (some data) →
      db.index_get .role "admin" ≠ some (.node (data ++ ["roles", "admin"]))
  | .delete_entity entity id => delete_admissible entity id db
  | .delete_entity_key entity id key => delete_key_admissible entity id key db
  | .update_entity_key entity id key val => update_key_admissible entity id key val db
  | _ => True

/-- From a state in which index and tree agree, and ids are unique for that reason, a
    call leads to such a state exactly when it is admissible. -/
theorem step_consistent_iff {db : Db} (h : Consistent db) {op : Op} (hop : op.changes_entities) :
    (∃ ok db', op.step db = some (ok, db') ∧ Consistent db') ↔ op.admissible db := by
  cases op with
  | create_entity => exact create_entity_consistent_iff h
  | delete_entity => exact delete_entity_consistent_iff h
  | delete_entity_key => exact delete_entity_key_consistent_iff h
  | update_entity_key => exact update_entity_key_consistent_iff h hop
  | _ => exact hop.elim

theorem consistent_empty : Consistent Db.empty := by
  refine (consistent_iff _).mpr ⟨?_, ?_⟩
  · intro entity id path _ hsits
    have hhas := hsits.2
    simp [has, Db.node, Db.empty] at hhas
  intro entity id ptr hget
  simp [Db.empty, index_get] at hget

theorem step_consistent_iff_first_domain : Consistent Db.empty ∧
      ((∃ ok db', (Op.create_entity .domain "d" .domain "d").step Db.empty = some (ok, db') ∧ Consistent db') ↔
        (Op.create_entity .domain "d" .domain "d").admissible Db.empty) :=
  ⟨consistent_empty, step_consistent_iff consistent_empty trivial⟩

/-- An entry of the index is a freed node. -/
def is_dangling (db : Db) (entity : Entity) (id : String) : Bool :=
  match db.index_get entity id with
  | some .dangling => true
  | _ => false

/-- A domain gets its roles by an update, which enters the role `admin` in the index.
    Creating that role once more frees the node the index points to. -/
theorem created_admin_role_dangles : ¬ ∀ db, Consistent db → ∀ op : Op, op.changes_entities →
      ∃ ok db', op.step db = some (ok, db') ∧ Consistent db' := by
  intro h
  let roles : Json := .object [("admin", .object [])]
  have hdangling : ((create_entity .domain "d" .domain "d" Db.empty).bind fun r =>
      (update_entity_key .domain "d" "roles" roles r.2).bind fun r =>
      create_entity .role "admin" .domain "d" r.2).any (fun r => is_dangling r.2 .role "admin") = true := by
    decide +kernel
  obtain ⟨ok₁, db₁, hstep₁, hdb₁⟩ := h _ consistent_empty (.create_entity .domain "d" .domain "d") trivial
  obtain ⟨ok₂, db₂, hstep₂, hdb₂⟩ := h _ hdb₁ (.update_entity_key .domain "d" "roles" roles) (.inr (.inl rfl))
  obtain ⟨ok₃, db₃, hstep₃, hdb₃⟩ := h _ hdb₂ (.create_entity .role "admin" .domain "d") trivial
  simp only [Op.step] at hstep₁ hstep₂ hstep₃
  simp only [hstep₁, hstep₂, hstep₃, bind_some, any_some] at hdangling
  unfold is_dangling at hdangling
  split at hdangling
  · rename_i hget
    exact not_consistent_of_dangling _ _ hget hdb₃
  · cases hdangling

end openvocs.vocs_db
