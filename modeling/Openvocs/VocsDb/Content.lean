import Openvocs.VocsDb.Agreement

namespace openvocs.vocs_db

open Db Json

theorem IsScope.length_odd {path : Path} (h : IsScope path) : path.length % 2 = 1 := by
  cases h <;> simp

theorem IsPlace.length_odd {entity : Entity} {id : String} {path : Path} (h : IsPlace entity id path) :
    path.length % 2 = 1 := by
  cases h with
  | domain => simp
  | project => simp
  | item hitem hscope =>
    have hodd := hscope.length_odd
    simp only [List.length_append, List.length_cons, List.length_nil]
    omega

theorem IsScope.not_place {path : Path} (h : IsScope path) (key : String) {entity : Entity} {id : String} :
    ¬ IsPlace entity id (path ++ [key]) := by
  intro hplace
  have hodd := hplace.length_odd
  have hscope := h.length_odd
  simp only [List.length_append, List.length_cons, List.length_nil] at hodd
  omega

section Created

variable {db : Db} {path : Path} {key : String}

theorem get_create_content_cases (db : Db) (path : Path) (key : String) :
    (db.has (path ++ [key]) ∧ get_create_content path key db = (true, db)) ∨
    (¬ db.has (path ++ [key]) ∧ get_create_content path key db = db.object_set path key (.object [])) := by
  unfold get_create_content has
  rw [node_append]
  cases hnode : db.node path with
  | none => exact .inr ⟨by simp, rfl⟩
  | some j =>
    cases hget : j.object_get key with
    | none => exact .inr ⟨by simp [node_at, hget], by simp [hget]⟩
    | some child => exact .inl ⟨by simp [node_at, hget], by simp [hget]⟩

theorem has_object_set_empty (hobject : db.is_object_at path = true) {other : Path}
    (hbelow : path ++ [key] <+: other) (hhas : (db.object_set path key (.object [])).2.has other) :
    other = path ++ [key] := by
  obtain ⟨rest, rfl⟩ := hbelow
  rw [List.append_assoc, List.singleton_append, has, node_object_set_below hobject] at hhas
  cases rest with
  | nil => simp
  | cons first rest => simp [node_at, Json.object_get] at hhas

theorem Covered.get_create_content (h : Covered db) (hpath : IsScope path) (key : String) :
    Covered (get_create_content path key db).2 := by
  rcases get_create_content_cases db path key with ⟨_, heq⟩ | ⟨_, heq⟩
  · simpa [heq] using h
  rw [heq]
  cases hobject : db.is_object_at path with
  | false => simpa [object_set_of_not_object hobject] using h
  | true =>
    refine h.writes (writes_object_set hobject key _) ?_
    intro entity id place _ hbelow hsits
    have hplace := hsits.1
    rw [has_object_set_empty hobject hbelow hsits.2] at hplace
    exact hpath.not_place key hplace

theorem Settled.get_create_content (h : Settled db) (path : Path) (key : String) :
    Settled (get_create_content path key db).2 := by
  rcases get_create_content_cases db path key with ⟨_, heq⟩ | ⟨hnone, heq⟩
  · simpa [heq] using h
  rw [heq]
  cases hobject : db.is_object_at path with
  | false => simpa [object_set_of_not_object hobject] using h
  | true =>
    refine h.writes (writes_object_set hobject key _) ?_
    intro entity id place hbelow hget
    obtain ⟨other, hsame, hsits⟩ := h entity id _ hget
    cases hsame
    exact hnone (has_of_below hbelow hsits.2)

end Created

namespace Db.Writes

variable {db mid db' : Db} {path : Path}

theorem no_ptr_below (h : Db.Writes path db db') {entity : Entity} {id : String} {place : Path}
    (hbelow : path <+: place) : db'.index_get entity id ≠ some (.node place) := by
  intro hget
  rw [h.index_get_eq] at hget
  obtain ⟨ptr, _, hrelease⟩ := Option.map_eq_some_iff.mp hget
  exact (Ptr.release_eq_node hrelease).2 hbelow

theorem trans (h₁ : Db.Writes path db mid) (h₂ : Db.Writes path mid db') : Db.Writes path db db' := by
  refine ⟨fun hnot => (h₂.has_iff hnot).trans (h₁.has_iff hnot),
    fun hnot => (h₂.is_object_at_eq hnot).trans (h₁.is_object_at_eq hnot),
    fun hnot hup => (h₂.node_eq hnot hup).trans (h₁.node_eq hnot hup), ?_⟩
  intro entity id
  rw [h₂.index_get_eq, h₁.index_get_eq, Option.map_map]
  congr 1
  funext ptr
  cases ptr with
  | node place =>
    by_cases hbelow : path <+: place
    · rw [Function.comp_apply, Ptr.release_of_below hbelow]
      rfl
    · simp [Ptr.release_of_not_below hbelow]
  | loose value => rfl
  | dangling => rfl

theorem widen {longer : Path} (h : Db.Writes longer db db') (hpre : path <+: longer)
    (hnone : ∀ {entity id place}, path <+: place → db.index_get entity id ≠ some (.node place)) :
    Db.Writes path db db' := by
  have hnot : ∀ {other}, ¬ path <+: other → ¬ longer <+: other := fun hother hlonger =>
    hother (hpre.trans hlonger)
  refine ⟨fun hother => h.has_iff (hnot hother), fun hother => h.is_object_at_eq (hnot hother), ?_, ?_⟩
  · intro other hother hup
    refine h.node_eq (hnot hother) ?_
    intro hlonger
    rcases List.prefix_or_prefix_of_prefix hlonger hpre with hle | hle
    · exact hup hle
    · exact hother hle
  intro entity id
  rw [h.index_get_eq]
  cases hget : db.index_get entity id with
  | none => rfl
  | some ptr =>
    cases ptr with
    | node place =>
      have hbelow : ¬ path <+: place := fun hbelow => hnone hbelow hget
      simp [Ptr.release_of_not_below hbelow, Ptr.release_of_not_below (hnot hbelow)]
    | loose value => rfl
    | dangling => rfl

theorem refl (hnone : ∀ {entity id place}, path <+: place → db.index_get entity id ≠ some (.node place)) :
    Db.Writes path db db := by
  refine ⟨fun _ => Iff.rfl, fun _ => rfl, fun _ _ => rfl, ?_⟩
  intro entity id
  cases hget : db.index_get entity id with
  | none => rfl
  | some ptr =>
    cases ptr with
    | node place =>
      have hbelow : ¬ path <+: place := fun hbelow => hnone hbelow hget
      simp [Ptr.release_of_not_below hbelow]
    | loose value => rfl
    | dangling => rfl

end Db.Writes

/-- Changes of the members of one object, which stays an object. -/
structure MembersChange (path : Path) (members : String → Prop) (db db' : Db) : Prop where
  writes : Db.Writes path db db'
  is_object : db'.is_object_at path = true
  has_iff : ∀ id, db'.has (path ++ [id]) ↔ members id

section Members

variable {path : Path}

theorem not_prefix_self_append (path : Path) (key : String) : ¬ path ++ [key] <+: path := by
  intro h
  have hlength := h.length_le
  simp only [List.length_append, List.length_cons, List.length_nil] at hlength
  omega

theorem not_prefix_sibling {path : Path} {key other : String} (h : other ≠ key) :
    ¬ path ++ [key] <+: path ++ [other] := by
  intro hpre
  rw [List.prefix_append_right_inj] at hpre
  simp only [List.cons_prefix_cons, List.nil_prefix, and_true] at hpre
  exact h hpre.symm

theorem drop_users_spec (entries : List (String × Json)) {db : Db} (hobject : db.is_object_at path = true)
    (hnone : ∀ {entity id place}, path <+: place → db.index_get entity id ≠ some (.node place)) :
    MembersChange path (fun id => db.has (path ++ [id]) ∧ id ∉ entries.map Prod.fst) db
      (entries.foldl (fun db entry => drop_user path entry.1 db) db) := by
  induction entries generalizing db with
  | nil => exact ⟨Db.Writes.refl hnone, hobject, by simp⟩
  | cons entry rest ih =>
    have hwrites : Db.Writes (path ++ [entry.1]) db (drop_user path entry.1 db) :=
      writes_object_del hobject entry.1
    have hwide := hwrites.widen (List.prefix_append _ _) hnone
    have hobject' : (drop_user path entry.1 db).is_object_at path = true :=
      (hwrites.is_object_at_eq (not_prefix_self_append path entry.1)).trans hobject
    have hhas : ∀ id, (drop_user path entry.1 db).has (path ++ [id]) ↔ db.has (path ++ [id]) ∧ id ≠ entry.1 := by
      intro id
      by_cases hid : id = entry.1
      · have hgone : ¬ (drop_user path entry.1 db).has (path ++ [entry.1]) :=
          not_has_object_del_below hobject entry.1 []
        simp [hid, hgone]
      · simp [hwrites.has_iff (not_prefix_sibling hid), hid]
    have hrest := ih hobject' hwide.no_ptr_below
    refine ⟨hwide.trans hrest.writes, hrest.is_object, ?_⟩
    intro id
    rw [List.foldl_cons, hrest.has_iff, hhas]
    simp [and_assoc]

theorem add_new_users_spec (entries : List (String × Json)) {db : Db} (hobject : db.is_object_at path = true)
    (hnone : ∀ {entity id place}, path <+: place → db.index_get entity id ≠ some (.node place)) :
    ∃ db', assoc.walk (add_new_user path) entries db = some (true, db') ∧
      MembersChange path (fun id => db.has (path ++ [id]) ∨ id ∈ entries.map Prod.fst) db db' := by
  induction entries generalizing db with
  | nil => exact ⟨db, rfl, Db.Writes.refl hnone, hobject, by simp⟩
  | cons entry rest ih =>
    obtain ⟨key, val⟩ := entry
    have hstep : ∃ next, add_new_user path key val db = some (true, next) ∧
        MembersChange path (fun id => db.has (path ++ [id]) ∨ id = key) db next := by
      unfold add_new_user
      have hnode : db.node (path ++ [key]) = (db.node path).bind (fun node => node.object_get key) := by
        rw [node_append]
        simp only [node_at_singleton]
      cases hget : (db.node path).bind (fun node => node.object_get key) with
      | some child =>
        refine ⟨db, rfl, Db.Writes.refl hnone, hobject, ?_⟩
        intro id
        constructor
        · exact .inl
        rintro (hhas | rfl)
        · exact hhas
        rw [has, hnode, hget]
        rfl
      | none =>
        have hwrites := writes_object_set hobject key val
        refine ⟨(db.object_set path key val).2, ?_, hwrites.widen (List.prefix_append _ _) hnone,
          (hwrites.is_object_at_eq (not_prefix_self_append path key)).trans hobject, ?_⟩
        · rw [object_set_of_object hobject]
        intro id
        by_cases hid : id = key
        · have hthere := node_object_set_below hobject key val []
          simp [has, hid, hthere, node_at]
        · simp [hwrites.has_iff (not_prefix_sibling hid), hid]
    obtain ⟨next, hstep, hnext⟩ := hstep
    obtain ⟨db', hwalk, hrest⟩ := ih hnext.is_object hnext.writes.no_ptr_below
    refine ⟨db', by simp [assoc.walk, hstep, hwalk], hnext.writes.trans hrest.writes, hrest.is_object, ?_⟩
    intro id
    rw [hrest.has_iff, hnext.has_iff]
    simp [or_assoc]

end Members

/-- What an update of the users, roles or loops of a scope does. -/
structure ContentUpdate (kind : Entity) (scope : Path) (val : Json) (db db' : Db) : Prop where
  covered : Covered db'
  settled : Settled db → Settled db'
  has_iff : ∀ {other}, ¬ scope ++ [kind.container] <+: other → (db'.has other ↔ db.has other)
  is_object_at_eq : ∀ {other}, ¬ scope ++ [kind.container] <+: other →
    db'.is_object_at other = db.is_object_at other
  members : ∀ {id}, db'.has (scope ++ [kind.container, id]) →
    db.has (scope ++ [kind.container, id]) ∨ is_member (some val) id
  is_object : (db.has (scope ++ [kind.container]) → db.is_object_at (scope ++ [kind.container]) = true) →
    db'.has (scope ++ [kind.container]) → db'.is_object_at (scope ++ [kind.container]) = true

theorem ContentUpdate.refl {kind : Entity} {scope : Path} {val : Json} {db : Db} (h : Covered db) :
    ContentUpdate kind scope val db db :=
  ⟨h, id, fun _ => Iff.rfl, fun _ => rfl, .inl, id⟩

theorem ContentUpdate.trans {kind : Entity} {scope : Path} {val : Json} {db mid db' : Db}
    (h₁ : ContentUpdate kind scope val db mid) (h₂ : ContentUpdate kind scope val mid db') :
    ContentUpdate kind scope val db db' := by
  refine ⟨h₂.covered, fun h => h₂.settled (h₁.settled h), fun hnot => (h₂.has_iff hnot).trans (h₁.has_iff hnot),
    fun hnot => (h₂.is_object_at_eq hnot).trans (h₁.is_object_at_eq hnot), ?_, fun h => h₂.is_object (h₁.is_object h)⟩
  intro id hhas
  rcases h₂.members hhas with hmid | hmember
  · exact h₁.members hmid
  · exact .inr hmember

section Update

variable {db : Db} {kind : Entity} {scope : Path} {val : Json}

theorem content_created (h : Covered db) (hscope : IsScope scope) :
    ContentUpdate kind scope val db (get_create_content scope kind.container db).2 := by
  have hcovered := h.get_create_content hscope kind.container
  rcases get_create_content_cases db scope kind.container with ⟨_, heq⟩ | ⟨hnone, heq⟩
  · simpa [heq] using ContentUpdate.refl h
  cases hobject : db.is_object_at scope with
  | false =>
    rw [heq, object_set_of_not_object hobject]
    exact ContentUpdate.refl h
  | true =>
    have hwrites := writes_object_set hobject kind.container (.object [])
    rw [← heq] at hwrites
    refine ⟨hcovered, fun hsettled => hsettled.get_create_content scope kind.container,
      fun hnot => hwrites.has_iff hnot, fun hnot => hwrites.is_object_at_eq hnot, ?_, ?_⟩
    · intro id hhas
      rw [heq] at hhas
      have hbelow : scope ++ [kind.container] <+: scope ++ [kind.container, id] :=
        (List.prefix_append_right_inj scope).mpr (by simp)
      have hlength := congrArg List.length (has_object_set_empty hobject hbelow hhas)
      simp at hlength
    intro _ _
    have hnew := node_object_set_below hobject kind.container (.object []) []
    simp [heq, is_object_at, hnew, node_at, Json.is_object]

theorem is_member_node_iff (db : Db) (path : Path) (id : String) :
    is_member (db.node path) id ↔ db.has (path ++ [id]) := by
  unfold is_member has
  rw [node_append]
  simp only [node_at_singleton]

theorem none_already_set_iff (kind : Entity) (parent : Option Json) (val : Json) (db : Db) :
    none_already_set kind parent val db = true ↔
      ∀ id, is_member (some val) id → is_admin_role kind id ∨ db.index_get kind id = none ∨ is_member parent id := by
  unfold none_already_set
  rw [List.all_eq_true]
  have hsimple : ∀ id, already_set kind parent db id = true ↔
      is_admin_role kind id ∨ db.index_get kind id = none ∨ is_member parent id := by
    intro id
    unfold already_set is_member
    simp [Bool.not_eq_true', or_assoc]
  cases val with
  | object fields =>
    simp only [object_entries, Option.getD_some, hsimple, ← mem_entries_keys_iff]
    constructor
    · rintro h id hid
      obtain ⟨entry, hmem, rfl⟩ := List.mem_map.mp hid
      exact h entry hmem
    intro h entry hmem
    exact h entry.1 (List.mem_map_of_mem hmem)
  | _ => simp [object_entries, is_member, Json.object_get]

theorem content_replaced {mid next db' : Db} (h : Covered db) (hkind : kind.is_item = true)
    (hscope : IsScope scope)
    (hchecked : none_already_set kind (db.node (scope ++ [kind.container])) val db = true)
    (hun : Unindexed (fun entity id => entity = kind ∧ is_member (db.node (scope ++ [kind.container])) id) db mid)
    (hchange : MembersChange (scope ++ [kind.container]) (is_member (some val)) mid next)
    (hre : Reindexed (fun entity id place => entity = kind ∧ is_member (some val) id ∧
      place = scope ++ [kind.container] ++ [id]) next db') :
    ContentUpdate kind scope val db db' := by
  rw [none_already_set_iff] at hchecked
  have happend : ∀ id, scope ++ [kind.container] ++ [id] = scope ++ [kind.container, id] := by simp
  have hold : ∀ {id}, is_member (db.node (scope ++ [kind.container])) id →
      Sits db kind id (scope ++ [kind.container, id]) ∧
        scope ++ [kind.container] <+: scope ++ [kind.container, id] := by
    intro id hmember
    rw [is_member_node_iff, happend] at hmember
    exact (sits_below_content hscope hkind).mpr ⟨rfl, rfl, hmember⟩
  have hnew : ∀ {id}, is_member (some val) id → Sits next kind id (scope ++ [kind.container] ++ [id]) := by
    intro id hmember
    have hhas := (hchange.has_iff id).mpr hmember
    rw [happend] at hhas ⊢
    exact ((sits_below_content hscope hkind).mpr ⟨rfl, rfl, hhas⟩).1
  have hdomains := hre.domains_eq
  have hhas : ∀ other, db'.has other ↔ next.has other := fun other => by
    unfold has
    rw [node_of_domains_eq hdomains]
  have hobject : ∀ other, db'.is_object_at other = next.is_object_at other := fun other => by
    unfold is_object_at
    rw [node_of_domains_eq hdomains]
  have hhas' : ∀ other, mid.has other ↔ db.has other := fun other => by
    unfold has
    rw [node_of_domains_eq hun.domains_eq]
  have hobject' : ∀ other, mid.is_object_at other = db.is_object_at other := fun other => by
    unfold is_object_at
    rw [node_of_domains_eq hun.domains_eq]
  refine ⟨?_, ?_, ?_, ?_, ?_, ?_⟩
  · refine h.replace hun hchange.writes hre ?_ ?_ ?_ ?_
    · rintro entity id _ ⟨rfl, hmember⟩
      exact ⟨_, hold hmember⟩
    · intro entity id place _ hsits hbelow
      obtain ⟨rfl, rfl, hthere⟩ := (sits_below_content hscope hkind).mp ⟨hsits, hbelow⟩
      refine ⟨rfl, (hchange.has_iff id).mp ?_, (happend id).symm⟩
      rw [happend]
      exact hthere
    · rintro entity id place hid ⟨rfl, hmember, rfl⟩ other hsits
      have hget := h entity id other hid hsits
      rcases hchecked id hmember with hadmin | hfree | hown
      · exact absurd hadmin hid
      · rw [hfree] at hget
        cases hget
      rw [h entity id _ hid (hold hown).1] at hget
      cases hget
      exact (hold hown).2
    rintro entity id place other _ ⟨_, _, rfl⟩ ⟨_, _, rfl⟩
    rfl
  · intro hsettled
    refine hsettled.replace hun hchange.writes hre ?_ ?_
    · intro entity id place hget hbelow
      obtain ⟨_, hsame, hsits⟩ := hsettled entity id _ hget
      cases hsame
      obtain ⟨rfl, rfl, hthere⟩ := (sits_below_content hscope hkind).mp ⟨hsits, hbelow⟩
      refine ⟨rfl, (is_member_node_iff _ _ _).mpr ?_⟩
      rw [happend]
      exact hthere
    rintro entity id place ⟨rfl, hmember, rfl⟩
    exact hnew hmember
  · intro other hnot
    rw [hhas, hchange.writes.has_iff hnot, hhas']
  · intro other hnot
    rw [hobject, hchange.writes.is_object_at_eq hnot, hobject']
  · intro id hthere
    rw [hhas, ← happend] at hthere
    exact .inr ((hchange.has_iff id).mp hthere)
  intro _ _
  rw [hobject]
  exact hchange.is_object

theorem for_each_of_not_object {σ : Type} (f : String → Json → σ → Option (Bool × σ)) {j : Json} (s : σ)
    (h : j.is_object = false) : j.object_for_each f s = some (false, s) := by
  cases j with
  | object members => cases h
  | _ => rfl

theorem has_append_iff_of_node {db : Db} {path : Path} {j : Json} (hnode : db.node path = some j) (id : String) :
    db.has (path ++ [id]) ↔ is_member (some j) id := by
  rw [← is_member_node_iff, hnode]

theorem unindex_container (kind : Entity) {fields : List (String × Json)} (hplaced : Placed db) (hkind : kind.is_item = true)
    (hscope : IsScope scope) (hnode : db.node (scope ++ [kind.container]) = some (.object fields)) :
    ∃ mid, (Json.object fields).object_for_each (unindex kind) db = some (true, mid) ∧
      Unindexed (fun entity id => entity = kind ∧ is_member (db.node (scope ++ [kind.container])) id) db mid ∧
      ∀ {entity id place}, scope ++ [kind.container] <+: place →
        mid.index_get entity id ≠ some (.node place) := by
  obtain ⟨mid, hwalk, hun⟩ := unindex_content kind (some (.object fields)) db
  rw [← hnode] at hun
  refine ⟨mid, hwalk, hun, ?_⟩
  intro entity id place hbelow hget
  by_cases hgone : entity = kind ∧ is_member (db.node (scope ++ [kind.container])) id
  · rw [hun.dropped hgone] at hget
    cases hget
  rw [hun.kept hgone] at hget
  obtain ⟨rfl, rfl, hthere⟩ := (sits_below_content hscope hkind).mp ⟨hplaced.sits hget, hbelow⟩
  refine hgone ⟨rfl, (is_member_node_iff _ _ _).mpr ?_⟩
  simpa using hthere

theorem exchange_users {path : Path} (fields : List (String × Json)) (hobject : db.is_object_at path = true)
    (hnone : ∀ {entity id place}, path <+: place → db.index_get entity id ≠ some (.node place)) :
    ∃ next, (Json.object fields).object_for_each (add_new_user path)
        (((members_at path db).filter (fun entry => ((Json.object fields).object_get entry.1).isNone)).foldl
          (fun db entry => drop_user path entry.1 db) db) = some (true, next) ∧
      MembersChange path (is_member (some (.object fields))) db next := by
  have hdropped := drop_users_spec
    ((members_at path db).filter (fun entry => ((Json.object fields).object_get entry.1).isNone)) hobject hnone
  obtain ⟨next, hwalk, hadded⟩ := add_new_users_spec (assoc.entries fields) hdropped.is_object
    hdropped.writes.no_ptr_below
  refine ⟨next, hwalk, hdropped.writes.trans hadded.writes, hadded.is_object, ?_⟩
  intro id
  rw [hadded.has_iff, hdropped.has_iff, mem_entries_keys_iff]
  constructor
  · rintro (⟨hhas, hkept⟩ | hmember)
    · by_contra hnot
      refine hkept (List.mem_map.mpr ?_)
      obtain ⟨members, hnode⟩ := (is_object_at_iff db path).mp hobject
      obtain ⟨user, huser⟩ := Option.isSome_iff_exists.mp hhas
      rw [node_member hnode] at huser
      refine ⟨(id, user), List.mem_filter.mpr ⟨?_, ?_⟩, rfl⟩
      · simp only [members_at, hnode, Option.bind_some, object_entries, Option.getD_some]
        exact (assoc.mem_entries_iff _ _ _).mpr huser
      · simpa [is_member] using hnot
    · exact hmember
  · exact .inr

theorem update_users_content_spec (h : Covered db) (hplaced : Placed db) (hscope : IsScope scope)
    (hval : val.is_object = true) :
    ∃ ok db', update_users_content (scope ++ ["users"]) val db = some (ok, db') ∧
      ContentUpdate .user scope val db db' := by
  unfold update_users_content
  by_cases hchecked : none_already_set .user (db.node (scope ++ ["users"])) val db = true
  · simp only [hchecked, not_true_eq_false, if_false]
    cases hobject : ((db.node (scope ++ ["users"])).getD .null).is_object with
    | false =>
      refine ⟨false, db, ?_, ContentUpdate.refl h⟩
      rw [for_each_of_not_object _ _ hobject, guarded.next_false]
    | true =>
      obtain ⟨fields, hfields⟩ := (is_object_iff _).mp hobject
      have hnode : db.node (scope ++ ["users"]) = some (.object fields) := by
        cases hnode : db.node (scope ++ ["users"]) with
        | none => simp [hnode] at hfields
        | some content => simpa [hnode] using hfields
      obtain ⟨news, rfl⟩ := (is_object_iff val).mp hval
      obtain ⟨mid, hwalk, hun, hnone⟩ := unindex_container .user hplaced rfl hscope hnode
      have hmid : mid.is_object_at (scope ++ ["users"]) = true := by
        rw [is_object_at, node_of_domains_eq hun.domains_eq, hnode]
        rfl
      obtain ⟨next, hexchange, hchange⟩ := exchange_users news hmid hnone
      obtain ⟨users, husers⟩ := (is_object_at_iff next _).mp hchange.is_object
      obtain ⟨db', hreindex, hre⟩ := reindex_content .user (scope ++ ["users"]) (some (.object users)) next
      refine ⟨true, db', ?_, ?_⟩
      · simp only [hfields, unindex_users, hwalk, guarded.next_true, hexchange, husers, Option.getD_some]
        exact hreindex
      refine content_replaced h rfl hscope hchecked hun hchange (hre.congr ?_)
      intro entity id place
      rw [← has_append_iff_of_node husers, hchange.has_iff]
      rfl
  · simp only [hchecked]
    exact ⟨false, db, rfl, ContentUpdate.refl h⟩

theorem replace_content_spec (kind : Entity) (h : Covered db) (hplaced : Placed db) (hkind : kind.is_item = true)
    (hscope : IsScope scope) (hval : val.is_object = true)
    (hchecked : none_already_set kind (db.node (scope ++ [kind.container])) val db = true) :
    ∃ ok db', replace_content kind scope val db = some (ok, db') ∧ ContentUpdate kind scope val db db' := by
  simp only [replace_content]
  cases hobject : ((db.node (scope ++ [kind.container])).getD .null).is_object with
  | false =>
    refine ⟨false, db, ?_, ContentUpdate.refl h⟩
    rw [for_each_of_not_object _ _ hobject, guarded.next_false]
  | true =>
    obtain ⟨fields, hfields⟩ := (is_object_iff _).mp hobject
    have hnode : db.node (scope ++ [kind.container]) = some (.object fields) := by
      cases hnode : db.node (scope ++ [kind.container]) with
      | none => simp [hnode] at hfields
      | some content => simpa [hnode] using hfields
    obtain ⟨mid, hwalk, hun, _⟩ := unindex_container kind hplaced hkind hscope hnode
    have hmid : mid.is_object_at scope = true := by
      refine is_object_at_of_has kind.container ?_
      rw [has, node_of_domains_eq hun.domains_eq, hnode]
      rfl
    have hnew := node_object_set_below hmid kind.container val []
    simp only [node_at] at hnew
    obtain ⟨db', hreindex, hre⟩ :=
      reindex_content kind (scope ++ [kind.container]) (some val) (mid.object_set scope kind.container val).2
    have hset : mid.object_set scope kind.container val =
        (true, (mid.object_set scope kind.container val).2) := by
      rw [object_set_of_object hmid]
    refine ⟨true, db', ?_, content_replaced h hkind hscope hchecked hun ⟨?_, ?_, ?_⟩ hre⟩
    · rw [hfields, hwalk, guarded.next_true, hset, guarded.next_true]
      simpa [for_each_if_set, walkable, hval] using hreindex
    · exact writes_object_set hmid kind.container val
    · simp [is_object_at, hnew, hval]
    · exact fun id => has_append_iff_of_node hnew id

theorem update_roles_spec (h : Covered db) (hplaced : Placed db) (hscope : IsScope scope) (val : Json) :
    ∃ ok db', update_roles scope val db = some (ok, db') ∧ ContentUpdate .role scope val db db' := by
  unfold update_roles
  cases hval : val.is_object with
  | false => exact ⟨false, db, by simp, ContentUpdate.refl h⟩
  | true =>
    have hcreated : ContentUpdate .role scope val db (get_create_content scope "roles" db).2 :=
      content_created h hscope
    have hplaced' := hplaced.get_create_content scope "roles"
    rcases hcreate : get_create_content scope "roles" db with ⟨_ | _, mid⟩
    · rw [hcreate] at hcreated
      exact ⟨false, mid, by simp, hcreated⟩
    rw [hcreate] at hcreated hplaced'
    by_cases hchecked : none_already_set .role (mid.node (scope ++ ["roles"])) val mid = true
    · obtain ⟨ok, db', hreplace, hupdate⟩ :=
        replace_content_spec .role hcreated.covered hplaced' rfl hscope hval hchecked
      exact ⟨ok, db', by simp [hchecked, hreplace], hcreated.trans hupdate⟩
    · exact ⟨false, mid, by simp [hchecked], hcreated⟩

theorem update_loops_spec {u : Update} (h : Covered u.db) (hplaced : Placed u.db) (hscope : IsScope scope)
    (val : Json) :
    ∃ ok u', update_loops scope val u = some (ok, u') ∧ ContentUpdate .loop scope val u.db u'.db := by
  unfold update_loops
  cases hval : val.is_object with
  | false => exact ⟨false, u, by simp, ContentUpdate.refl h⟩
  | true =>
    have hcreated : ContentUpdate .loop scope val u.db (get_create_content scope "loops" u.db).2 :=
      content_created h hscope
    have hplaced' := hplaced.get_create_content scope "loops"
    rcases hcreate : get_create_content scope "loops" u.db with ⟨linked, mid⟩
    rw [hcreate] at hcreated hplaced'
    simp only [not_true_eq_false, if_false]
    by_cases hchecked : none_already_set .loop
        (if linked then mid.node (scope ++ ["loops"]) else some (.object [])) val mid = true
    · rw [if_neg (by simpa using hchecked)]
      rcases check_sip_processing (if linked then mid.node (scope ++ ["loops"]) else some (.object [])) val
        u.out with ⟨_ | _, out⟩
      · exact ⟨false, _, rfl, hcreated⟩
      cases linked with
      | false => exact ⟨false, _, rfl, hcreated⟩
      | true =>
        obtain ⟨ok, db', hreplace, hupdate⟩ :=
          replace_content_spec .loop hcreated.covered hplaced' rfl hscope hval hchecked
        refine ⟨ok, { db := db', out := out }, ?_, hcreated.trans hupdate⟩
        simp [Update.lift, hreplace]
    rw [if_pos (by simpa using hchecked)]
    exact ⟨false, _, rfl, hcreated⟩

theorem update_users_spec (h : Covered db) (hplaced : Placed db) (hscope : IsScope scope)
    (hobject : db.is_object_at scope = true) (val : Json) :
    ∃ ok db', update_users scope val db = some (ok, db') ∧ ContentUpdate .user scope val db db' := by
  unfold update_users
  cases hval : val.is_object with
  | false => exact ⟨false, db, by simp, ContentUpdate.refl h⟩
  | true =>
    have hcreated : ContentUpdate .user scope val db (get_create_content scope "users" db).2 :=
      content_created h hscope
    have hplaced' := hplaced.get_create_content scope "users"
    have hlinked : (get_create_content scope "users" db).1 = true := by
      rcases get_create_content_cases db scope "users" with ⟨_, heq⟩ | ⟨_, heq⟩
      · rw [heq]
      · rw [heq, object_set_ok, hobject]
    rcases hcreate : get_create_content scope "users" db with ⟨linked, mid⟩
    rw [hcreate] at hcreated hplaced' hlinked
    cases hlinked
    obtain ⟨ok, db', hupdate, hcontent⟩ := update_users_content_spec hcreated.covered hplaced' hscope hval
    exact ⟨ok, db', by simp [hupdate], hcreated.trans hcontent⟩

theorem walk_index_loose (entries : List (String × Json)) (db : Db) :
    ∃ db', assoc.walk (fun key val db => some (true, db.index_set .user key (.loose val))) entries db =
        some (true, db') ∧ db'.domains = db.domains ∧
      ∀ entity id, ((entity = .user ∧ id ∈ entries.map Prod.fst) ∧
          ∃ value, db'.index_get entity id = some (.loose value)) ∨
        (¬ (entity = .user ∧ id ∈ entries.map Prod.fst) ∧ db'.index_get entity id = db.index_get entity id) := by
  induction entries generalizing db with
  | nil => exact ⟨db, rfl, rfl, fun entity id => .inr ⟨by simp, rfl⟩⟩
  | cons entry rest ih =>
    obtain ⟨key, val⟩ := entry
    obtain ⟨db', hwalk, hdomains, hindex⟩ := ih (db.index_set .user key (.loose val))
    refine ⟨db', hwalk, hdomains, ?_⟩
    intro entity id
    simp only [List.map_cons, List.mem_cons]
    rcases hindex entity id with ⟨⟨hentity, hmem⟩, hvalue⟩ | ⟨hnot, hsame⟩
    · exact .inl ⟨⟨hentity, .inr hmem⟩, hvalue⟩
    rw [hsame, index_get_index_set]
    by_cases hkey : entity = .user ∧ id = key
    · exact .inl ⟨⟨hkey.1, .inl hkey.2⟩, val, if_pos hkey⟩
    refine .inr ⟨?_, if_neg hkey⟩
    rintro ⟨hentity, rfl | hmem⟩
    · exact hkey ⟨hentity, rfl⟩
    · exact hnot ⟨hentity, hmem⟩

/-- New users that no index entry has: they could be entered as loose users. -/
def free_users (val : Json) (db : Db) : Prop :=
  ∀ id, is_member (some val) id → db.index_get .user id = none

theorem update_users_loose_spec (hobject : db.is_object_at scope = false) (val : Json) :
    ∃ ok db', update_users scope val db = some (ok, db') ∧ db'.domains = db.domains ∧
      ∀ entity id, ((entity = .user ∧ is_member (some val) id ∧ free_users val db) ∧
          ∃ value, db'.index_get entity id = some (.loose value)) ∨
        (¬ (entity = .user ∧ is_member (some val) id ∧ free_users val db) ∧
          db'.index_get entity id = db.index_get entity id) := by
  unfold update_users
  cases val with
  | object fields =>
    have hcreate : get_create_content scope "users" db = (false, db) := by
      rcases get_create_content_cases db scope "users" with ⟨hhas, _⟩ | ⟨_, heq⟩
      · rw [is_object_at_of_has _ hhas] at hobject
        cases hobject
      · rw [heq, object_set_of_not_object hobject]
    simp only [Json.is_object, not_true_eq_false, if_false, hcreate, update_users_loose]
    have hchecked : none_already_set .user none (.object fields) db = true ↔ free_users (.object fields) db := by
      rw [none_already_set_iff]
      simp [free_users, is_admin_role, is_member]
    by_cases hfree : free_users (.object fields) db
    · obtain ⟨db', hwalk, hdomains, hindex⟩ := walk_index_loose (assoc.entries fields) db
      refine ⟨true, db', ?_, hdomains, ?_⟩
      · simp only [hchecked.mpr hfree, not_true_eq_false, if_false]
        exact hwalk
      intro entity id
      simpa only [mem_entries_keys_iff, hfree, and_true] using hindex entity id
    refine ⟨false, db, ?_, rfl, fun entity id => .inr ⟨fun h => hfree h.2.2, rfl⟩⟩
    rw [if_pos]
    exact fun h => hfree (hchecked.mp h)
  | _ =>
    refine ⟨false, db, rfl, rfl, fun entity id => .inr ⟨?_, rfl⟩⟩
    rintro ⟨_, hmember, _⟩
    simp [is_member, Json.object_get] at hmember

end Update

end openvocs.vocs_db
