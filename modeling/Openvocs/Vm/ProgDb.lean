import Openvocs.Lib.Dict
import Openvocs.Vm.Program

open List Option

namespace openvocs.vm

def default_number_slots : Nat := 64

def prog_id_max_len : Nat := 255

/-- The start time of a slot without a program. -/
def uint64_max : Nat := 2 ^ 64 - 1

def is_id_valid (id : String) : Prop := 0 < id.utf8ByteSize ∧ id.utf8ByteSize < prog_id_max_len

instance (id : String) : Decidable (is_id_valid id) := inferInstanceAs (Decidable (_ ∧ _))

/-- An entry of the pool. It is `OV_VM_PROG_INVALID` without a program. -/
structure ProgState (δ : Type) where
  id : String := ""
  prog : Option Program := none
  data : Option δ := none
  start_time_epoch_usecs : Nat := uint64_max

/-- `ov_vm_prog_db`. The slots of the pool go by their index, and the top of the
    stack of the available ones comes first. -/
structure ProgDb (δ : Type) where
  store : Dict String Nat
  aliases : Dict String String
  pool : List (ProgState δ)
  available : List Nat

namespace ProgDb

variable {δ : Type} (bucket : String → Nat) (db : ProgDb δ)

def capacity (slots : Nat) : Nat := if slots = 0 then default_number_slots else slots

def ov_vm_prog_db_create (slots : Nat) : ProgDb δ where
  store := .empty
  aliases := .empty
  pool := List.replicate (capacity slots) {}
  available := (List.range (capacity slots)).reverse

/-- `clear_state`. The id stays. The data go to `release_data`, unless there are none. -/
def clear_state (state : ProgState δ) : ProgState δ := { id := state.id }

def get_unaliased_id (aliases : Dict String String) (name : String) : String :=
  (aliases.get name).getD name

def prog_for_id (id : String) : Option Nat := db.store.get (get_unaliased_id db.aliases id)

def ov_vm_prog_db_get (id : String) : Option Nat := if is_id_valid id then db.prog_for_id id else none

def fresh_prog_state : Option Nat × ProgDb δ :=
  match db.available with
  | [] => (none, db)
  | slot :: rest => (some slot, { db with available := rest })

/-- `init_prog_state_unsafe`, with the start time of `insert_prog`. -/
def init_prog_state (now : Nat) (id : String) (instructions : List Opcode) (data : Option δ) : ProgState δ where
  id := id
  prog := some { instructions }
  data := data
  start_time_epoch_usecs := now

def register_prog (slot : Nat) (id : String) : Option Nat × ProgDb δ :=
  (if db.store.get id = none then some slot else none, { db with store := db.store.set id slot bucket })

/-- `ov_vm_prog_db_insert`. It tells the slot of the program. -/
def ov_vm_prog_db_insert (now : Nat) (id : String) (instructions : Option (List Opcode)) (data : Option δ) :
    Option Nat × ProgDb δ :=
  match instructions with
  | none => (none, db)
  | some instructions =>
    if is_id_valid id ∧ db.ov_vm_prog_db_get id = none then
      match db.fresh_prog_state with
      | (none, db) => (none, db)
      | (some slot, db) =>
        { db with pool := db.pool.set slot (init_prog_state now id instructions data) }.register_prog bucket slot id
    else (none, db)

def ov_vm_prog_db_alias (id name : String) : Bool × ProgDb δ :=
  let unaliased_id := get_unaliased_id db.aliases id
  match db.ov_vm_prog_db_get unaliased_id, db.ov_vm_prog_db_get name with
  | none, _ => (false, db)
  | some prog_of_id, some prog_of_alias => (decide (prog_of_id = prog_of_alias), db)
  | some _, none => (true, { db with aliases := db.aliases.set name unaliased_id bucket })

/-- `release_prog`, with the data that are passed to `release_data`. It is `none`
    at the assertion. -/
def release_prog : Option Nat → Option (Option δ × ProgDb δ)
  | none => some (none, db)
  | some slot =>
    if db.available.length + 1 ≤ db.pool.length then
      some (db.pool[slot]?.bind ProgState.data,
        { db with pool := db.pool.modify slot clear_state, available := slot :: db.available })
    else none

/-- `insert_alias_if_space_left`. The array is filled from the front. The loop looks
    at six entries, and the sixth is outside of it. -/
def insert_alias_if_space_left (gathered : List String) (name : String) : Option (List String) :=
  if gathered.length < 5 then some (gathered ++ [name]) else none

/-- `gather_aliases_for`, for each entry of the table. -/
def gather_aliases_for (id : String) : List (String × String) → List String → Option (List String)
  | [], gathered => some gathered
  | (name, target) :: rest, gathered =>
    if target = id then (insert_alias_if_space_left gathered name).bind (gather_aliases_for id rest)
    else gather_aliases_for id rest gathered

/-- The `for` loop in `remove_aliases_for`. -/
def remove_gathered (gathered : List String) (aliases : Dict String String) : Dict String String :=
  gathered.foldl Dict.del aliases

/-- The `while` loop in `remove_aliases_for`. Every round takes out an alias, so that
    there are not more rounds than aliases. -/
def remove_rounds (id : String) : Nat → Dict String String → List String → Option (Dict String String)
  | _, aliases, [] => some aliases
  | 0, _, _ :: _ => none
  | rounds + 1, aliases, name :: gathered =>
    let aliases := remove_gathered (name :: gathered) aliases
    (gather_aliases_for id aliases.entries []).bind (remove_rounds id rounds aliases)

def remove_aliases_for (aliases : Dict String String) (id : String) : Option (Dict String String) :=
  (gather_aliases_for id aliases.entries []).bind (remove_rounds id aliases.size aliases)

def remove_internal (id : String) : Option (Option δ × ProgDb δ) :=
  ({ db with store := db.store.del id }.release_prog (db.store.get id)).bind fun (data, db) =>
    (remove_aliases_for db.aliases id).map fun aliases => (data, { db with aliases })

/-- `ov_vm_prog_db_remove`, with the data that are passed to `release_data`. -/
def ov_vm_prog_db_remove (id : String) : Option (Option δ × ProgDb δ) :=
  db.remove_internal (get_unaliased_id db.aliases id)

def ov_vm_prog_db_update_time (now : Nat) (id : String) : Bool × ProgDb δ :=
  match db.ov_vm_prog_db_get id with
  | none => (false, db)
  | some slot => (true, { db with pool := db.pool.modify slot ({ · with start_time_epoch_usecs := now }) })

def ov_vm_prog_db_next_due (time_limit_epoch_usecs : Nat) : Option String :=
  (db.pool.find? fun state => state.start_time_epoch_usecs < time_limit_epoch_usecs).map ProgState.id

end ProgDb

/-- The calls of the users of the store. -/
inductive Call (δ : Type) where
  | insert (now : Nat) (id : String) (instructions : Option (List Opcode)) (data : Option δ)
  | add_alias (id name : String)
  | get (id : String)
  | remove (id : String)
  | update_time (now : Nat) (id : String)

namespace ProgDb

variable {δ : Type} (bucket : String → Nat)

def call : Call δ → ProgDb δ → Option (ProgDb δ)
  | .insert now id instructions data, db => some (db.ov_vm_prog_db_insert bucket now id instructions data).2
  | .add_alias id name, db => some (db.ov_vm_prog_db_alias bucket id name).2
  | .get _, db => some db
  | .remove id, db => (db.ov_vm_prog_db_remove id).map Prod.snd
  | .update_time now id, db => some (db.ov_vm_prog_db_update_time now id).2

/-- The aliases of a program, in the order of the table. -/
def aliases_of (aliases : Dict String String) (id : String) : List String :=
  (aliases.entries.filter fun entry => entry.2 = id).map Prod.fst

/-- A program that is removed has at most five aliases. -/
def FewAliases (db : ProgDb δ) : Call δ → Prop
  | .remove id => (aliases_of db.aliases (get_unaliased_id db.aliases id)).length ≤ 5
  | _ => True

instance (db : ProgDb δ) : ∀ call, Decidable (FewAliases db call)
  | .remove _ => inferInstanceAs (Decidable (_ ≤ 5))
  | .insert _ _ _ _ => isTrue trivial
  | .add_alias _ _ => isTrue trivial
  | .get _ => isTrue trivial
  | .update_time _ _ => isTrue trivial

/-- Every slot is available or stored, and every alias is a second name of a
    program that is stored. -/
structure Consistent (db : ProgDb δ) : Prop where
  slots : (db.available ++ db.store.entries.map Prod.snd).Perm (List.range db.pool.length)
  stored : ∀ id slot, db.store.get id = some slot →
    is_id_valid id ∧ ∃ state, db.pool[slot]? = some state ∧ state.id = id ∧ state.prog.isSome
  cleared : ∀ slot ∈ db.available, ∃ id, db.pool[slot]? = some { id := id }
  alias_is_no_id : ∀ name id, db.aliases.get name = some id → db.store.get name = none
  alias_target : ∀ name id, db.aliases.get name = some id → db.store.get id ≠ none

/-- The program is gone, with all its aliases, and nothing else is. -/
structure Removed (id : String) (db db' : ProgDb δ) : Prop where
  store : ∀ other, db'.store.get other = if other = id then none else db.store.get other
  aliases : ∀ name target, db'.aliases.get name = some target ↔ db.aliases.get name = some target ∧ target ≠ id
  pool : ∀ slot, db.store.get id ≠ some slot → db'.pool[slot]? = db.pool[slot]?

variable {bucket : String → Nat} {db : ProgDb δ} {id : String}

theorem gather_aliases_for_eq (id : String) (entries : List (String × String)) (gathered : List String)
    (hgathered : gathered.length ≤ 5) :
    gather_aliases_for id entries gathered =
      if gathered.length + (entries.filter fun entry => entry.2 = id).length ≤ 5 then
        some (gathered ++ (entries.filter fun entry => entry.2 = id).map Prod.fst)
      else none := by
  induction entries generalizing gathered with
  | nil => simp [gather_aliases_for, hgathered]
  | cons entry rest ih =>
    obtain ⟨name, target⟩ := entry
    rw [gather_aliases_for]
    by_cases htarget : target = id
    · rw [if_pos htarget, insert_alias_if_space_left]
      by_cases hspace : gathered.length < 5
      · rw [if_pos hspace, bind_some, ih _ (by simp; omega)]
        simp [htarget, Nat.add_assoc, Nat.add_comm 1]
      rw [if_neg hspace, bind_none, if_neg]
      simp only [htarget, decide_true, filter_cons_of_pos, length_cons]
      omega
    · rw [if_neg htarget, ih gathered hgathered, filter_cons_of_neg (by simpa using htarget)]

theorem gather_aliases_for_table (aliases : Dict String String) (id : String) :
    gather_aliases_for id aliases.entries [] =
      if (aliases_of aliases id).length ≤ 5 then some (aliases_of aliases id) else none := by
  rw [gather_aliases_for_eq id aliases.entries [] (by simp)]
  simp [aliases_of]

variable {aliases : Dict String String}

theorem mem_aliases_of {name : String} :
    name ∈ aliases_of aliases id ↔ aliases.get name = some id := by
  rw [← Dict.mem_entries_iff]
  simp [aliases_of]

theorem get_remove_gathered (gathered : List String) (aliases : Dict String String) (name : String) :
    (remove_gathered gathered aliases).get name = if name ∈ gathered then none else aliases.get name := by
  induction gathered generalizing aliases with
  | nil => simp [remove_gathered]
  | cons first rest ih =>
    rw [remove_gathered, foldl_cons, ← remove_gathered, ih, Dict.get_del]
    by_cases hfirst : name = first <;> by_cases hrest : name ∈ rest <;> simp [hfirst, hrest]

theorem remove_aliases_for_of_few (hfew : (aliases_of aliases id).length ≤ 5) :
    remove_aliases_for aliases id = some (remove_gathered (aliases_of aliases id) aliases) := by
  rw [remove_aliases_for, gather_aliases_for_table, if_pos hfew, bind_some]
  cases hgathered : aliases_of aliases id with
  | nil => simp [remove_rounds, remove_gathered]
  | cons name gathered =>
    have hsize : aliases.size ≠ 0 := by
      intro hzero
      have hnil : aliases.entries = [] := length_eq_zero_iff.mp hzero
      simp [aliases_of, hnil] at hgathered
    obtain ⟨rounds, hrounds⟩ := Nat.exists_eq_succ_of_ne_zero hsize
    have hnone : aliases_of (remove_gathered (name :: gathered) aliases) id = [] := by
      refine eq_nil_iff_forall_not_mem.mpr fun other hother => ?_
      rw [mem_aliases_of, get_remove_gathered, ← hgathered] at hother
      by_cases htarget : other ∈ aliases_of aliases id
      · rw [if_pos htarget] at hother
        simp at hother
      rw [if_neg htarget] at hother
      exact htarget (mem_aliases_of.mpr hother)
    rw [hrounds, remove_rounds, gather_aliases_for_table, hnone]
    cases rounds <;> rfl

theorem remove_aliases_for_of_many (hmany : ¬ (aliases_of aliases id).length ≤ 5) :
    remove_aliases_for aliases id = none := by
  rw [remove_aliases_for, gather_aliases_for_table, if_neg hmany, bind_none]

theorem stored_of_get {slot : Nat} (hget : db.ov_vm_prog_db_get id = some slot) :
    db.store.get (get_unaliased_id db.aliases id) = some slot := by
  by_cases hvalid : is_id_valid id
  · rwa [ov_vm_prog_db_get, if_pos hvalid, prog_for_id] at hget
  rw [ov_vm_prog_db_get, if_neg hvalid] at hget
  simp at hget

namespace Consistent

variable (h : Consistent db)
include h

theorem nodup : (db.available ++ db.store.entries.map Prod.snd).Nodup := h.slots.nodup_iff.mpr nodup_range

theorem size_add_length : db.available.length + db.store.size = db.pool.length := by
  have hlength := h.slots.length_eq
  rwa [length_append, length_map, length_range] at hlength

theorem mem_or_stored {slot : Nat} (hslot : slot < db.pool.length) :
    slot ∈ db.available ∨ ∃ id, db.store.get id = some slot := by
  have hmem := h.slots.mem_iff.mpr (mem_range.mpr hslot)
  rw [mem_append, List.mem_map] at hmem
  obtain hfree | ⟨entry, hentry, hvalue⟩ := hmem
  · exact Or.inl hfree
  · exact Or.inr ⟨entry.1, hvalue ▸ Dict.mem_entries_iff.mp hentry⟩

theorem not_mem_of_stored {slot : Nat} (hstored : db.store.get id = some slot) : slot ∉ db.available := by
  intro hfree
  have hmem : slot ∈ db.store.entries.map Prod.snd := List.mem_map.mpr ⟨_, Dict.mem_entries_iff.mpr hstored, rfl⟩
  exact (nodup_append.mp h.nodup).2.2 slot hfree slot hmem rfl

theorem id_unique {other : String} {slot : Nat} (hid : db.store.get id = some slot)
    (hother : db.store.get other = some slot) : id = other := by
  obtain ⟨_, state, hstate, hown, _⟩ := h.stored id slot hid
  obtain ⟨_, state', hstate', hown', _⟩ := h.stored other slot hother
  rw [hstate, some.injEq] at hstate'
  rw [← hown, ← hown', hstate']

theorem unaliased_of_stored (hstored : db.store.get id ≠ none) : get_unaliased_id db.aliases id = id := by
  cases halias : db.aliases.get id with
  | none => simp [get_unaliased_id, halias]
  | some target => exact absurd (h.alias_is_no_id id target halias) hstored

theorem unknown_of_prog_for_id (hnone : db.prog_for_id id = none) :
    db.aliases.get id = none ∧ db.store.get id = none := by
  cases halias : db.aliases.get id with
  | none => exact ⟨rfl, by simpa [prog_for_id, get_unaliased_id, halias] using hnone⟩
  | some target =>
    have htarget := h.alias_target id target halias
    simp [prog_for_id, get_unaliased_id, halias] at hnone
    exact absurd hnone htarget

theorem not_stored_of_get (hnone : db.ov_vm_prog_db_get id = none) : db.store.get id = none := by
  by_cases hvalid : is_id_valid id
  · rw [ov_vm_prog_db_get, if_pos hvalid] at hnone
    exact (h.unknown_of_prog_for_id hnone).2
  cases hstored : db.store.get id with
  | none => rfl
  | some slot => exact absurd (h.stored id slot hstored).1 hvalid

theorem get_of_stored {slot : Nat} (hstored : db.store.get id = some slot) :
    db.ov_vm_prog_db_get id = some slot := by
  have hne : db.store.get id ≠ none := by simp [hstored]
  rw [ov_vm_prog_db_get, if_pos (h.stored id slot hstored).1, prog_for_id, h.unaliased_of_stored hne, hstored]

end Consistent

theorem Consistent.ov_vm_prog_db_create (slots : Nat) : Consistent (ov_vm_prog_db_create slots : ProgDb δ) where
  slots := by
    simp only [vm.ProgDb.ov_vm_prog_db_create, Dict.empty, map_nil, List.append_nil, length_replicate]
    exact reverse_perm _
  stored id slot hstored := by simp [vm.ProgDb.ov_vm_prog_db_create] at hstored
  cleared slot hslot := by
    simp only [vm.ProgDb.ov_vm_prog_db_create, mem_reverse, mem_range] at hslot
    exact ⟨"", by simp [vm.ProgDb.ov_vm_prog_db_create, hslot]⟩
  alias_is_no_id name id halias := by simp [vm.ProgDb.ov_vm_prog_db_create] at halias
  alias_target name id halias := by simp [vm.ProgDb.ov_vm_prog_db_create] at halias

/-- The store with a new program in the slot on the top of the stack. -/
def inserted (bucket : String → Nat) (now : Nat) (id : String) (instructions : List Opcode) (data : Option δ)
    (slot : Nat) (rest : List Nat) (db : ProgDb δ) : ProgDb δ where
  store := db.store.set id slot bucket
  aliases := db.aliases
  pool := db.pool.set slot (init_prog_state now id instructions data)
  available := rest

section

variable (h : Consistent db)

include h

theorem Consistent.insert_cases (bucket : String → Nat) (now : Nat) (id : String) (instructions : Option (List Opcode))
    (data : Option δ) :
    db.ov_vm_prog_db_insert bucket now id instructions data = (none, db) ∧
        (instructions = none ∨ ¬ is_id_valid id ∨ db.ov_vm_prog_db_get id ≠ none ∨ db.available = []) ∨
      ∃ list slot rest, instructions = some list ∧ is_id_valid id ∧ db.available = slot :: rest ∧
        db.aliases.get id = none ∧ db.store.get id = none ∧
        db.ov_vm_prog_db_insert bucket now id instructions data =
          (some slot, db.inserted bucket now id list data slot rest) := by
  cases instructions with
  | none => exact Or.inl ⟨rfl, Or.inl rfl⟩
  | some list =>
    by_cases hnew : is_id_valid id ∧ db.ov_vm_prog_db_get id = none
    · obtain ⟨hvalid, hget⟩ := hnew
      have hunknown : db.aliases.get id = none ∧ db.store.get id = none := by
        rw [ov_vm_prog_db_get, if_pos hvalid] at hget
        exact h.unknown_of_prog_for_id hget
      cases havailable : db.available with
      | nil =>
        refine Or.inl ⟨?_, Or.inr (Or.inr (Or.inr rfl))⟩
        simp [ov_vm_prog_db_insert, hvalid, hget, fresh_prog_state, havailable]
      | cons slot rest =>
        refine Or.inr ⟨list, slot, rest, rfl, hvalid, rfl, hunknown.1, hunknown.2, ?_⟩
        simp [ov_vm_prog_db_insert, hvalid, hget, fresh_prog_state, havailable, register_prog, hunknown.2, inserted]
    refine Or.inl ⟨?_, ?_⟩
    · simp only [ov_vm_prog_db_insert, if_neg hnew]
    by_cases hvalid : is_id_valid id
    · exact Or.inr (Or.inr (Or.inl fun hget => hnew ⟨hvalid, hget⟩))
    · exact Or.inr (Or.inl hvalid)

theorem Consistent.inserted {slot : Nat} {rest : List Nat} (hvalid : is_id_valid id)
    (havailable : db.available = slot :: rest) (halias : db.aliases.get id = none)
    (hstore : db.store.get id = none) (now : Nat) (list : List Opcode) (data : Option δ) :
    Consistent (db.inserted bucket now id list data slot rest) := by
  have hmem : slot ∈ db.available := by simp [havailable]
  obtain ⟨_, hcleared⟩ := h.cleared slot hmem
  have hlt : slot < db.pool.length := (List.getElem?_eq_some_iff.mp hcleared).1
  have hnodup := (nodup_append.mp h.nodup).1
  rw [havailable, nodup_cons] at hnodup
  refine ⟨?_, ?_, ?_, ?_, ?_⟩
  · simp only [vm.ProgDb.inserted, length_set]
    refine List.Perm.trans ?_ h.slots
    rw [havailable]
    refine List.Perm.trans ((((Dict.set_perm_of_new hstore slot bucket).map Prod.snd)).append_left rest) ?_
    exact perm_middle
  · intro other slot' hstored
    simp only [vm.ProgDb.inserted, Dict.get_set] at hstored
    by_cases hother : other = id
    · rw [if_pos hother, some.injEq] at hstored
      rw [hother, ← hstored]
      exact ⟨hvalid, _, getElem?_set_self hlt, rfl, rfl⟩
    rw [if_neg hother] at hstored
    have hne : slot ≠ slot' := fun heq => h.not_mem_of_stored hstored (heq ▸ hmem)
    obtain ⟨hother_valid, state, hstate, hrest⟩ := h.stored other slot' hstored
    exact ⟨hother_valid, state, by simpa [vm.ProgDb.inserted, getElem?_set_ne hne] using hstate, hrest⟩
  · intro slot' hslot'
    have hne : slot ≠ slot' := fun heq => hnodup.1 (heq ▸ hslot')
    obtain ⟨old, hold⟩ := h.cleared slot' (by rw [havailable]; exact mem_cons_of_mem _ hslot')
    exact ⟨old, by simpa [vm.ProgDb.inserted, getElem?_set_ne hne] using hold⟩
  · intro name target htarget
    have hne : name ≠ id := by
      intro heq
      rw [heq] at htarget
      simp [vm.ProgDb.inserted, halias] at htarget
    simp only [vm.ProgDb.inserted, Dict.get_set, if_neg hne]
    exact h.alias_is_no_id name target htarget
  intro name target htarget
  simp only [vm.ProgDb.inserted, Dict.get_set]
  by_cases hsame : target = id
  · simp [hsame]
  rw [if_neg hsame]
  exact h.alias_target name target htarget

theorem Consistent.ov_vm_prog_db_insert (now : Nat) (id : String)
    (instructions : Option (List Opcode)) (data : Option δ) :
    Consistent (db.ov_vm_prog_db_insert bucket now id instructions data).2 := by
  obtain ⟨hsame, _⟩ | ⟨list, slot, rest, _, hvalid, havailable, halias, hstore, heq⟩ :=
    h.insert_cases bucket now id instructions data
  · rwa [hsame]
  rw [heq]
  exact h.inserted hvalid havailable halias hstore now list data

theorem Consistent.alias_cases (bucket : String → Nat) (id name : String) :
    (db.ov_vm_prog_db_alias bucket id name).2 = db ∨
      db.store.get (get_unaliased_id db.aliases id) ≠ none ∧ db.store.get name = none ∧
        (db.ov_vm_prog_db_alias bucket id name).2 =
          { db with aliases := db.aliases.set name (get_unaliased_id db.aliases id) bucket } := by
  cases hid : db.ov_vm_prog_db_get (get_unaliased_id db.aliases id) with
  | none => exact Or.inl (by simp [ov_vm_prog_db_alias, hid])
  | some slot =>
    cases halias : db.ov_vm_prog_db_get name with
    | some other => exact Or.inl (by simp [ov_vm_prog_db_alias, hid, halias])
    | none =>
      refine Or.inr ⟨?_, h.not_stored_of_get halias, by simp [ov_vm_prog_db_alias, hid, halias]⟩
      intro hnone
      cases hunaliased : db.aliases.get id with
      | some target =>
        rw [get_unaliased_id, hunaliased, getD_some] at hnone
        exact h.alias_target id target hunaliased hnone
      | none =>
        rw [get_unaliased_id, hunaliased, getD_none] at hnone hid
        have hstored := stored_of_get hid
        rw [get_unaliased_id, hunaliased, getD_none, hnone] at hstored
        simp at hstored

theorem Consistent.ov_vm_prog_db_alias (id name : String) :
    Consistent (db.ov_vm_prog_db_alias bucket id name).2 := by
  obtain hsame | ⟨hstored, hfree, heq⟩ := h.alias_cases bucket id name
  · rwa [hsame]
  rw [heq]
  refine ⟨h.slots, h.stored, h.cleared, ?_, ?_⟩
  · intro other target htarget
    simp only [Dict.get_set] at htarget
    by_cases hother : other = name
    · rwa [hother]
    rw [if_neg hother] at htarget
    exact h.alias_is_no_id other target htarget
  intro other target htarget
  simp only [Dict.get_set] at htarget
  by_cases hother : other = name
  · rw [if_pos hother, some.injEq] at htarget
    rwa [← htarget]
  rw [if_neg hother] at htarget
  exact h.alias_target other target htarget

theorem Consistent.modify {slot : Nat} (hstored : db.store.get id = some slot)
    {change : ProgState δ → ProgState δ}
    (hchange : ∀ state, (change state).id = state.id ∧ (state.prog.isSome → (change state).prog.isSome)) :
    Consistent { db with pool := db.pool.modify slot change } := by
  refine ⟨by simpa using h.slots, ?_, ?_, h.alias_is_no_id, h.alias_target⟩
  · intro other slot' hother
    obtain ⟨hvalid, state, hstate, hid, hprog⟩ := h.stored other slot' hother
    by_cases hsame : slot = slot'
    · refine ⟨hvalid, change state, by simp [hstate, hsame], ?_, (hchange state).2 hprog⟩
      rw [(hchange state).1, hid]
    · exact ⟨hvalid, state, by simp [hstate, hsame], hid, hprog⟩
  intro slot' hslot'
  have hne : slot ≠ slot' := fun heq => h.not_mem_of_stored hstored (heq ▸ hslot')
  obtain ⟨old, hold⟩ := h.cleared slot' hslot'
  exact ⟨old, by simp [hold, hne]⟩

theorem Consistent.ov_vm_prog_db_update_time (now : Nat) (id : String) :
    Consistent (db.ov_vm_prog_db_update_time now id).2 := by
  cases hget : db.ov_vm_prog_db_get id with
  | none => simpa [vm.ProgDb.ov_vm_prog_db_update_time, hget] using h
  | some slot =>
    simp only [vm.ProgDb.ov_vm_prog_db_update_time, hget]
    exact h.modify (stored_of_get hget) fun state => ⟨rfl, fun hprog => hprog⟩

/-- The store without a program, and with all slots that it leaves. -/
def removed (id : String) (db : ProgDb δ) : ProgDb δ where
  store := db.store.del id
  aliases := remove_gathered (aliases_of db.aliases id) db.aliases
  pool := match db.store.get id with
    | none => db.pool
    | some slot => db.pool.modify slot clear_state
  available := match db.store.get id with
    | none => db.available
    | some slot => slot :: db.available

/-- The data of a program that is stored under an id. -/
def data_of (id : String) (db : ProgDb δ) : Option δ :=
  (db.store.get id).bind fun slot => db.pool[slot]?.bind ProgState.data

theorem Consistent.length_available_lt {slot : Nat} (hstored : db.store.get id = some slot) :
    db.available.length + 1 ≤ db.pool.length := by
  have hsize := Dict.size_del hstored
  have hsum := h.size_add_length
  omega

theorem Consistent.remove_internal_eq (hfew : (aliases_of db.aliases id).length ≤ 5) :
    db.remove_internal id = some (db.data_of id, db.removed id) := by
  cases hstored : db.store.get id with
  | none =>
    simp [remove_internal, release_prog, hstored, remove_aliases_for_of_few hfew, data_of, removed]
  | some slot =>
    have hroom := h.length_available_lt hstored
    simp [remove_internal, release_prog, hstored, hroom, remove_aliases_for_of_few hfew, data_of, removed]

end

theorem remove_internal_of_many (hmany : ¬ (aliases_of db.aliases id).length ≤ 5) :
    db.remove_internal id = none := by
  cases hstored : db.store.get id with
  | none => simp [remove_internal, release_prog, hstored, remove_aliases_for_of_many hmany]
  | some slot =>
    by_cases hroom : db.available.length + 1 ≤ db.pool.length
    · simp [remove_internal, release_prog, hstored, hroom, remove_aliases_for_of_many hmany]
    · simp [remove_internal, release_prog, hstored, hroom]

theorem get_removed_aliases (db : ProgDb δ) (id name target : String) :
    (db.removed id).aliases.get name = some target ↔ db.aliases.get name = some target ∧ target ≠ id := by
  simp only [removed, get_remove_gathered]
  by_cases hmem : name ∈ aliases_of db.aliases id
  · have htarget := mem_aliases_of.mp hmem
    rw [if_pos hmem, htarget, some.injEq]
    constructor
    · intro hnone
      simp at hnone
    intro hboth
    exact absurd hboth.1.symm hboth.2
  rw [if_neg hmem]
  refine ⟨fun hget => ⟨hget, fun heq => hmem (mem_aliases_of.mpr (heq ▸ hget))⟩, fun hboth => hboth.1⟩

theorem length_pool_removed (db : ProgDb δ) (id : String) : (db.removed id).pool.length = db.pool.length := by
  cases hstored : db.store.get id <;> simp [removed, hstored]

theorem getElem_pool_removed (db : ProgDb δ) (id : String) (slot : Nat) : (db.removed id).pool[slot]? =
      if db.store.get id = some slot then db.pool[slot]?.map clear_state else db.pool[slot]? := by
  cases hstored : db.store.get id with
  | none => simp [removed, hstored]
  | some own =>
    by_cases hsame : own = slot
    · simp [removed, hstored, hsame]
    · simp [removed, hstored, hsame]

theorem removed_spec (db : ProgDb δ) (id : String) : Removed id db (db.removed id) where
  store other := Dict.get_del db.store id other
  aliases := get_removed_aliases db id
  pool slot hslot := by rw [getElem_pool_removed, if_neg hslot]

theorem Consistent.removed (h : Consistent db) (id : String) : Consistent (db.removed id) := by
  refine ⟨?_, ?_, ?_, ?_, ?_⟩
  · rw [length_pool_removed]
    refine List.Perm.trans ?_ h.slots
    cases hstored : db.store.get id with
    | none => simp [vm.ProgDb.removed, hstored, Dict.del_of_new hstored]
    | some slot =>
      simp only [vm.ProgDb.removed, hstored, List.cons_append]
      exact List.Perm.trans perm_middle.symm
        (((Dict.perm_del hstored).map Prod.snd).symm.append_left db.available)
  · intro other slot hother
    have hne : other ≠ id := by
      intro heq
      simp [vm.ProgDb.removed, heq] at hother
    have hold : db.store.get other = some slot := by simpa [vm.ProgDb.removed, hne] using hother
    obtain ⟨hvalid, state, hstate, hrest⟩ := h.stored other slot hold
    refine ⟨hvalid, state, ?_, hrest⟩
    rw [getElem_pool_removed, if_neg fun hsame => hne (h.id_unique hold hsame), hstate]
  · intro slot hslot
    rw [getElem_pool_removed]
    cases hstored : db.store.get id with
    | none =>
      simp only [vm.ProgDb.removed, hstored] at hslot
      simpa using h.cleared slot hslot
    | some own =>
      simp only [vm.ProgDb.removed, hstored, mem_cons] at hslot
      by_cases hsame : own = slot
      · obtain ⟨_, state, hstate, _⟩ := h.stored id own hstored
        rw [if_pos (by rw [hsame]), ← hsame, hstate]
        exact ⟨state.id, rfl⟩
      rw [if_neg (by simpa using hsame)]
      obtain heq | hmem := hslot
      · exact absurd heq.symm hsame
      · exact h.cleared slot hmem
  · intro name target htarget
    have hold := (get_removed_aliases db id name target).mp htarget
    simp [vm.ProgDb.removed, h.alias_is_no_id name target hold.1]
  intro name target htarget
  have hold := (get_removed_aliases db id name target).mp htarget
  simpa [vm.ProgDb.removed, hold.2] using h.alias_target name target hold.1

theorem Consistent.remove_iff (h : Consistent db) (bucket : String → Nat) (id : String) :
    FewAliases db (.remove id) ↔
      ∃ db', call bucket (.remove id) db = some db' ∧ Removed (get_unaliased_id db.aliases id) db db' := by
  constructor
  · intro hfew
    refine ⟨db.removed (get_unaliased_id db.aliases id), ?_, removed_spec db _⟩
    rw [call, ov_vm_prog_db_remove, h.remove_internal_eq hfew]
    rfl
  intro hremoved
  obtain ⟨db', hcall, _⟩ := hremoved
  by_contra hmany
  rw [call, ov_vm_prog_db_remove, remove_internal_of_many hmany] at hcall
  simp at hcall

theorem length_pool_insert (h : Consistent db) (bucket : String → Nat) (now : Nat) (id : String)
    (instructions : Option (List Opcode)) (data : Option δ) :
    (db.ov_vm_prog_db_insert bucket now id instructions data).2.pool.length = db.pool.length := by
  obtain ⟨hsame, _⟩ | ⟨list, slot, rest, _, _, _, _, _, heq⟩ := h.insert_cases bucket now id instructions data
  · rw [hsame]
  · rw [heq, inserted, length_set]

theorem call_consistent (bucket : String → Nat) (h : Consistent db) (event : Call δ) (hfew : FewAliases db event) :
    ∃ db', call bucket event db = some db' ∧ Consistent db' ∧ db'.pool.length = db.pool.length := by
  cases event with
  | insert now id instructions data =>
    exact ⟨_, rfl, h.ov_vm_prog_db_insert now id instructions data, length_pool_insert h bucket now id _ data⟩
  | add_alias id name =>
    refine ⟨_, rfl, h.ov_vm_prog_db_alias id name, ?_⟩
    obtain hsame | ⟨_, _, heq⟩ := h.alias_cases bucket id name
    · rw [hsame]
    · rw [heq]
  | get id => exact ⟨db, rfl, h, rfl⟩
  | remove id =>
    refine ⟨db.removed (get_unaliased_id db.aliases id), ?_, h.removed _, length_pool_removed db _⟩
    rw [call, ov_vm_prog_db_remove, h.remove_internal_eq hfew]
    rfl
  | update_time now id =>
    refine ⟨_, rfl, h.ov_vm_prog_db_update_time now id, ?_⟩
    cases hget : db.ov_vm_prog_db_get id <;> simp [ov_vm_prog_db_update_time, hget]

/-- The slot is available once and has no program, or it has the program of an id
    under which it is stored. -/
def Placed (db : ProgDb δ) (slot : Nat) : Prop :=
  db.available.count slot = 1 ∧ (∀ id, db.store.get id ≠ some slot) ∨
    db.available.count slot = 0 ∧
      ∃ state, db.pool[slot]? = some state ∧ ∀ id, db.store.get id = some slot ↔ id = state.id

theorem Consistent.placed (h : Consistent db) {slot : Nat} (hslot : slot < db.pool.length) : Placed db slot := by
  obtain hfree | ⟨id, hstored⟩ := h.mem_or_stored hslot
  · have hnodup := (nodup_append.mp h.nodup).1
    exact Or.inl ⟨count_eq_one_of_mem hnodup hfree, fun id hstored => h.not_mem_of_stored hstored hfree⟩
  obtain ⟨_, state, hstate, hown, _⟩ := h.stored id slot hstored
  refine Or.inr ⟨count_eq_zero.mpr (h.not_mem_of_stored hstored), state, hstate, fun other => ?_⟩
  constructor
  · intro hother
    rw [hown, h.id_unique hother hstored]
  intro hother
  rwa [hother, hown]

/-- The pool, the stack, the store and the aliases agree after every run in which no
    program with more than five aliases is removed, and there is no run with another
    removal. -/
theorem run_prog_db (bucket : String → Nat) (slots : Nat) (calls : List (Call δ))
    (hfew : machine.along (call bucket) FewAliases calls (ov_vm_prog_db_create slots)) :
    ∃ db, machine.run (call bucket) calls (ov_vm_prog_db_create slots) = some db ∧
      (∀ slot, slot < capacity slots → Placed db slot) ∧
      db.store.size + db.available.length = capacity slots ∧
      (∀ name id, db.aliases.get name = some id → db.store.get name = none ∧ db.store.get id ≠ none) ∧
      ∀ id, FewAliases db (.remove id) ↔
        ∃ db', call bucket (.remove id) db = some db' ∧ Removed (get_unaliased_id db.aliases id) db db' := by
  have hstart : Consistent (ov_vm_prog_db_create slots : ProgDb δ) ∧
      (ov_vm_prog_db_create slots : ProgDb δ).pool.length = capacity slots :=
    ⟨.ov_vm_prog_db_create slots, by simp [ov_vm_prog_db_create]⟩
  obtain ⟨db, hrun, h, hlength⟩ := machine.run_defined
    (fun db => Consistent db ∧ db.pool.length = capacity slots) FewAliases
    (fun db event hdb hallowed => by
      obtain ⟨db', hcall, hdb', hlength⟩ := call_consistent bucket hdb.1 event hallowed
      exact ⟨db', hcall, hdb', hlength.trans hdb.2⟩) calls hstart hfew
  refine ⟨db, hrun, fun slot hslot => h.placed (hlength ▸ hslot), ?_, fun name id halias => ?_, h.remove_iff bucket⟩
  · rw [Nat.add_comm, h.size_add_length, hlength]
  · exact ⟨h.alias_is_no_id name id halias, h.alias_target name id halias⟩

/-- A program is removed by its alias. -/
theorem run_prog_db_one_alias : ∃ db : ProgDb Unit,
      machine.run (call fun _ => 0)
        [.insert 7 "call" (some [op_end]) none, .add_alias "call" "peer", .remove "peer"]
        (ov_vm_prog_db_create 2) = some db ∧
      (∀ slot, slot < 2 → Placed db slot) ∧ db.store.size + db.available.length = 2 := by
  obtain ⟨db, hrun, hplaced, hsum, _⟩ := run_prog_db (fun _ => 0) 2
    [.insert 7 "call" (some [op_end]) none, .add_alias "call" "peer", .remove "peer"]
    (by decide : machine.along (call fun _ => 0) FewAliases _ (ov_vm_prog_db_create 2 : ProgDb Unit))
  exact ⟨db, hrun, hplaced, hsum⟩

/-- A program with six aliases can not be removed without a look behind the array. -/
theorem six_aliases_overrun :
    let calls : List (Call Unit) :=
      .insert 7 "call" (some [op_end]) none :: ["1", "2", "3", "4", "5", "6"].map (.add_alias "call")
    (machine.run (call fun _ => 0) calls (ov_vm_prog_db_create 2)).isSome = true ∧
      machine.run (call fun _ => 0) (calls ++ [.remove "call"]) (ov_vm_prog_db_create 2) = none := by
  refine ⟨by decide, ?_⟩
  rw [← isNone_iff_eq_none]
  decide

end ProgDb

end openvocs.vm
