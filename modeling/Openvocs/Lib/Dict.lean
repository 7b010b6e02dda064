import Mathlib.Data.List.Perm.Basic
import Openvocs.Lib.Assoc

open List Option

/-- Entries with distinct keys. -/
structure Dict (κ α : Type) where
  entries : List (κ × α)
  nodup : (entries.map Prod.fst).Nodup

namespace Dict

variable {κ α : Type}

def empty : Dict κ α := ⟨[], nodup_nil⟩

def keys (d : Dict κ α) : List κ := d.entries.map Prod.fst

def size (d : Dict κ α) : Nat := d.entries.length

variable [DecidableEq κ]

def get (d : Dict κ α) (key : κ) : Option α := d.entries.lookup key

/-- Replaces the value of a key that is there. -/
def replaced (key : κ) (value : α) (entries : List (κ × α)) : List (κ × α) :=
  entries.map fun entry => if entry.1 = key then (key, value) else entry

/-- Inserts a key that is not there. -/
def inserted (rank : κ → Nat) (key : κ) (value : α) (entries : List (κ × α)) : List (κ × α) :=
  entries.takeWhile (fun entry => decide (rank entry.1 ≤ rank key)) ++
    (key, value) :: entries.dropWhile (fun entry => decide (rank entry.1 ≤ rank key))

theorem replaced_keys (key : κ) (value : α) (entries : List (κ × α)) :
    (replaced key value entries).map Prod.fst = entries.map Prod.fst := by
  rw [replaced, List.map_map]
  apply map_congr_left
  intro entry _
  by_cases hkey : entry.1 = key <;> simp [hkey]

omit [DecidableEq κ] in
theorem inserted_perm (rank : κ → Nat) (key : κ) (value : α) (entries : List (κ × α)) :
    (inserted rank key value entries).Perm ((key, value) :: entries) := by
  have hsplit := takeWhile_append_dropWhile (p := fun entry : κ × α => decide (rank entry.1 ≤ rank key))
    (l := entries)
  calc inserted rank key value entries
    List.Perm _ ((key, value) :: (entries.takeWhile (fun entry => decide (rank entry.1 ≤ rank key)) ++
        entries.dropWhile (fun entry => decide (rank entry.1 ≤ rank key)))) := perm_middle
    _ = (key, value) :: entries := by rw [hsplit]

theorem lookup_replaced (key : κ) (value : α) (entries : List (κ × α)) (other : κ) :
    (replaced key value entries).lookup other =
      if other = key then (entries.lookup key).map fun _ => value else entries.lookup other := by
  induction entries with
  | nil => simp [replaced]
  | cons entry rest ih =>
    rw [replaced, map_cons, ← replaced, assoc.lookup_cons_eq, assoc.lookup_cons_eq, assoc.lookup_cons_eq, ih]
    by_cases hkey : entry.1 = key
    · by_cases hother : other = key <;> simp [hkey, hother]
    · by_cases hother : other = key <;> simp [hkey, hother, Ne.symm hkey]

theorem not_mem_keys_iff {d : Dict κ α} {key : κ} : key ∉ d.keys ↔ d.get key = none := by
  rw [get, lookup_eq_none_iff, keys]
  simp only [List.mem_map, not_exists, not_and, bne_iff_ne, ne_eq]
  constructor
  · exact fun h entry hmem heq => h entry hmem heq.symm
  · exact fun h entry hmem heq => h entry hmem heq.symm

/-- The entry of a key after all others. -/
def set (d : Dict κ α) (key : κ) (value : α) (rank : κ → Nat := fun _ => 0) : Dict κ α :=
  if h : key ∈ d.keys then ⟨replaced key value d.entries, by rw [replaced_keys]; exact d.nodup⟩
  else
    ⟨inserted rank key value d.entries,
      ((inserted_perm rank key value d.entries).map Prod.fst).nodup_iff.mpr (nodup_cons.mpr ⟨h, d.nodup⟩)⟩

def del (d : Dict κ α) (key : κ) : Dict κ α :=
  ⟨assoc.erase key d.entries, d.nodup.sublist (filter_sublist.map Prod.fst)⟩

variable {d : Dict κ α}

theorem mem_entries_iff {key : κ} {value : α} : (key, value) ∈ d.entries ↔ d.get key = some value :=
  assoc.mem_iff_lookup_of_nodup d.nodup key value

omit [DecidableEq κ] in
@[simp] theorem get_empty [DecidableEq κ] (key : κ) : (empty : Dict κ α).get key = none := rfl

@[simp] theorem get_del (d : Dict κ α) (key other : κ) :
    (d.del key).get other = if other = key then none else d.get other :=
  assoc.lookup_erase key d.entries other

theorem get_foldl_del (keys : List κ) (d : Dict κ α) (other : κ) :
    (keys.foldl (fun d key => d.del key) d).get other = if other ∈ keys then none else d.get other := by
  induction keys generalizing d with
  | nil => simp
  | cons key keys ih =>
    rw [foldl_cons, ih, get_del]
    by_cases hkey : other = key <;> by_cases hkeys : other ∈ keys <;> simp [hkey, hkeys]

theorem set_perm_of_new {key : κ} (h : d.get key = none) (value : α) (rank : κ → Nat) :
    (d.set key value rank).entries.Perm ((key, value) :: d.entries) := by
  have hnot : key ∉ d.keys := not_mem_keys_iff.mpr h
  rw [set, dif_neg hnot]
  exact inserted_perm rank key value d.entries

theorem get_set (d : Dict κ α) (key : κ) (value : α) (rank : κ → Nat) (other : κ) :
    (d.set key value rank).get other = if other = key then some value else d.get other := by
  by_cases hkey : key ∈ d.keys
  · have hget : d.get key ≠ none := fun hnone => not_mem_keys_iff.mpr hnone hkey
    obtain ⟨old, hold⟩ := ne_none_iff_exists'.mp hget
    rw [set, dif_pos hkey, get, lookup_replaced, show d.entries.lookup key = some old from hold]
    rfl
  have hnone := not_mem_keys_iff.mp hkey
  apply Option.ext
  intro found
  rw [← mem_entries_iff, (set_perm_of_new hnone value rank).mem_iff, mem_cons, mem_entries_iff]
  by_cases hother : other = key
  · simp [hother, hnone, eq_comm]
  · simp [hother]

theorem perm_del {key : κ} {value : α} (h : d.get key = some value) :
    d.entries.Perm ((key, value) :: (d.del key).entries) := by
  have hmem := mem_entries_iff.mpr h
  have hnodup : d.entries.Nodup := d.nodup.of_map Prod.fst
  have hrest : ((key, value) :: (d.del key).entries).Nodup := by
    refine nodup_cons.mpr ⟨?_, hnodup.sublist filter_sublist⟩
    rw [mem_entries_iff, get_del]
    simp
  refine (perm_ext_iff_of_nodup hnodup hrest).mpr fun ⟨k, v⟩ => ?_
  rw [mem_cons, mem_entries_iff, mem_entries_iff, get_del]
  by_cases hk : k = key
  · simp [hk, h, eq_comm]
  · simp [hk]

theorem del_of_new {key : κ} (h : d.get key = none) : (d.del key).entries = d.entries := by
  refine filter_eq_self.mpr fun entry hmem => ?_
  have hkey : entry.1 ≠ key := by
    intro heq
    have hget := mem_entries_iff.mp (show (entry.1, entry.2) ∈ d.entries from hmem)
    rw [heq, h] at hget
    simp at hget
  simpa using hkey

theorem mem_keys_iff {key : κ} : key ∈ d.keys ↔ d.get key ≠ none := by
  rw [← not_iff_not, not_mem_keys_iff, not_not]

theorem size_set_of_new {key : κ} (h : d.get key = none) (value : α) (rank : κ → Nat) :
    (d.set key value rank).size = d.size + 1 := by
  have hlength := (set_perm_of_new h value rank).length_eq
  rwa [length_cons] at hlength

theorem size_del {key : κ} {value : α} (h : d.get key = some value) : d.size = (d.del key).size + 1 := by
  have hlength := (perm_del h).length_eq
  rwa [length_cons] at hlength

end Dict
