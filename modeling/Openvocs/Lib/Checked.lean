import Mathlib.Data.List.Basic

namespace checked

variable {α : Type}

/-- One value. -/
def get (m : List α) (p : Nat) : Option α := m[p]?

/-- A number of values, all at once. -/
def slice (m : List α) (p n : Nat) : Option (List α) :=
  if p + n ≤ m.length then some ((m.drop p).take n) else none

/-- A difference of sizes without a sign. -/
def sub (a b : Nat) : Option Nat := if b ≤ a then some (a - b) else none

/-- Where a suffix of the data begins. -/
def place (m s : List α) : Nat := m.length - s.length

variable {m s rest : List α} {c : α} {n a b : Nat}

@[simp] theorem sub_of_le (h : b ≤ a) : sub a b = some (a - b) := if_pos h

@[simp] theorem place_self (m : List α) : place m m = 0 := Nat.sub_self _

theorem drop_place (h : s <:+ m) : m.drop (place m s) = s := by
  obtain ⟨before, rfl⟩ := h
  rw [place, List.length_append, Nat.add_sub_cancel, List.drop_left]

theorem place_add_length (h : s <:+ m) : place m s + s.length = m.length := Nat.sub_add_cancel h.length_le

theorem get_place (h : c :: rest <:+ m) : get m (place m (c :: rest)) = some c := by
  have hhead := List.head?_drop (l := m) (i := place m (c :: rest))
  rw [drop_place h, List.head?_cons] at hhead
  exact hhead.symm

theorem place_drop (h : s <:+ m) (hn : n ≤ s.length) : place m s + n = place m (s.drop n) := by
  have hwhole := place_add_length h
  rw [place, place, List.length_drop]
  rw [place] at hwhole
  omega

theorem place_tail (h : c :: rest <:+ m) : place m (c :: rest) + 1 = place m rest :=
  place_drop h (Nat.succ_le_succ (Nat.zero_le rest.length))

theorem slice_place (h : s <:+ m) (hn : n ≤ s.length) : slice m (place m s) n = some (s.take n) := by
  have hwhole := place_add_length h
  rw [slice, if_pos (by omega), drop_place h]

theorem sub_place (h : rest <:+ s) (hs : s <:+ m) :
    sub (place m rest) (place m s) = some (s.length - rest.length) := by
  have hshorter := h.length_le
  have hlonger := hs.length_le
  rw [place, place, sub_of_le (by omega)]
  congr 1
  omega

end checked
