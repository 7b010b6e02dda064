import Mathlib.Data.List.Basic

namespace memory

variable {α : Type}

/-- The values from an address on. -/
def Holds (m : Nat → α) : Nat → List α → Prop
  | _, [] => True
  | p, c :: s => m p = c ∧ Holds m (p + 1) s

instance Holds.decidable [DecidableEq α] (m : Nat → α) : ∀ p s, Decidable (Holds m p s)
  | _, [] => isTrue trivial
  | p, c :: s => @instDecidableAnd (m p = c) (Holds m (p + 1) s) _ (Holds.decidable m (p + 1) s)

/-- What is read at an address. -/
def read (m : Nat → α) : Nat → Nat → List α
  | _, 0 => []
  | p, n + 1 => m p :: read m (p + 1) n

variable {m : Nat → α} {p n : Nat} {a b s : List α}

@[simp] theorem holds_nil : Holds m p ([] : List α) := trivial

@[simp] theorem holds_cons {c : α} : Holds m p (c :: s) ↔ m p = c ∧ Holds m (p + 1) s := Iff.rfl

@[simp] theorem holds_append : Holds m p (a ++ b) ↔ Holds m p a ∧ Holds m (p + a.length) b := by
  induction a generalizing p with
  | nil => simp
  | cons c a ih =>
    rw [List.cons_append, holds_cons, holds_cons, ih, and_assoc, List.length_cons,
      Nat.add_right_comm p 1, Nat.add_assoc p]

@[simp] theorem read_length : (read m p n).length = n := by
  induction n generalizing p with
  | zero => rfl
  | succ n ih => rw [read, List.length_cons, ih]

theorem Holds.read (h : Holds m p s) : read m p s.length = s := by
  induction s generalizing p with
  | nil => rfl
  | cons c s ih => rw [List.length_cons, memory.read, h.1, ih h.2]

theorem holds_read : Holds m p (read m p n) := by
  induction n generalizing p with
  | zero => trivial
  | succ n ih => exact ⟨rfl, ih⟩

theorem Holds.get (h : Holds m p s) {i : Nat} (hi : i < s.length) : m (p + i) = s[i] := by
  induction s generalizing p i with
  | nil => simp at hi
  | cons c s ih =>
    cases i with
    | zero => exact h.1
    | succ i =>
      rw [List.length_cons] at hi
      rw [List.getElem_cons_succ, ← ih h.2 (by omega)]
      congr 1
      omega

theorem Holds.shorter (h : Holds m p s) (ha : a <+: s) : Holds m p a := by
  obtain ⟨b, rfl⟩ := ha
  exact (holds_append.mp h).1

/-- The data, with anything behind it. -/
def of (s : List α) (beyond : Nat → α) (p : Nat) : α := (s[p]?).getD (beyond p)

theorem holds_of (s : List α) (beyond : Nat → α) : Holds (of s beyond) 0 s := by
  suffices h : ∀ a b : List α, s = a ++ b → Holds (of s beyond) a.length b by
    exact h [] s rfl
  intro a b
  induction b generalizing a with
  | nil => exact fun _ => trivial
  | cons c b ih =>
    intro hs
    refine ⟨?_, ?_⟩
    · simp [of, hs]
    · simpa using ih (a ++ [c]) (by simpa using hs)

section Find

variable [DecidableEq α]

/-- `memchr`: the first address, of a number of them, with the value. -/
def find (m : Nat → α) (c : α) : Nat → Nat → Option Nat
  | 0, _ => none
  | size + 1, p => if m p = c then some p else find m c size (p + 1)

theorem find_eq {c : α} {size : Nat} (h : Holds m p (a ++ c :: b)) (ha : c ∉ a)
    (hsize : a.length < size) : find m c size p = some (p + a.length) := by
  induction a generalizing p size with
  | nil =>
    obtain ⟨size, rfl⟩ := Nat.exists_eq_add_of_lt hsize
    exact if_pos h.1
  | cons x a ih =>
    rw [List.length_cons] at hsize ⊢
    cases size with
    | zero => omega
    | succ size =>
      obtain ⟨hne, hnot⟩ := not_or.mp (fun hor => ha (List.mem_cons.mpr hor))
      have hx : m p ≠ c := by
        rw [h.1]
        exact Ne.symm hne
      rw [find, if_neg hx, ih h.2 hnot (by omega)]
      congr 1
      omega

theorem find_none {c : α} {size : Nat} (h : Holds m p s) (hs : c ∉ s) (hsize : size ≤ s.length) :
    find m c size p = none := by
  induction s generalizing p size with
  | nil =>
    obtain rfl : size = 0 := by simpa using hsize
    rfl
  | cons x s ih =>
    cases size with
    | zero => rfl
    | succ size =>
      obtain ⟨hne, hnot⟩ := not_or.mp (fun hor => hs (List.mem_cons.mpr hor))
      have hx : m p ≠ c := by
        rw [h.1]
        exact Ne.symm hne
      rw [find, if_neg hx]
      exact ih h.2 hnot (by simpa using hsize)

theorem not_mem_of_find {c : α} (h : Holds m p s) (hfind : find m c s.length p = none) : c ∉ s := by
  intro hmem
  obtain ⟨a, b, rfl, ha⟩ := List.eq_append_cons_of_mem hmem
  rw [find_eq h ha (by simp)] at hfind
  cases hfind

theorem find_some {c : α} {size found : Nat} (hfind : find m c size p = some found) :
    p ≤ found ∧ found < p + size ∧ m found = c := by
  induction size generalizing p with
  | zero => cases hfind
  | succ size ih =>
    rw [find] at hfind
    split at hfind
    next hp =>
      cases hfind
      exact ⟨Nat.le_refl _, by omega, hp⟩
    next =>
      obtain ⟨hle, hlt, hc⟩ := ih hfind
      exact ⟨by omega, by omega, hc⟩

theorem find_le {c : α} {size found : Nat} (h : Holds m p s) (hs : c ∉ s)
    (hfind : find m c size p = some found) : p + s.length ≤ found := by
  induction s generalizing p size with
  | nil =>
    induction size generalizing p with
    | zero => cases hfind
    | succ size ih =>
      rw [find] at hfind
      split at hfind
      · cases hfind
        simp
      have hle := ih trivial hfind
      simp only [List.length_nil] at hle ⊢
      omega
  | cons x s ih =>
    cases size with
    | zero => cases hfind
    | succ size =>
      obtain ⟨hne, hnot⟩ := not_or.mp (fun hor => hs (List.mem_cons.mpr hor))
      have hx : m p ≠ c := by
        rw [h.1]
        exact Ne.symm hne
      rw [find, if_neg hx] at hfind
      have hle := ih h.2 hnot hfind
      rw [List.length_cons]
      omega

end Find

end memory
