import Mathlib.Data.List.Basic
import Mathlib.Tactic.Ring

open List Option

abbrev Byte := BitVec 8

instance : LawfulBEq Byte := inferInstance

instance : LawfulBEq (List Byte) := inferInstance

theorem Byte.ne_of_class {p : Byte → Bool} {b c : Byte} (hc : p c = true) (hb : p b = false) : c ≠ b := by
  rintro rfl
  rw [hc] at hb
  cases hb

theorem Byte.split_unique {c : Byte} {a a' b b' : List Byte} (ha : c ∉ a) (ha' : c ∉ a')
    (h : a ++ c :: b = a' ++ c :: b') : a = a' ∧ b = b' := by
  have htake {a : List Byte} (b : List Byte) (ha : c ∉ a) : (a ++ c :: b).takeWhile (· ≠ c) = a := by
    have hne (d : Byte) (hd : d ∈ a) : decide (d ≠ c) = true := decide_eq_true fun heq => ha (heq ▸ hd)
    rw [takeWhile_append_of_pos hne, takeWhile_cons_of_neg (by simp), List.append_nil]
  obtain rfl : a = a' := by rw [← htake b ha, h, htake b' ha']
  exact ⟨rfl, (cons.inj (append_cancel_left h)).2⟩

namespace bytes

/-- The octets of a 16 bit word, as `htons` lays them out. -/
def be16 (x : BitVec 16) : List Byte := [x.extractLsb' 8 8, x.extractLsb' 0 8]

/-- The octets of a 32 bit word, as `htonl` lays them out. -/
def be32 (x : BitVec 32) : List Byte :=
  [x.extractLsb' 24 8, x.extractLsb' 16 8, x.extractLsb' 8 8, x.extractLsb' 0 8]

@[simp] theorem length_be16 (x : BitVec 16) : (be16 x).length = 2 := rfl

@[simp] theorem length_be32 (x : BitVec 32) : (be32 x).length = 4 := rfl

@[simp] theorem length_flatMap_be32 (xs : List (BitVec 32)) : (xs.flatMap be32).length = 4 * xs.length := by
  induction xs with
  | nil => rfl
  | cons x xs ih => simp [ih]; omega

/-- The `n` octets from `i` on. -/
def slice (l : List Byte) (i n : Nat) : List Byte := (l.drop i).take n

variable {l : List Byte}

theorem length_slice {i n : Nat} (h : i + n ≤ l.length) : (slice l i n).length = n := by
  simp only [slice, length_take, length_drop]
  omega

theorem slice_append_slice (l : List Byte) (i n m : Nat) : slice l i n ++ slice l (i + n) m = slice l i (n + m) := by
  simp only [slice, ← drop_drop, take_add]

theorem slice_all {n : Nat} (h : l.length ≤ n) : slice l 0 n = l :=
  take_of_length_le h

theorem slice_mid (before l after : List Byte) {i n : Nat} (hi : before.length = i) (hn : l.length = n) :
    slice (before ++ (l ++ after)) i n = l := by
  subst hi hn
  simp [slice]

def read8 (l : List Byte) (i : Nat) : Option Byte := l[i]?

def read16 (l : List Byte) (i : Nat) : Option (BitVec 16) :=
  match l.drop i with
  | a :: b :: _ => some (a ++ b)
  | _ => none

def read32 (l : List Byte) (i : Nat) : Option (BitVec 32) :=
  match l.drop i with
  | a :: b :: c :: d :: _ => some (a ++ b ++ c ++ d)
  | _ => none

/-- A row of words. -/
def read32s (l : List Byte) : Nat → Nat → Option (List (BitVec 32))
  | _, 0 => some []
  | i, n + 1 => (read32 l i).bind fun x => (read32s l (i + 4) n).map (x :: ·)

variable {i : Nat}

theorem read8_eq_some {x : Byte} : read8 l i = some x ↔ slice l i 1 = [x] := by
  have hhead : l[i]? = (l.drop i).head? := by simp
  simp only [read8, slice, hhead]
  cases l.drop i <;> simp

theorem be16_append (a b : Byte) : be16 (a ++ b) = [a, b] := by
  simp only [be16, List.cons.injEq, and_true]
  constructor <;>
  · ext i hi
    simp only [BitVec.getElem_extractLsb']
    grind

theorem append_be16 (x : BitVec 16) : x.extractLsb' 8 8 ++ x.extractLsb' 0 8 = x := by
  ext i hi
  grind

theorem be32_append (a b c d : Byte) : be32 (a ++ b ++ c ++ d) = [a, b, c, d] := by
  simp only [be32, List.cons.injEq, and_true]
  refine ⟨?_, ?_, ?_, ?_⟩
  all_goals
    ext i hi
    simp only [BitVec.getElem_extractLsb']
    grind

theorem append_be32 (x : BitVec 32) :
    x.extractLsb' 24 8 ++ x.extractLsb' 16 8 ++ x.extractLsb' 8 8 ++ x.extractLsb' 0 8 = x := by
  ext i hi
  grind

theorem read16_eq_some {x : BitVec 16} : read16 l i = some x ↔ slice l i 2 = be16 x := by
  simp only [read16, slice]
  constructor
  · intro h
    split at h
    · rename_i a b rest heq
      rw [heq, ← some.inj h, be16_append]
      rfl
    · simp at h
  intro h
  match hdrop : l.drop i with
  | [] => simp [hdrop, be16] at h
  | [a] => simp [hdrop, be16] at h
  | a :: b :: rest =>
    simp only [hdrop, be16, take_succ_cons, take_zero, List.cons.injEq, and_true] at h
    simp only [h.1, h.2, append_be16]

theorem read32_eq_some {x : BitVec 32} : read32 l i = some x ↔ slice l i 4 = be32 x := by
  simp only [read32, slice]
  constructor
  · intro h
    split at h
    · rename_i a b c d rest heq
      rw [heq, ← some.inj h, be32_append]
      rfl
    · simp at h
  intro h
  match hdrop : l.drop i with
  | [] => simp [hdrop, be32] at h
  | [a] => simp [hdrop, be32] at h
  | [a, b] => simp [hdrop, be32] at h
  | [a, b, c] => simp [hdrop, be32] at h
  | a :: b :: c :: d :: rest =>
    simp only [hdrop, be32, take_succ_cons, take_zero, List.cons.injEq, and_true] at h
    simp only [h.1, h.2.1, h.2.2.1, h.2.2.2, append_be32]

theorem read32s_eq_some {i n : Nat} {xs : List (BitVec 32)} :
    read32s l i n = some xs ↔ xs.length = n ∧ slice l i (4 * n) = xs.flatMap be32 := by
  induction n generalizing i xs with
  | zero =>
    simp only [read32s, some.injEq]
    constructor
    · rintro rfl
      simp [slice]
    rintro ⟨hlength, -⟩
    exact (length_eq_zero_iff.mp hlength).symm
  | succ n ih =>
    have hsplit : slice l i (4 * (n + 1)) = slice l i 4 ++ slice l (i + 4) (4 * n) := by
      rw [slice_append_slice, show 4 + 4 * n = 4 * (n + 1) by omega]
    simp only [read32s, bind_eq_some_iff, map_eq_some_iff, read32_eq_some, hsplit]
    constructor
    · rintro ⟨x, hx, rest, hrest, rfl⟩
      obtain ⟨hlength, hslice⟩ := ih.mp hrest
      simp [hlength, hx, hslice]
    rintro ⟨hlength, hslice⟩
    obtain ⟨x, rest, rfl⟩ := exists_cons_of_length_eq_add_one hlength
    have hfour : (slice l i 4).length = (be32 x).length := by
      have htotal := congrArg List.length hslice
      simp only [length_append, flatMap_cons, length_be32, length_flatMap_be32] at htotal ⊢
      have hle : (slice l i 4).length ≤ 4 := length_take_le _ _
      have hle' : (slice l (i + 4) (4 * n)).length ≤ 4 * n := length_take_le _ _
      simp only [length_cons] at hlength
      omega
    obtain ⟨hx, hrest⟩ := append_inj hslice hfour
    exact ⟨x, hx, rest, ih.mpr ⟨by simpa using hlength, hrest⟩, rfl⟩

theorem read8_isSome (h : i < l.length) : ∃ x, read8 l i = some x :=
  ⟨l[i], getElem?_eq_getElem h⟩

theorem read16_isSome (h : i + 2 ≤ l.length) : ∃ x, read16 l i = some x := by
  have hlength : 2 ≤ (l.drop i).length := by
    rw [length_drop]
    omega
  unfold read16
  match hdrop : l.drop i with
  | [] => simp [hdrop] at hlength
  | [_] => simp [hdrop] at hlength
  | a :: b :: _ => exact ⟨_, rfl⟩

theorem read32_isSome (h : i + 4 ≤ l.length) : ∃ x, read32 l i = some x := by
  have hlength : 4 ≤ (l.drop i).length := by
    rw [length_drop]
    omega
  unfold read32
  match hdrop : l.drop i with
  | [] => simp [hdrop] at hlength
  | [_] => simp [hdrop] at hlength
  | [_, _] => simp [hdrop] at hlength
  | [_, _, _] => simp [hdrop] at hlength
  | a :: b :: c :: d :: _ => exact ⟨_, rfl⟩

theorem read32s_isSome {i n : Nat} (h : i + 4 * n ≤ l.length) : ∃ xs, read32s l i n = some xs := by
  induction n generalizing i with
  | zero => exact ⟨[], rfl⟩
  | succ n ih =>
    obtain ⟨x, hx⟩ := read32_isSome (l := l) (i := i) (by omega)
    obtain ⟨xs, hxs⟩ := ih (i := i + 4) (by omega)
    exact ⟨x :: xs, by simp [read32s, hx, hxs]⟩

/-- The last `k` octets of a number, the most significant one first. -/
def be : Nat → Nat → List Byte
  | 0, _ => []
  | k + 1, n => BitVec.ofNat 8 (n >>> (8 * k)) :: be k n

/-- The number that a row of octets stands for. -/
def number (l : List Byte) : Nat := l.foldl (fun sum octet => sum * 256 + octet.toNat) 0

@[simp] theorem length_be (k n : Nat) : (be k n).length = k := by
  induction k with
  | zero => rfl
  | succ k ih => simp [be, ih]

theorem foldl_number (l : List Byte) (sum : Nat) :
    l.foldl (fun sum octet => sum * 256 + octet.toNat) sum = sum * 256 ^ l.length + number l := by
  induction l generalizing sum with
  | nil => simp [number]
  | cons octet l ih =>
    rw [number, foldl_cons, foldl_cons, ih, ih (0 * 256 + octet.toNat), length_cons, Nat.pow_succ]
    ring

theorem number_cons (octet : Byte) (l : List Byte) :
    number (octet :: l) = octet.toNat * 256 ^ l.length + number l := by
  rw [number, foldl_cons, foldl_number]
  simp

theorem number_lt (l : List Byte) : number l < 256 ^ l.length := by
  induction l with
  | nil => simp [number]
  | cons octet l ih =>
    have hoctet := octet.isLt
    rw [number_cons, length_cons, Nat.pow_succ]
    have hmul : octet.toNat * 256 ^ l.length ≤ 255 * 256 ^ l.length := Nat.mul_le_mul_right _ (by omega)
    omega

theorem number_be (k n : Nat) : number (be k n) = n % 256 ^ k := by
  induction k with
  | zero => simp [be, number, Nat.mod_one]
  | succ k ih =>
    have hpow : 2 ^ (8 * k) = 256 ^ k := by rw [Nat.pow_mul]
    have hsplit : n % 256 ^ (k + 1) = n % 256 ^ k + 256 ^ k * (n / 256 ^ k % 256) := Nat.mod_pow_succ
    rw [be, number_cons, length_be, ih, BitVec.toNat_ofNat, Nat.shiftRight_eq_div_pow, hpow, hsplit]
    ring

/-- The octets from `i` on are replaced. -/
def overwrite (l : List Byte) (i : Nat) (octets : List Byte) : List Byte :=
  l.take i ++ octets ++ l.drop (i + octets.length)

theorem length_overwrite {l octets : List Byte} (h : i + octets.length ≤ l.length) :
    (overwrite l i octets).length = l.length := by
  simp only [overwrite, length_append, length_take, length_drop]
  omega

theorem length_le_overwrite (l : List Byte) (i : Nat) (octets : List Byte) :
    l.length ≤ (overwrite l i octets).length := by
  simp only [overwrite, length_append, length_take, length_drop]
  omega

theorem take_overwrite {l octets before : List Byte} (more : List Byte) (hbefore : l.take before.length = before) :
    (overwrite l before.length (octets ++ more)).take (before ++ octets).length = before ++ octets := by
  rw [overwrite, hbefore, append_assoc, append_assoc, ← append_assoc before]
  exact take_left

/-- A write beyond the end yields `none`. -/
def store8 (result : List Byte) (k : Nat) (octet : Byte) : Option (List Byte) :=
  if k < result.length then some (result.set k octet) else none

/-- Octets are stored one after another. -/
def store (result : List Byte) (k : Nat) : List Byte → Option (List Byte)
  | [] => some result
  | octet :: octets => (store8 result k octet).bind fun result => store result (k + 1) octets

theorem store_append (p q octets : List Byte) (h : octets.length ≤ q.length) :
    store (p ++ q) p.length octets = some (p ++ octets ++ q.drop octets.length) := by
  induction octets generalizing p q with
  | nil => simp [store]
  | cons octet octets ih =>
    cases q with
    | nil => simp at h
    | cons old q =>
      have hset : (p ++ old :: q).set p.length octet = (p ++ [octet]) ++ q := by simp
      have hlength : p.length < (p ++ old :: q).length := by simp
      have hnext : p.length + 1 = (p ++ [octet]).length := by simp
      rw [store, store8, if_pos hlength, hset, bind_some, hnext, ih (p ++ [octet]) q (by simpa using h)]
      simp

theorem read8_append (x : List Byte) (a : Byte) (s : List Byte) : read8 (x ++ a :: s) x.length = some a := by
  simp [read8]

theorem read8_append_succ (x : List Byte) (a : Byte) (s : List Byte) (k : Nat) :
    read8 (x ++ a :: s) (x.length + (k + 1)) = read8 s k := by
  simp only [read8]
  rw [getElem?_append_right (by omega)]
  have hindex : x.length + (k + 1) - x.length = k + 1 := by omega
  rw [hindex, getElem?_cons_succ]

end bytes
