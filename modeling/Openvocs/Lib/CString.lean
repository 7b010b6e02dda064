import Mathlib.Data.List.TakeWhile
import Mathlib.Data.Nat.Digits.Defs
import Mathlib.Data.Nat.Digits.Lemmas
import Openvocs.Lib.Bytes

open List

namespace cstring

def of (l : List Byte) : List Byte := l.takeWhile (· ≠ 0)

theorem of_eq_self {l : List Byte} (h : 0 ∉ l) : of l = l := by
  rw [of, takeWhile_eq_self_iff]
  intro c hc
  simp only [decide_eq_true_eq]
  exact fun hzero => h (hzero ▸ hc)

theorem not_mem_of (l : List Byte) : 0 ∉ of l := by
  intro hmem
  simpa using mem_takeWhile_imp hmem

/-- A string without the NUL behind it. -/
abbrev Str : Type := {l : List Byte // 0 ∉ l}

/-- The string at the start of some octets. -/
def Str.of (l : List Byte) : Str := ⟨cstring.of l, not_mem_of l⟩

def is_space (c : Byte) : Bool := c.toNat = 32 || (9 ≤ c.toNat && c.toNat ≤ 13)

def is_digit (c : Byte) : Bool := 48 ≤ c.toNat && c.toNat ≤ 57

/-- The number that a row of digits stands for. -/
def value (digits : List Byte) : Nat := digits.foldl (fun n c => 10 * n + (c.toNat - 48)) 0

/-- The range of a `long`. -/
def clamp (n : Int) : Int := max (-(2 ^ 63)) (min n (2 ^ 63 - 1))

/-- The sign in front of a number, and what comes behind it. -/
def sign (s : List Byte) : Bool × List Byte :=
  match s with
  | [] => (false, [])
  | c :: rest => if c = 45 then (true, rest) else if c = 43 then (false, rest) else (false, s)

/-- `strtol` for decimal numbers: the number and what comes behind it. It is `none`
    where nothing is read. -/
def strtol (s : List Byte) : Option (Int × List Byte) :=
  let (negative, s) := sign (s.dropWhile is_space)
  if s.takeWhile is_digit = [] then none
  else
    let n : Int := value (s.takeWhile is_digit)
    some (clamp (if negative then -n else n), s.dropWhile is_digit)

/-- The conversion of a whole string to an unsigned number of some bits. -/
def to_uint (bits : Nat) (s : List Byte) : Option Nat :=
  match strtol s with
  | some (n, []) => if 0 ≤ n ∧ n < 2 ^ bits then some n.toNat else none
  | _ => none

/-- The digits of a number, as `printf` writes them. -/
def decimal (n : Nat) : List Byte :=
  if n = 0 then [48] else (Nat.digits 10 n).reverse.map fun digit => BitVec.ofNat 8 (48 + digit)

/-- A row of digits and nothing else. -/
def IsNumber (s : List Byte) : Prop := s ≠ [] ∧ ∀ c ∈ s, is_digit c = true

instance (s : List Byte) : Decidable (IsNumber s) := inferInstanceAs (Decidable (_ ∧ _))

theorem toNat_digit {digit : Nat} (h : digit < 10) : (BitVec.ofNat 8 (48 + digit)).toNat = 48 + digit := by
  rw [BitVec.toNat_ofNat]
  omega

theorem isNumber_decimal (n : Nat) : IsNumber (decimal n) := by
  rw [decimal]
  by_cases hzero : n = 0
  · rw [if_pos hzero]
    exact ⟨by simp, by decide⟩
  rw [if_neg hzero]
  refine ⟨?_, ?_⟩
  · intro hnil
    rw [map_eq_nil_iff, reverse_eq_nil_iff, Nat.digits_eq_nil_iff_eq_zero] at hnil
    exact hzero hnil
  intro c hc
  rw [List.mem_map] at hc
  obtain ⟨digit, hdigit, hc⟩ := hc
  have hlt : digit < 10 := Nat.digits_lt_base (by omega) (mem_reverse.mp hdigit)
  have hvalue := toNat_digit hlt
  rw [← hc, is_digit, hvalue]
  simp only [Bool.and_eq_true, decide_eq_true_eq]
  omega

theorem value_decimal (n : Nat) : value (decimal n) = n := by
  rw [decimal]
  by_cases hzero : n = 0
  · rw [if_pos hzero, hzero]
    rfl
  have hfoldr : ∀ digits : List Nat, (∀ digit ∈ digits, digit < 10) →
      (digits.reverse.map fun digit => (BitVec.ofNat 8 (48 + digit) : Byte)).foldl
        (fun n c => 10 * n + (c.toNat - 48)) 0 = Nat.ofDigits 10 digits := by
    intro digits
    induction digits with
    | nil => exact fun _ => rfl
    | cons digit digits ih =>
      intro hdigits
      have hhead := toNat_digit (hdigits digit mem_cons_self)
      rw [reverse_cons, map_append, foldl_append,
        ih fun digit hdigit => hdigits digit (mem_cons_of_mem _ hdigit), map_singleton,
        foldl_cons, foldl_nil, hhead, Nat.ofDigits_cons]
      omega
  rw [if_neg hzero, value, hfoldr _ fun digit hdigit => Nat.digits_lt_base (by omega) hdigit, Nat.ofDigits_digits]

theorem length_decimal_le {n k : Nat} (hk : 0 < k) (h : n < 10 ^ k) : (decimal n).length ≤ k := by
  rw [decimal]
  split
  · exact hk
  rw [length_map, length_reverse, Nat.digits_length_le_iff (by omega)]
  exact h

theorem lt_length_decimal {n k : Nat} (h : 10 ^ k ≤ n) : k < (decimal n).length := by
  have hne : n ≠ 0 := by
    have hpos : 0 < 10 ^ k := Nat.pow_pos (by omega)
    omega
  rw [decimal, if_neg hne, length_map, length_reverse, Nat.lt_digits_length_iff (by omega)]
  exact h

theorem sign_of_digit {c : Byte} (h : is_digit c = true) (rest : List Byte) : sign (c :: rest) = (false, c :: rest) := by
  simp only [is_digit, Bool.and_eq_true, decide_eq_true_eq] at h
  have hminus : c ≠ 45 := by
    intro heq
    rw [heq] at h
    simp at h
  have hplus : c ≠ 43 := by
    intro heq
    rw [heq] at h
    simp at h
  rw [sign, if_neg hminus, if_neg hplus]

theorem not_is_space_of_digit {c : Byte} (h : is_digit c = true) : is_space c = false := by
  simp only [is_digit, Bool.and_eq_true, decide_eq_true_eq] at h
  simp only [is_space, Bool.or_eq_false_iff, Bool.and_eq_false_iff, decide_eq_false_iff_not]
  omega

theorem strtol_digits {digits rest : List Byte} (h : IsNumber digits)
    (hrest : ∀ c ∈ rest.head?, is_digit c = false) :
    strtol (digits ++ rest) = some (clamp (value digits), rest) := by
  obtain ⟨hne, hdigits⟩ := h
  obtain ⟨first, more, heq⟩ := exists_cons_of_ne_nil hne
  have hfirst : is_digit first = true := hdigits first (by rw [heq]; exact mem_cons_self)
  have hspace : (digits ++ rest).dropWhile is_space = digits ++ rest := by
    rw [heq, List.cons_append, dropWhile_cons_of_neg]
    simp [not_is_space_of_digit hfirst]
  have hsign : sign (digits ++ rest) = (false, digits ++ rest) := by rw [heq, List.cons_append, sign_of_digit hfirst]
  have hstop : rest.takeWhile is_digit = [] ∧ rest.dropWhile is_digit = rest := by
    cases rest with
    | nil => exact ⟨rfl, rfl⟩
    | cons c rest =>
      have hc : is_digit c = false := hrest c rfl
      simp [hc]
  have htake : (digits ++ rest).takeWhile is_digit = digits := by
    rw [takeWhile_append_of_pos hdigits, hstop.1, List.append_nil]
  have hdrop : (digits ++ rest).dropWhile is_digit = rest := by rw [dropWhile_append_of_pos hdigits, hstop.2]
  rw [strtol, hspace, hsign]
  simp [htake, hdrop, hne]

theorem to_uint_number {bits : Nat} (hbits : bits ≤ 62) {s : List Byte} (h : IsNumber s) :
    to_uint bits s = if value s < 2 ^ bits then some (value s) else none := by
  have hpow : 2 ^ bits ≤ 2 ^ 62 := Nat.pow_le_pow_right (by omega) hbits
  have hread := strtol_digits h (fun c (hc : c ∈ ([] : List Byte).head?) => by simp at hc)
  rw [List.append_nil] at hread
  simp only [to_uint, hread]
  have hcast : ((2 : Int) ^ bits) = ((2 ^ bits : Nat) : Int) := by simp
  by_cases hsmall : value s < 2 ^ bits
  · have hclamp : clamp (value s) = value s := by
      rw [clamp]
      omega
    rw [if_pos hsmall, hclamp, if_pos (by omega)]
    simp
  have hlarge : ¬ clamp (value s) < 2 ^ bits := by
    rw [clamp, hcast]
    omega
  rw [if_neg hsmall, if_neg fun hboth => hlarge hboth.2]

theorem to_uint_decimal {bits : Nat} (hbits : bits ≤ 62) (n : Nat) :
    to_uint bits (decimal n) = if n < 2 ^ bits then some n else none := by
  rw [to_uint_number hbits (isNumber_decimal n), value_decimal]

end cstring
