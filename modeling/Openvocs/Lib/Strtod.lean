import Mathlib.Data.Nat.Find
import Openvocs.Lib.CString

open List

namespace cstring

def is_hex_digit (c : Byte) : Bool :=
  is_digit c || (65 ≤ c.toNat && c.toNat ≤ 70) || (97 ≤ c.toNat && c.toNat ≤ 102)

/-- `isalnum` and the underscore. -/
def is_word (c : Byte) : Bool :=
  is_digit c || (65 ≤ c.toNat && c.toNat ≤ 90) || (97 ≤ c.toNat && c.toNat ≤ 122) || c = 95

/-- A capital letter as a small one. -/
def lower (c : Byte) : Byte := if 65 ≤ c.toNat ∧ c.toNat ≤ 90 then c + 32 else c

/-- Nothing, or the letter of an exponent with a decimal number. -/
def is_exponent (mark : Byte) : List Byte → Bool
  | [] => true
  | c :: s => lower c = mark && IsNumber (sign s).2

/-- What is behind the digits of the fraction, with these digits. -/
def fraction (digit : Byte → Bool) : List Byte → List Byte × List Byte
  | [] => ([], [])
  | c :: s => if c = 46 then (s.takeWhile digit, s.dropWhile digit) else ([], c :: s)

/-- Digits with at most one point between them, and an exponent. -/
def is_float (digit : Byte → Bool) (mark : Byte) (s : List Byte) : Bool :=
  (s.takeWhile digit ++ (fraction digit (s.dropWhile digit)).1) ≠ [] &&
    is_exponent mark (fraction digit (s.dropWhile digit)).2

/-- A numeral without a sign. -/
def is_unsigned (s : List Byte) : Bool :=
  is_float is_digit 101 s ||
    ((s.take 2).map lower = [48, 120] && is_float is_hex_digit 112 (s.drop 2)) ||
    s.map lower = [105, 110, 102] || s.map lower = [105, 110, 102, 105, 110, 105, 116, 121] ||
    s.map lower = [110, 97, 110] ||
    ((s.take 4).map lower = [110, 97, 110, 40] && (s.drop 4).getLast? = some 41 && (s.drop 4).dropLast.all is_word)

def is_numeral (s : List Byte) : Bool := is_unsigned (sign s).2

/-- `strtod`: how many octets of a string are read. The string begins with a digit, a point or a sign. -/
def strtod (s : List Byte) : Nat := Nat.findGreatest (fun n => is_numeral (s.take n) = true) s.length

example : strtod [49, 101, 43, 53, 44] = 4 := by decide

theorem strtod_le (s : List Byte) : strtod s ≤ s.length := Nat.findGreatest_le _

variable {s : List Byte}

theorem strtod_eq_length (h : is_numeral s = true) : strtod s = s.length := by
  apply Nat.le_antisymm (strtod_le s)
  apply Nat.le_findGreatest (Nat.le_refl _)
  rw [take_length]
  exact h

theorem is_numeral_strtod (h : strtod s ≠ 0) : is_numeral (s.take (strtod s)) = true :=
  Nat.findGreatest_of_ne_zero rfl h

theorem strtod_append {rest : List Byte} (h : strtod (s ++ rest) ≤ s.length) : strtod s = strtod (s ++ rest) := by
  have htake : ∀ n, n ≤ s.length → (s ++ rest).take n = s.take n := by
    intro n hn
    rw [take_append_of_le_length hn]
  apply Nat.le_antisymm
  · by_cases hzero : strtod s = 0
    · omega
    apply Nat.le_findGreatest
    · rw [length_append]
      have hle := strtod_le s
      omega
    rw [htake _ (strtod_le s)]
    exact is_numeral_strtod hzero
  by_cases hzero : strtod (s ++ rest) = 0
  · omega
  apply Nat.le_findGreatest h
  rw [← htake _ h]
  exact is_numeral_strtod hzero

/-- What may stand in a numeral. -/
def is_numeral_char (c : Byte) : Bool := is_word c || c = 43 || c = 45 || c = 46 || c = 40 || c = 41

theorem is_word_of_lower : ∀ c : Byte, is_word (lower c) = true → is_word c = true := by decide +kernel

theorem is_word_of_hex_digit : ∀ c : Byte, is_hex_digit c = true → is_word c = true := by decide +kernel

theorem is_word_of_digit {c : Byte} (h : is_digit c = true) : is_word c = true := by simp [is_word, h]

theorem numeral_of_word {c : Byte} (h : is_word c = true) : is_numeral_char c = true := by simp [is_numeral_char, h]

theorem word_of_map_lower {word : List Byte} (h : s.map lower = word) (hword : ∀ c ∈ word, is_word c = true) :
    ∀ c ∈ s, is_numeral_char c = true := by
  intro c hc
  have hlower : lower c ∈ word := h ▸ List.mem_map_of_mem hc
  exact numeral_of_word (is_word_of_lower c (hword _ hlower))

theorem number_chars {digits : List Byte} (h : IsNumber digits) : ∀ c ∈ digits, is_numeral_char c = true :=
  fun c hc => numeral_of_word (is_word_of_digit (h.2 c hc))

theorem sign_chars (h : ∀ c ∈ (sign s).2, is_numeral_char c = true) :
    ∀ c ∈ s, is_numeral_char c = true := by
  cases s with
  | nil => simp
  | cons first s =>
    simp only [sign] at h
    split at h
    · rename_i hminus
      exact forall_mem_cons.mpr ⟨by rw [hminus]; decide, h⟩
    split at h
    · rename_i hplus
      exact forall_mem_cons.mpr ⟨by rw [hplus]; decide, h⟩
    · exact h

theorem exponent_chars {mark : Byte} (hmark : is_word mark = true) (h : is_exponent mark s = true) :
    ∀ c ∈ s, is_numeral_char c = true := by
  cases s with
  | nil => simp
  | cons first s =>
    rw [is_exponent, Bool.and_eq_true, decide_eq_true_eq, decide_eq_true_eq] at h
    obtain ⟨hfirst, hnumber⟩ := h
    have hletter : is_numeral_char first = true := numeral_of_word (is_word_of_lower first (hfirst ▸ hmark))
    exact forall_mem_cons.mpr ⟨hletter, sign_chars (number_chars hnumber)⟩

theorem float_chars {digit : Byte → Bool} {mark : Byte} (hdigit : ∀ c, digit c = true → is_word c = true)
    (hmark : is_word mark = true) (h : is_float digit mark s = true) :
    ∀ c ∈ s, is_numeral_char c = true := by
  rw [is_float, Bool.and_eq_true] at h
  have hdigits : ∀ l : List Byte, ∀ c ∈ l.takeWhile digit, is_numeral_char c = true :=
    fun l c hc => numeral_of_word (hdigit c (mem_takeWhile_imp hc))
  have hrest : ∀ l : List Byte, is_exponent mark (fraction digit l).2 = true → ∀ c ∈ l, is_numeral_char c = true := by
    intro l hl
    cases l with
    | nil => simp
    | cons first rest =>
      by_cases hpoint : first = 46
      · rw [fraction, if_pos hpoint] at hl
        have hexponent := exponent_chars hmark hl
        rw [← takeWhile_append_dropWhile (p := digit) (l := rest), hpoint]
        exact forall_mem_cons.mpr ⟨by decide, forall_mem_append.mpr ⟨hdigits rest, hexponent⟩⟩
      rw [fraction, if_neg hpoint] at hl
      exact exponent_chars hmark hl
  rw [← takeWhile_append_dropWhile (p := digit) (l := s)]
  exact forall_mem_append.mpr ⟨hdigits s, hrest _ h.2⟩

theorem unsigned_chars (h : is_unsigned s = true) : ∀ c ∈ s, is_numeral_char c = true := by
  simp only [is_unsigned, Bool.or_eq_true, Bool.and_eq_true, decide_eq_true_eq] at h
  obtain (((((hdecimal | ⟨hbegin, hhex⟩) | hinf) | hinfinity) | hnan) | ⟨⟨hbegin, hlast⟩, hwords⟩) := h
  · exact float_chars (fun c => is_word_of_digit) (by decide) hdecimal
  · rw [← take_append_drop 2 s]
    exact forall_mem_append.mpr
      ⟨word_of_map_lower hbegin (by decide), float_chars is_word_of_hex_digit (by decide) hhex⟩
  · exact word_of_map_lower hinf (by decide)
  · exact word_of_map_lower hinfinity (by decide)
  · exact word_of_map_lower hnan (by decide)
  intro c hc
  rw [← take_append_drop 4 s, mem_append] at hc
  obtain hhead | htail := hc
  · have hlower : lower c ∈ [110, 97, 110, 40] := hbegin ▸ List.mem_map_of_mem hhead
    have hletter : ∀ c : Byte, lower c ∈ [110, 97, 110, 40] → is_numeral_char c = true := by decide +kernel
    exact hletter c hlower
  obtain ⟨words, hsplit⟩ := getLast?_eq_some_iff.mp hlast
  rw [hsplit, dropLast_concat] at hwords
  rw [hsplit, mem_append, mem_singleton] at htail
  obtain hword | hclose := htail
  · exact numeral_of_word (List.all_eq_true.mp hwords c hword)
  rw [hclose]
  decide

theorem numeral_chars (h : is_numeral s = true) : ∀ c ∈ s, is_numeral_char c = true := by
  rw [is_numeral] at h
  exact sign_chars (unsigned_chars h)

theorem strtod_numeral {rest : List Byte} {c : Byte} (h : is_numeral s = true)
    (hc : is_numeral_char c = false) : strtod (s ++ c :: rest) = s.length := by
  have hle : strtod (s ++ c :: rest) ≤ s.length := by
    by_contra hlong
    have hchars := numeral_chars (is_numeral_strtod (show strtod (s ++ c :: rest) ≠ 0 by omega)) c (by
      obtain ⟨k, hk⟩ : ∃ k, strtod (s ++ c :: rest) = s.length + (k + 1) :=
        ⟨strtod (s ++ c :: rest) - s.length - 1, by omega⟩
      rw [hk, take_length_add_append]
      simp)
    rw [hc] at hchars
    cases hchars
  rw [← strtod_append hle, strtod_eq_length h]

theorem is_unsigned_of_isNumber {digits : List Byte} (h : IsNumber digits) : is_unsigned digits = true := by
  have htake : digits.takeWhile is_digit = digits := takeWhile_eq_self_iff.mpr h.2
  have hdrop : digits.dropWhile is_digit = [] := dropWhile_eq_nil_iff.mpr h.2
  have hfloat : is_float is_digit 101 digits = true := by simp [is_float, htake, hdrop, fraction, is_exponent, h.1]
  rw [is_unsigned, hfloat]
  simp

end cstring
