import Mathlib.Data.List.Nodup
import Openvocs.Lib.Bytes

/-!
An access beyond the end of a buffer yields `none`.
-/

open List Option

namespace openvocs.base64

open bytes

def padding : Byte := 0x3D

/-- The letters of the digits 0 to 63. -/
structure Alphabet where
  letters : List Byte
  length : letters.length = 64
  nodup : letters.Nodup
  nonzero : 0 ∉ letters
  unpadded : padding ∉ letters

def base64Alphabet : Alphabet where
  letters := [
    0x41, 0x42, 0x43, 0x44, 0x45, 0x46, 0x47, 0x48, 0x49, 0x4A, 0x4B,
    0x4C, 0x4D, 0x4E, 0x4F, 0x50, 0x51, 0x52, 0x53, 0x54, 0x55, 0x56,
    0x57, 0x58, 0x59, 0x5A, 0x61, 0x62, 0x63, 0x64, 0x65, 0x66, 0x67,
    0x68, 0x69, 0x6A, 0x6B, 0x6C, 0x6D, 0x6E, 0x6F, 0x70, 0x71, 0x72,
    0x73, 0x74, 0x75, 0x76, 0x77, 0x78, 0x79, 0x7A, 0x30, 0x31, 0x32,
    0x33, 0x34, 0x35, 0x36, 0x37, 0x38, 0x39, 0x2B, 0x2F]
  length := rfl
  nodup := by decide +kernel
  nonzero := by decide +kernel
  unpadded := by decide +kernel

def base64urlAlphabet : Alphabet where
  letters := [
    0x41, 0x42, 0x43, 0x44, 0x45, 0x46, 0x47, 0x48, 0x49, 0x4A, 0x4B,
    0x4C, 0x4D, 0x4E, 0x4F, 0x50, 0x51, 0x52, 0x53, 0x54, 0x55, 0x56,
    0x57, 0x58, 0x59, 0x5A, 0x61, 0x62, 0x63, 0x64, 0x65, 0x66, 0x67,
    0x68, 0x69, 0x6A, 0x6B, 0x6C, 0x6D, 0x6E, 0x6F, 0x70, 0x71, 0x72,
    0x73, 0x74, 0x75, 0x76, 0x77, 0x78, 0x79, 0x7A, 0x30, 0x31, 0x32,
    0x33, 0x34, 0x35, 0x36, 0x37, 0x38, 0x39, 0x2D, 0x5F]
  length := rfl
  nodup := by decide +kernel
  nonzero := by decide +kernel
  unpadded := by decide +kernel

/-- What a call leaves: its result, the buffer and the length behind the two pointers. -/
structure Output where
  ok : Bool
  dest : Option (List Byte)
  dest_length : Nat

/-- The buffer that is written: the one of the caller if it is large enough, or a new one with an
octet more than is needed. -/
def room (dest : Option (List Byte)) (dest_length length : Nat) : Option (List Byte) :=
  match dest with
  | some dest => if dest_length < length then none else some dest
  | none => some (List.replicate (length + 1) 0)

section

variable (alphabet : Alphabet)

def letter (digit : Nat) : Option Byte := alphabet.letters[digit]?

/-- The loop over all groups but the last one, with a bound on its rounds. -/
def encode_loop (source : List Byte) : Nat → Nat → Nat → List Byte → Option (Nat × Nat × List Byte)
  | 0, _, _, _ => none
  | rounds + 1, i, k, result =>
    if i + 3 < source.length then do
      let a := (← read8 source i).toNat
      let b := (← read8 source (i + 1)).toNat
      let c := (← read8 source (i + 2)).toNat
      let result ← store result k [
        ← letter alphabet (0x3F &&& (a >>> 2)),
        ← letter alphabet (0x3F &&& (a <<< 4 ||| b >>> 4)),
        ← letter alphabet (0x3F &&& (b <<< 2 ||| c >>> 6)),
        ← letter alphabet (0x3F &&& c)]
      encode_loop source rounds (i + 3) (k + 4) result
    else some (i, k, result)

/-- The last group. -/
def encode_last (source : List Byte) (fillbits i k : Nat) (result : List Byte) : Option (List Byte) :=
  match fillbits with
  | 0 => do
    let a := (← read8 source i).toNat
    let b := (← read8 source (i + 1)).toNat
    let c := (← read8 source (i + 2)).toNat
    store result k [
      ← letter alphabet (0x3F &&& (a >>> 2)),
      ← letter alphabet (0x3F &&& (a <<< 4 ||| b >>> 4)),
      ← letter alphabet (0x3F &&& (b <<< 2 ||| c >>> 6)),
      ← letter alphabet (0x3F &&& c)]
  | 1 => do
    let a := (← read8 source i).toNat
    let b := (← read8 source (i + 1)).toNat
    store result k [
      ← letter alphabet (0x3F &&& (a >>> 2)),
      ← letter alphabet (0x3F &&& (a <<< 4 ||| b >>> 4)),
      ← letter alphabet (0x3C &&& (b <<< 2)),
      padding]
  | 2 => do
    let a := (← read8 source i).toNat
    store result k [
      ← letter alphabet (0x3F &&& (a >>> 2)),
      ← letter alphabet (0x3F &&& (a <<< 4)),
      padding,
      padding]
  | _ => some result

def encode_with_alphabet (source : List Byte) (dest : Option (List Byte)) (dest_length : Nat) : Option Output :=
  if source.length < 1 then some { ok := false, dest, dest_length }
  else
    let rest := source.length % 3
    let length := source.length / 3 * 4 + if 0 < rest then 4 else 0
    let fillbits := if 0 < rest then 3 - rest else 0
    match room dest dest_length length with
    | none => some { ok := false, dest, dest_length }
    | some result => do
      let (i, k, result) ← encode_loop alphabet source (source.length + 1) 0 0 result
      let result ← encode_last alphabet source fillbits i k result
      return { ok := true, dest := some result, dest_length := length }

def alphabetPosition (byte : Byte) : Option Nat :=
  if byte = 0 then none else alphabet.letters.findIdx? fun letter => letter = byte

/-- A number as an octet. -/
def octet (n : Nat) : Byte := BitVec.ofNat 8 n

/-- The positions of some octets, one after another; the inner `none` when one is no letter. -/
def positions (source : List Byte) : Nat → Nat → Option (Option (List Nat))
  | _, 0 => some (some [])
  | k, n + 1 =>
    match read8 source k with
    | none => none
    | some byte =>
      match alphabetPosition alphabet byte with
      | none => some none
      | some pos => (positions source (k + 1) n).map (Option.map (pos :: ·))

/-- The loop over all groups but the last one, with a bound on its rounds. The first component is
false when an octet is no letter of the alphabet. -/
def decode_loop (source : List Byte) : Nat → Nat → Nat → List Byte → Option (Bool × Nat × Nat × List Byte)
  | 0, _, _, _ => none
  | rounds + 1, i, k, result =>
    if k + 4 < source.length then
      match positions alphabet source k 4 with
      | some (some [pos0, pos1, pos2, pos3]) =>
        (store result i [octet (pos0 <<< 2 ||| pos1 >>> 4), octet (pos1 <<< 4 ||| pos2 >>> 2),
          octet (pos2 <<< 6 ||| pos3)]).bind fun result => decode_loop source rounds (i + 3) (k + 4) result
      | some _ => some (false, i, k, result)
      | none => none
    else some (true, i, k, result)

/-- The last group. -/
def decode_last (source : List Byte) (fillbits i k : Nat) (result : List Byte) : Option (Bool × List Byte) :=
  match fillbits with
  | 0 =>
    match positions alphabet source k 4 with
    | some (some [pos0, pos1, pos2, pos3]) =>
      (store result i [octet (pos0 <<< 2 ||| pos1 >>> 4), octet (pos1 <<< 4 ||| pos2 >>> 2),
        octet (pos2 <<< 6 ||| pos3)]).map (true, ·)
    | some _ => some (false, result)
    | none => none
  | 1 =>
    match positions alphabet source k 3 with
    | some (some [pos0, pos1, pos2]) =>
      (store result i [octet (pos0 <<< 2 ||| pos1 >>> 4), octet (pos1 <<< 4 ||| pos2 >>> 2)]).map (true, ·)
    | some _ => some (false, result)
    | none => none
  | 2 =>
    match positions alphabet source k 2 with
    | some (some [pos0, pos1]) => (store result i [octet (pos0 <<< 2 ||| pos1 >>> 4)]).map (true, ·)
    | some _ => some (false, result)
    | none => none
  | _ => some (true, result)

/-- What is left when an octet is no letter: a new buffer is freed again. -/
def decode_error (dest : Option (List Byte)) (result : List Byte) (length : Nat) : Output :=
  { ok := false, dest := dest.map fun _ => result, dest_length := length }

def decode_with_alphabet (source : List Byte) (dest : Option (List Byte)) (dest_length : Nat) : Option Output :=
  if source.length < 1 || source.length % 4 ≠ 0 then some { ok := false, dest, dest_length }
  else do
    let last := ← read8 source (source.length - 1)
    let before := ← read8 source (source.length - 2)
    let fillbits := (if last = padding then 1 else 0) + (if before = padding then 1 else 0)
    let length := source.length / 4 * 3 - fillbits
    match room dest dest_length length with
    | none => some { ok := false, dest, dest_length }
    | some result =>
      match decode_loop alphabet source (source.length + 1) 0 0 result with
      | none => none
      | some (false, _, _, result) => some (decode_error dest result length)
      | some (true, i, k, result) =>
        match decode_last alphabet source fillbits i k result with
        | none => none
        | some (false, result) => some (decode_error dest result length)
        | some (true, result) => some { ok := true, dest := some result, dest_length := length }

/-- The text of a string, three octets at a time. -/
def encoding : List Byte → List Byte
  | a :: b :: c :: s =>
    [digit (a.toNat / 4), digit (a.toNat % 4 * 16 + b.toNat / 16), digit (b.toNat % 16 * 4 + c.toNat / 64),
      digit (c.toNat % 64)] ++ encoding s
  | [a, b] =>
    [digit (a.toNat / 4), digit (a.toNat % 4 * 16 + b.toNat / 16), digit (b.toNat % 16 * 4), padding]
  | [a] => [digit (a.toNat / 4), digit (a.toNat % 4 * 16), padding, padding]
  | [] => []
where
  digit (n : Nat) : Byte := alphabet.letters.getD n 0

/-- The string of a text. -/
def decoding : List Byte → Option (List Byte)
  | [w, x, y, z] =>
    if z = padding then
      if y = padding then
        (alphabetPosition alphabet w).bind fun p =>
        (alphabetPosition alphabet x).map fun q => [octet (p * 4 + q / 16)]
      else
        (alphabetPosition alphabet w).bind fun p =>
        (alphabetPosition alphabet x).bind fun q =>
        (alphabetPosition alphabet y).map fun r => [octet (p * 4 + q / 16), octet (q * 16 + r / 4)]
    else full w x y z
  | w :: x :: y :: z :: s => (full w x y z).bind fun group => (decoding s).map (group ++ ·)
  | _ => none
where
  full (w x y z : Byte) : Option (List Byte) :=
    (alphabetPosition alphabet w).bind fun p =>
    (alphabetPosition alphabet x).bind fun q =>
    (alphabetPosition alphabet y).bind fun r =>
    (alphabetPosition alphabet z).map fun t =>
      [octet (p * 4 + q / 16), octet (q * 16 + r / 4), octet (r * 64 + t)]

end

theorem low_six (n : Nat) : 0x3F &&& n = n % 64 := by
  rw [Nat.and_comm]
  exact Nat.and_two_pow_sub_one_eq_mod n 6

section digits

variable {a b c : Nat}

theorem first_digit (h : a < 256) : 0x3F &&& (a >>> 2) = a / 4 := by
  rw [low_six, Nat.shiftRight_eq_div_pow]
  omega

theorem second_digit (h : b < 256) : 0x3F &&& (a <<< 4 ||| b >>> 4) = a % 4 * 16 + b / 16 := by
  have hb : b >>> 4 < 2 ^ 4 := by
    rw [Nat.shiftRight_eq_div_pow]
    omega
  rw [← Nat.shiftLeft_add_eq_or_of_lt hb, low_six, Nat.shiftRight_eq_div_pow, Nat.shiftLeft_eq]
  omega

theorem second_digit_alone : 0x3F &&& (a <<< 4) = a % 4 * 16 := by
  rw [low_six, Nat.shiftLeft_eq]
  omega

theorem third_digit (h : c < 256) : 0x3F &&& (b <<< 2 ||| c >>> 6) = b % 16 * 4 + c / 64 := by
  have hc : c >>> 6 < 2 ^ 2 := by
    rw [Nat.shiftRight_eq_div_pow]
    omega
  rw [← Nat.shiftLeft_add_eq_or_of_lt hc, low_six, Nat.shiftRight_eq_div_pow, Nat.shiftLeft_eq]
  omega

theorem third_digit_alone : 0x3C &&& (b <<< 2) = b % 16 * 4 := by
  have hmask : (0x3C : Nat) = 0xF <<< 2 := rfl
  have hlow : (0xF : Nat) &&& b = b % 16 := by
    rw [Nat.and_comm]
    exact Nat.and_two_pow_sub_one_eq_mod b 4
  rw [hmask, ← Nat.shiftLeft_and_distrib, hlow, Nat.shiftLeft_eq]

end digits

variable {alphabet : Alphabet}

variable {n : Nat}

theorem letter_eq (h : n < 64) : letter alphabet n = some (encoding.digit alphabet n) := by
  have hlength : n < alphabet.letters.length := by rw [alphabet.length]; exact h
  rw [letter, encoding.digit, getElem?_eq_getElem hlength, getD_eq_getElem?_getD, getElem?_eq_getElem hlength]
  rfl

theorem digit_mem (h : n < 64) : encoding.digit alphabet n ∈ alphabet.letters := by
  have hlength : n < alphabet.letters.length := by rw [alphabet.length]; exact h
  rw [encoding.digit, getD_eq_getElem?_getD, getElem?_eq_getElem hlength]
  exact getElem_mem hlength

theorem alphabetPosition_eq {byte : Byte} :
    alphabetPosition alphabet byte = some n ↔ n < 64 ∧ encoding.digit alphabet n = byte := by
  have hget : ∀ hn : n < alphabet.letters.length, encoding.digit alphabet n = alphabet.letters[n] := by
    intro hn
    rw [encoding.digit, getD_eq_getElem?_getD, getElem?_eq_getElem hn]
    rfl
  rw [alphabetPosition]
  constructor
  · intro h
    split at h
    · cases h
    obtain ⟨hn, hbyte, -⟩ := findIdx?_eq_some_iff_getElem.mp h
    exact ⟨alphabet.length ▸ hn, (hget hn).trans (of_decide_eq_true hbyte)⟩
  rintro ⟨hn, rfl⟩
  have hzero : encoding.digit alphabet n ≠ 0 := by
    intro hzero
    exact alphabet.nonzero (hzero ▸ digit_mem hn)
  have hlength : n < alphabet.letters.length := by rw [alphabet.length]; exact hn
  rw [if_neg hzero, findIdx?_eq_some_iff_getElem]
  refine ⟨hlength, decide_eq_true (hget hlength).symm, ?_⟩
  intro j hj heq
  have hsame : alphabet.letters[j] = alphabet.letters[n] := (of_decide_eq_true heq).trans (hget hlength)
  exact absurd (alphabet.nodup.getElem_inj_iff.mp hsame) (by omega)

theorem alphabetPosition_padding : alphabetPosition alphabet padding = none := by
  cases h : alphabetPosition alphabet padding with
  | none => rfl
  | some n =>
    obtain ⟨hn, hdigit⟩ := alphabetPosition_eq.mp h
    exact absurd (hdigit ▸ digit_mem hn) alphabet.unpadded

theorem length_encoding (s : List Byte) :
    (encoding alphabet s).length = s.length / 3 * 4 + if 0 < s.length % 3 then 4 else 0 := by
  fun_induction encoding alphabet s with
  | case1 a b c s ih =>
    have hmod : (s.length + 1 + 1 + 1) % 3 = s.length % 3 := by omega
    simp only [length_append, length_cons, length_nil, ih, hmod]
    omega
  | case2 => simp
  | case3 => simp
  | case4 => rfl

theorem fillbits_eq {n m : Nat} (hn : n % 3 = 0) (hm : 0 < m) (hle : m ≤ 3) :
    (if 0 < (n + m) % 3 then 3 - (n + m) % 3 else 0) = 3 - m := by
  split <;> omega

theorem encode_last_eq {x y p q : List Byte} (hx : x.length % 3 = 0) (hy : 0 < y.length) (hshort : y.length ≤ 3)
    (hq : 4 ≤ q.length) :
    encode_last alphabet (x ++ y) (if 0 < (x ++ y).length % 3 then 3 - (x ++ y).length % 3 else 0) x.length p.length
      (p ++ q) = some (p ++ encoding alphabet y ++ q.drop 4) := by
  have hbyte : ∀ a : Byte, a.toNat < 256 := fun a => a.isLt
  rw [length_append]
  match y, hy, hshort with
  | [a], _, _ =>
    have hfill := fillbits_eq hx (m := [a].length) (by simp) (by simp)
    have hread := read8_append x a []
    have := hbyte a
    rw [hfill, show 3 - [a].length = 2 from rfl, encode_last, hread]
    simp only [bind_eq_bind, bind_some, first_digit (hbyte a), second_digit_alone,
      letter_eq (show a.toNat / 4 < 64 by omega), letter_eq (show a.toNat % 4 * 16 < 64 by omega)]
    exact store_append p q _ hq
  | [a, b], _, _ =>
    have hfill := fillbits_eq hx (m := [a, b].length) (by simp) (by simp)
    have hread := read8_append x a [b]
    have hread1 : read8 (x ++ [a, b]) (x.length + 1) = some b := read8_append_succ x a [b] 0
    have := hbyte a
    have := hbyte b
    rw [hfill, show 3 - [a, b].length = 1 from rfl, encode_last, hread, hread1]
    simp only [bind_eq_bind, bind_some, first_digit (hbyte a), second_digit (hbyte b), third_digit_alone,
      letter_eq (show a.toNat / 4 < 64 by omega), letter_eq (show a.toNat % 4 * 16 + b.toNat / 16 < 64 by omega),
      letter_eq (show b.toNat % 16 * 4 < 64 by omega)]
    exact store_append p q _ hq
  | [a, b, c], _, _ =>
    have hfill := fillbits_eq hx (m := [a, b, c].length) (by simp) (by simp)
    have hread := read8_append x a [b, c]
    have hread1 : read8 (x ++ [a, b, c]) (x.length + 1) = some b := read8_append_succ x a [b, c] 0
    have hread2 : read8 (x ++ [a, b, c]) (x.length + 2) = some c := read8_append_succ x a [b, c] 1
    have := hbyte a
    have := hbyte b
    have := hbyte c
    rw [hfill, show 3 - [a, b, c].length = 0 from rfl, encode_last, hread, hread1, hread2]
    simp only [bind_eq_bind, bind_some, first_digit (hbyte a), second_digit (hbyte b),
      third_digit (hbyte c), low_six c.toNat,
      letter_eq (show a.toNat / 4 < 64 by omega), letter_eq (show a.toNat % 4 * 16 + b.toNat / 16 < 64 by omega),
      letter_eq (show b.toNat % 16 * 4 + c.toNat / 64 < 64 by omega), letter_eq (show c.toNat % 64 < 64 by omega)]
    rw [encoding, encoding, List.append_nil]
    exact store_append p q _ hq

theorem encode_from (rounds : Nat) {x y p q : List Byte} (hx : x.length % 3 = 0) (hy : 0 < y.length)
    (hq : (encoding alphabet y).length ≤ q.length) (hrounds : y.length < rounds) :
    (encode_loop alphabet (x ++ y) rounds x.length p.length (p ++ q)).bind (fun (i, k, result) =>
      encode_last alphabet (x ++ y) (if 0 < (x ++ y).length % 3 then 3 - (x ++ y).length % 3 else 0) i k result) =
      some (p ++ encoding alphabet y ++ q.drop (encoding alphabet y).length) := by
  induction rounds generalizing x y p q with
  | zero => exact absurd hrounds (Nat.not_lt_zero _)
  | succ rounds ih =>
    rw [encode_loop]
    by_cases hmore : x.length + 3 < (x ++ y).length
    · -- a group that is not the last one
      rw [if_pos hmore]
      rw [length_append] at hmore
      obtain ⟨a, b, c, s, rfl⟩ : ∃ a b c s, y = a :: b :: c :: s := by
        match y, hmore with
        | a :: b :: c :: s, _ => exact ⟨a, b, c, s, rfl⟩
        | [], h => simp at h
        | [a], h => simp at h
        | [a, b], h => simp at h
      simp only [length_cons] at hmore hrounds
      have hread := read8_append x a (b :: c :: s)
      have hread1 : read8 (x ++ a :: b :: c :: s) (x.length + 1) = some b := read8_append_succ x a (b :: c :: s) 0
      have hread2 : read8 (x ++ a :: b :: c :: s) (x.length + 2) = some c := read8_append_succ x a (b :: c :: s) 1
      have hbyte : ∀ a : Byte, a.toNat < 256 := fun a => a.isLt
      have ha := hbyte a
      have hb := hbyte b
      have hc := hbyte c
      rw [encoding] at hq ⊢
      generalize hgroup : [encoding.digit alphabet (a.toNat / 4),
        encoding.digit alphabet (a.toNat % 4 * 16 + b.toNat / 16),
        encoding.digit alphabet (b.toNat % 16 * 4 + c.toNat / 64),
        encoding.digit alphabet (c.toNat % 64)] = group at hq ⊢
      have hfour : group.length = 4 := by rw [← hgroup]; rfl
      rw [length_append, hfour] at hq
      have hstore := store_append p q group (by omega)
      rw [hfour] at hstore
      rw [hread, hread1, hread2]
      simp only [bind_eq_bind, bind_some, first_digit ha, second_digit hb, third_digit hc, low_six c.toNat,
        letter_eq (show a.toNat / 4 < 64 by omega), letter_eq (show a.toNat % 4 * 16 + b.toNat / 16 < 64 by omega),
        letter_eq (show b.toNat % 16 * 4 + c.toNat / 64 < 64 by omega), letter_eq (show c.toNat % 64 < 64 by omega),
        hgroup, hstore]
      have hsource : x ++ a :: b :: c :: s = (x ++ [a, b, c]) ++ s := by simp
      have hi : x.length + 3 = (x ++ [a, b, c]).length := by simp
      have hk : p.length + 4 = (p ++ group).length := by rw [length_append, hfour]
      rw [hsource, hi, hk, ih (by rw [← hi]; omega) (by omega) (by rw [length_drop]; omega) (by omega)]
      rw [length_append, hfour, drop_drop, append_assoc p]
    · -- the last group
      rw [if_neg hmore, bind_some]
      rw [length_append] at hmore
      have hlength : (encoding alphabet y).length = 4 := by
        rw [length_encoding]
        split <;> omega
      rw [hlength] at hq ⊢
      exact encode_last_eq hx hy (by omega) hq

/-- How a buffer is filled: with the octets, and what stood behind them stays. -/
def filled (dest : Option (List Byte)) (octets : List Byte) : List Byte :=
  match dest with
  | some dest => octets ++ dest.drop octets.length
  | none => octets ++ [0]

variable {dest : Option (List Byte)} {dest_length : Nat}

theorem room_eq {octets : List Byte}
    (hdest : ∀ buffer, dest = some buffer → octets.length ≤ dest_length ∧ dest_length ≤ buffer.length) :
    ∃ result, room dest dest_length octets.length = some result ∧ octets.length ≤ result.length ∧
      filled dest octets = octets ++ result.drop octets.length := by
  cases dest with
  | none => exact ⟨_, rfl, by simp, by simp [filled, drop_replicate]⟩
  | some buffer =>
    obtain ⟨hle, hbuffer⟩ := hdest buffer rfl
    refine ⟨buffer, ?_, by omega, rfl⟩
    rw [room, if_neg (by omega)]

variable {source : List Byte}

theorem encode_eq (hsource : 0 < source.length) (hdest : ∀ buffer, dest = some buffer →
      (encoding alphabet source).length ≤ dest_length ∧ dest_length ≤ buffer.length) :
    encode_with_alphabet alphabet source dest dest_length = some
      { ok := true, dest := some (filled dest (encoding alphabet source)),
        dest_length := (encoding alphabet source).length } := by
  obtain ⟨result, hroom, hresult, hfilled⟩ := room_eq hdest
  have hencode := @encode_from alphabet (source.length + 1) [] source [] result rfl hsource hresult (by omega)
  simp only [nil_append, length_nil] at hencode
  rw [encode_with_alphabet, if_neg (by omega)]
  simp only [← @length_encoding alphabet, hroom]
  obtain ⟨⟨i, k, written⟩, hloop, hlast⟩ := bind_eq_some_iff.mp hencode
  rw [hloop]
  simp only [bind_eq_bind, bind_some]
  rw [hlast, hfilled]
  rfl

theorem positions_eq (x l s : List Byte) :
    positions alphabet (x ++ (l ++ s)) x.length l.length = some (l.mapM (alphabetPosition alphabet)) := by
  induction l generalizing x with
  | nil => rfl
  | cons a l ih =>
    have hnext := ih (x ++ [a])
    rw [append_assoc, length_append, length_singleton] at hnext
    rw [length_cons, positions, List.cons_append, read8_append]
    cases hpos : alphabetPosition alphabet a with
    | none => simp [mapM_cons, hpos]
    | some pos =>
      rw [singleton_append] at hnext
      simp only [hnext, map_some, mapM_cons, hpos]
      cases List.mapM (alphabetPosition alphabet) l <;> rfl

section octets

variable {p q r t : Nat}

theorem first_octet (h : q < 64) : p <<< 2 ||| q >>> 4 = p * 4 + q / 16 := by
  have hq : q >>> 4 < 2 ^ 2 := by
    rw [Nat.shiftRight_eq_div_pow]
    omega
  rw [← Nat.shiftLeft_add_eq_or_of_lt hq, Nat.shiftRight_eq_div_pow, Nat.shiftLeft_eq]

theorem second_octet (h : r < 64) : q <<< 4 ||| r >>> 2 = q * 16 + r / 4 := by
  have hr : r >>> 2 < 2 ^ 4 := by
    rw [Nat.shiftRight_eq_div_pow]
    omega
  rw [← Nat.shiftLeft_add_eq_or_of_lt hr, Nat.shiftRight_eq_div_pow, Nat.shiftLeft_eq]

theorem third_octet (h : t < 64) : r <<< 6 ||| t = r * 64 + t := by
  rw [← Nat.shiftLeft_add_eq_or_of_lt (show t < 2 ^ 6 by omega), Nat.shiftLeft_eq]

end octets

theorem position_lt {byte : Byte} (h : alphabetPosition alphabet byte = some n) : n < 64 :=
  (alphabetPosition_eq.mp h).1

/-- How many of the last two octets of a text are padding. -/
def paddings (y z : Byte) : Nat := (if z = padding then 1 else 0) + (if y = padding then 1 else 0)

theorem length_full {w x y z : Byte} {s : List Byte} (h : decoding.full alphabet w x y z = some s) : s.length = 3 := by
  rw [decoding.full] at h
  obtain ⟨p, -, h⟩ := bind_eq_some_iff.mp h
  obtain ⟨q, -, h⟩ := bind_eq_some_iff.mp h
  obtain ⟨r, -, h⟩ := bind_eq_some_iff.mp h
  obtain ⟨t, -, rfl⟩ := map_eq_some_iff.mp h
  rfl

theorem full_group {w x y z : Byte} (source : List Byte) {i k : Nat} {p q : List Byte}
    (hpositions : positions alphabet source k 4 = some ([w, x, y, z].mapM (alphabetPosition alphabet)))
    (hi : i = p.length) (hq : 3 ≤ q.length) :
    (decoding.full alphabet w x y z = none ∧ positions alphabet source k 4 = some none) ∨
    ∃ p0 p1 p2 p3 s, positions alphabet source k 4 = some (some [p0, p1, p2, p3]) ∧
      decoding.full alphabet w x y z = some s ∧
      store (p ++ q) i [octet (p0 <<< 2 ||| p1 >>> 4), octet (p1 <<< 4 ||| p2 >>> 2), octet (p2 <<< 6 ||| p3)] =
        some (p ++ s ++ q.drop 3) := by
  subst hi
  rw [hpositions, decoding.full]
  cases hw : alphabetPosition alphabet w with
  | none => exact Or.inl ⟨rfl, by simp [mapM_cons, hw]⟩
  | some p0 =>
    cases hx : alphabetPosition alphabet x with
    | none => exact Or.inl ⟨rfl, by simp [mapM_cons, hw, hx]⟩
    | some p1 =>
      cases hy : alphabetPosition alphabet y with
      | none => exact Or.inl ⟨rfl, by simp [mapM_cons, hw, hx, hy]⟩
      | some p2 =>
        cases hz : alphabetPosition alphabet z with
        | none => exact Or.inl ⟨rfl, by simp [mapM_cons, hw, hx, hy, hz]⟩
        | some p3 =>
          refine Or.inr ⟨p0, p1, p2, p3, _, by simp [mapM_cons, hw, hx, hy, hz], rfl, ?_⟩
          rw [first_octet (position_lt hx), second_octet (position_lt hy), third_octet (position_lt hz)]
          exact store_append p q _ hq

theorem decode_last_eq (x : List Byte) (w a b c : Byte) {p q : List Byte} (hq : 3 - paddings b c ≤ q.length) :
    (decoding alphabet [w, a, b, c] = none ∧ ∃ r,
      decode_last alphabet (x ++ [w, a, b, c]) (paddings b c) p.length x.length (p ++ q) = some (false, r)) ∨
    ∃ s, decoding alphabet [w, a, b, c] = some s ∧ s.length = 3 - paddings b c ∧
      decode_last alphabet (x ++ [w, a, b, c]) (paddings b c) p.length x.length (p ++ q) =
        some (true, p ++ s ++ q.drop s.length) := by
  have hfour : positions alphabet (x ++ [w, a, b, c]) x.length 4 =
      some ([w, a, b, c].mapM (alphabetPosition alphabet)) := positions_eq x [w, a, b, c] []
  have hthree : positions alphabet (x ++ [w, a, b, c]) x.length 3 =
      some ([w, a, b].mapM (alphabetPosition alphabet)) := positions_eq x [w, a, b] [c]
  have htwo : positions alphabet (x ++ [w, a, b, c]) x.length 2 =
      some ([w, a].mapM (alphabetPosition alphabet)) := positions_eq x [w, a] [b, c]
  rw [decoding]
  by_cases hc : c = padding
  · by_cases hb : b = padding
    · have hfill : paddings b c = 2 := by simp [paddings, hb, hc]
      rw [hfill] at hq ⊢
      rw [if_pos hc, if_pos hb, decode_last, htwo]
      cases hw : alphabetPosition alphabet w with
      | none => exact Or.inl ⟨rfl, p ++ q, by simp [mapM_cons, hw]⟩
      | some p0 =>
        cases ha : alphabetPosition alphabet a with
        | none => exact Or.inl ⟨rfl, p ++ q, by simp [mapM_cons, hw, ha]⟩
        | some p1 =>
          refine Or.inr ⟨[octet (p0 * 4 + p1 / 16)], rfl, rfl, ?_⟩
          have hstore := store_append p q [octet (p0 * 4 + p1 / 16)] hq
          simp [hw, ha, first_octet (position_lt ha), hstore]
    have hfill : paddings b c = 1 := by simp [paddings, hb, hc]
    rw [hfill] at hq ⊢
    rw [if_pos hc, if_neg hb, decode_last, hthree]
    cases hw : alphabetPosition alphabet w with
    | none => exact Or.inl ⟨rfl, p ++ q, by simp [mapM_cons, hw]⟩
    | some p0 =>
      cases ha : alphabetPosition alphabet a with
      | none => exact Or.inl ⟨rfl, p ++ q, by simp [mapM_cons, hw, ha]⟩
      | some p1 =>
        cases hb' : alphabetPosition alphabet b with
        | none => exact Or.inl ⟨rfl, p ++ q, by simp [mapM_cons, hw, ha, hb']⟩
        | some p2 =>
          refine Or.inr ⟨[octet (p0 * 4 + p1 / 16), octet (p1 * 16 + p2 / 4)], rfl, rfl, ?_⟩
          have hstore := store_append p q [octet (p0 * 4 + p1 / 16), octet (p1 * 16 + p2 / 4)] hq
          simp [hw, ha, hb', first_octet (position_lt ha), second_octet (position_lt hb'), hstore]
  · rw [if_neg hc]
    by_cases hb : b = padding
    · -- a letter behind a padding
      have hfill : paddings b c = 1 := by simp [paddings, hb, hc]
      have hnone : decoding.full alphabet w a b c = none := by simp [decoding.full, hb, alphabetPosition_padding]
      refine Or.inl ⟨hnone, p ++ q, ?_⟩
      rw [hfill, decode_last, hthree, hb]
      cases hw : alphabetPosition alphabet w with
      | none => simp [mapM_cons, hw]
      | some p0 =>
        cases ha : alphabetPosition alphabet a with
        | none => simp [mapM_cons, hw, ha]
        | some p1 => simp [mapM_cons, hw, ha, alphabetPosition_padding]
    have hfill : paddings b c = 0 := by simp [paddings, hb, hc]
    rw [hfill] at hq ⊢
    rcases full_group (p := p) (x ++ [w, a, b, c]) hfour rfl hq with ⟨hnone, hpos⟩ | ⟨p0, p1, p2, p3, s, hpos, hs, hstore⟩
    · exact Or.inl ⟨hnone, p ++ q, by simp [decode_last, hpos]⟩
    refine Or.inr ⟨s, hs, length_full hs, ?_⟩
    rw [decode_last, hpos, length_full hs]
    simp only [hstore, map_some]

theorem decoding_append (w x y z : Byte) {s : List Byte} (hs : s ≠ []) :
    decoding alphabet (w :: x :: y :: z :: s) =
      (decoding.full alphabet w x y z).bind fun group => (decoding alphabet s).map (group ++ ·) := by
  rw [decoding]
  exact hs

theorem length_decoding {front : List Byte} (hfront : front.length % 4 = 0) {w a b c : Byte} {s : List Byte}
    (h : decoding alphabet (front ++ [w, a, b, c]) = some s) :
    s.length = (front ++ [w, a, b, c]).length / 4 * 3 - paddings b c := by
  induction hn : front.length / 4 generalizing front s with
  | zero =>
    obtain rfl : front = [] := eq_nil_of_length_eq_zero (by omega)
    have hroom : 3 - paddings b c ≤ (List.replicate 3 (0 : Byte)).length := by simp
    rcases decode_last_eq (p := []) [] w a b c hroom with ⟨hnone, -⟩ | ⟨s', hs', hlength, -⟩
    · rw [nil_append, hnone] at h
      cases h
    rw [nil_append, hs'] at h
    cases h
    simpa using hlength
  | succ n ih =>
    match front, hfront, hn with
    | d :: e :: f :: g :: front, hfront, hn =>
      simp only [length_cons] at hfront hn
      rw [List.cons_append, List.cons_append, List.cons_append, List.cons_append,
        decoding_append d e f g (by simp)] at h
      obtain ⟨group, hgroup, h⟩ := bind_eq_some_iff.mp h
      obtain ⟨s', hs', rfl⟩ := map_eq_some_iff.mp h
      have hrest := ih (by omega) hs' (by omega)
      have hpadding : paddings b c ≤ 2 := by
        unfold paddings
        split <;> split <;> omega
      simp only [length_append, length_cons, length_nil] at hrest ⊢
      rw [hrest, length_full hgroup]
      omega
    | [], _, hn => simp at hn
    | [_], h, _ => simp at h
    | [_, _], h, _ => simp at h
    | [_, _, _], h, _ => simp at h

theorem decode_from (rounds : Nat) {x front p q : List Byte} (w a b c : Byte) (hfront : front.length % 4 = 0)
    (hq : (front ++ [w, a, b, c]).length / 4 * 3 - paddings b c ≤ q.length) (hrounds : front.length < rounds) :
    (decoding alphabet (front ++ [w, a, b, c]) = none ∧
      ((∃ i k r, decode_loop alphabet (x ++ (front ++ [w, a, b, c])) rounds p.length x.length (p ++ q) =
          some (false, i, k, r)) ∨
        ∃ i k r r', decode_loop alphabet (x ++ (front ++ [w, a, b, c])) rounds p.length x.length (p ++ q) =
          some (true, i, k, r) ∧
          decode_last alphabet (x ++ (front ++ [w, a, b, c])) (paddings b c) i k r = some (false, r'))) ∨
    ∃ s i k r, decoding alphabet (front ++ [w, a, b, c]) = some s ∧
      decode_loop alphabet (x ++ (front ++ [w, a, b, c])) rounds p.length x.length (p ++ q) = some (true, i, k, r) ∧
      decode_last alphabet (x ++ (front ++ [w, a, b, c])) (paddings b c) i k r =
        some (true, p ++ s ++ q.drop s.length) := by
  induction rounds generalizing x front p q with
  | zero => exact absurd hrounds (Nat.not_lt_zero _)
  | succ rounds ih =>
    rw [decode_loop]
    by_cases hnil : front = []
    · -- the last group
      subst hnil
      simp only [nil_append] at hq ⊢
      rw [if_neg (by simp)]
      rcases decode_last_eq x w a b c (p := p) (by simpa using hq) with ⟨hnone, r, hlast⟩ | ⟨s, hs, -, hlast⟩
      · exact Or.inl ⟨hnone, Or.inr ⟨_, _, _, r, rfl, hlast⟩⟩
      · exact Or.inr ⟨s, _, _, _, hs, rfl, hlast⟩
    obtain ⟨d, e, f, g, front', rfl⟩ : ∃ d e f g front', front = d :: e :: f :: g :: front' := by
      match front, hnil, hfront with
      | d :: e :: f :: g :: front', _, _ => exact ⟨d, e, f, g, front', rfl⟩
      | [_], _, h => simp at h
      | [_, _], _, h => simp at h
      | [_, _, _], _, h => simp at h
    simp only [length_append, length_cons, length_nil] at hfront hq hrounds
    have hpadding : paddings b c ≤ 2 := by
      unfold paddings
      split <;> split <;> omega
    have hmore : x.length + 4 < (x ++ (d :: e :: f :: g :: front' ++ [w, a, b, c])).length := by
      simp only [length_append, length_cons, length_nil]
      omega
    have hpositions := @positions_eq alphabet x [d, e, f, g] (front' ++ [w, a, b, c])
    have hsource : x ++ ([d, e, f, g] ++ (front' ++ [w, a, b, c])) =
        x ++ (d :: e :: f :: g :: front' ++ [w, a, b, c]) := by simp
    rw [hsource] at hpositions
    have hdecoding : decoding alphabet (d :: e :: f :: g :: front' ++ [w, a, b, c]) =
        (decoding.full alphabet d e f g).bind fun group =>
          (decoding alphabet (front' ++ [w, a, b, c])).map (group ++ ·) := decoding_append d e f g (by simp)
    rw [if_pos hmore, hdecoding]
    rcases full_group (p := p) (q := q) _ hpositions rfl (by omega) with
      ⟨hnone, hpos⟩ | ⟨p0, p1, p2, p3, group, hpos, hgroup, hstore⟩
    · exact Or.inl ⟨by rw [hnone]; rfl, Or.inl ⟨p.length, x.length, p ++ q, by simp only [hpos]⟩⟩
    have hlength := length_full hgroup
    have hi : p.length + 3 = (p ++ group).length := by rw [length_append, hlength]
    have hk : x.length + 4 = (x ++ [d, e, f, g]).length := by simp
    have hx : x ++ (d :: e :: f :: g :: front' ++ [w, a, b, c]) =
        (x ++ [d, e, f, g]) ++ (front' ++ [w, a, b, c]) := by simp
    simp only [hpos, hstore, bind_some]
    rw [hgroup, hi, hk, hx]
    have hnext := @ih (x ++ [d, e, f, g]) front' (p ++ group) (q.drop 3) (by omega)
      (by simp only [length_append, length_cons, length_nil, length_drop]; omega) (by omega)
    rcases hnext with ⟨hnone, hfail⟩ | ⟨s, i, k, r, hs, hloop, hlast⟩
    · exact Or.inl ⟨by rw [hnone]; rfl, hfail⟩
    refine Or.inr ⟨group ++ s, i, k, r, by rw [hs]; rfl, hloop, ?_⟩
    rw [hlast, drop_drop, length_append, hlength]
    simp

theorem last_group (hpos : 0 < source.length) (hfour : source.length % 4 = 0) :
    ∃ front w a b c, source = front ++ [w, a, b, c] ∧ front.length % 4 = 0 := by
  have hdrop : (source.drop (source.length - 4)).length = 4 := by
    rw [length_drop]
    omega
  match hlast : source.drop (source.length - 4), hdrop with
  | [w, a, b, c], _ =>
    refine ⟨source.take (source.length - 4), w, a, b, c, ?_, ?_⟩
    · rw [← hlast, take_append_drop]
    rw [length_take]
    omega

theorem decode_with_alphabet_eq {front : List Byte} (w a b c : Byte) (hfront : front.length % 4 = 0)
    (dest : Option (List Byte)) (dest_length : Nat) :
    decode_with_alphabet alphabet (front ++ [w, a, b, c]) dest dest_length =
      match room dest dest_length ((front ++ [w, a, b, c]).length / 4 * 3 - paddings b c) with
      | none => some { ok := false, dest, dest_length }
      | some result =>
        match decode_loop alphabet (front ++ [w, a, b, c]) ((front ++ [w, a, b, c]).length + 1) 0 0 result with
        | none => none
        | some (false, _, _, result) =>
          some (decode_error dest result ((front ++ [w, a, b, c]).length / 4 * 3 - paddings b c))
        | some (true, i, k, result) =>
          match decode_last alphabet (front ++ [w, a, b, c]) (paddings b c) i k result with
          | none => none
          | some (false, result) =>
            some (decode_error dest result ((front ++ [w, a, b, c]).length / 4 * 3 - paddings b c))
          | some (true, result) =>
            some { ok := true, dest := some result,
                   dest_length := (front ++ [w, a, b, c]).length / 4 * 3 - paddings b c } := by
  have hlength : (front ++ [w, a, b, c]).length = front.length + 4 := by simp
  have hlast : read8 (front ++ [w, a, b, c]) ((front ++ [w, a, b, c]).length - 1) = some c := by
    rw [hlength]
    exact read8_append_succ front w [a, b, c] 2
  have hbefore : read8 (front ++ [w, a, b, c]) ((front ++ [w, a, b, c]).length - 2) = some b := by
    rw [hlength]
    exact read8_append_succ front w [a, b, c] 1
  have hguard : ((front ++ [w, a, b, c]).length < 1 || (front ++ [w, a, b, c]).length % 4 ≠ 0) = false := by
    simp only [Bool.or_eq_false_iff, decide_eq_false_iff_not]
    omega
  rw [decode_with_alphabet, hguard, hlast, hbefore]
  rfl

theorem decode_eq {source s : List Byte} (h : decoding alphabet source = some s) (hfour : source.length % 4 = 0)
    (hdest : ∀ buffer, dest = some buffer → s.length ≤ dest_length ∧ dest_length ≤ buffer.length) :
    decode_with_alphabet alphabet source dest dest_length =
      some { ok := true, dest := some (filled dest s), dest_length := s.length } := by
  have hpos : 0 < source.length := by
    cases source with
    | nil => simp [decoding] at h
    | cons => simp
  obtain ⟨front, w, a, b, c, rfl, hfront⟩ := last_group hpos hfour
  have hlength := length_decoding hfront h
  obtain ⟨result, hroom, hresult, hfilled⟩ := room_eq hdest
  rw [hlength] at hroom hresult
  have hrun := @decode_from alphabet ((front ++ [w, a, b, c]).length + 1) [] front [] result w a b c hfront hresult
    (by rw [length_append]; omega)
  simp only [nil_append, length_nil] at hrun
  rw [decode_with_alphabet_eq w a b c hfront, hroom]
  rcases hrun with ⟨hnone, -⟩ | ⟨s', i, k, r, hs', hloop, hlast⟩
  · rw [hnone] at h
    cases h
  rw [h] at hs'
  cases hs'
  simp only [hloop, hlast]
  rw [hfilled, hlength]

theorem decode_refuses (hdest : ∀ buffer, dest = some buffer → dest_length ≤ buffer.length)
    (h : source.length % 4 ≠ 0 ∨ decoding alphabet source = none ∨
      ∃ s buffer, decoding alphabet source = some s ∧ dest = some buffer ∧ dest_length < s.length) :
    ∃ output, decode_with_alphabet alphabet source dest dest_length = some output ∧ output.ok = false := by
  by_cases hguard : source.length < 1 ∨ source.length % 4 ≠ 0
  · refine ⟨{ ok := false, dest, dest_length }, ?_, rfl⟩
    rw [decode_with_alphabet, if_pos (by simpa using hguard)]
  obtain ⟨front, w, a, b, c, rfl, hfront⟩ := last_group (show 0 < source.length by omega) (by omega)
  rw [decode_with_alphabet_eq w a b c hfront]
  cases hroom : room dest dest_length ((front ++ [w, a, b, c]).length / 4 * 3 - paddings b c) with
  | none => exact ⟨_, rfl, rfl⟩
  | some result =>
    have hresult : (front ++ [w, a, b, c]).length / 4 * 3 - paddings b c ≤ result.length := by
      cases dest with
      | none =>
        cases hroom
        simp
      | some buffer =>
        have hbuffer := hdest buffer rfl
        rw [room] at hroom
        split at hroom
        · cases hroom
        cases hroom
        omega
    have hrun := @decode_from alphabet ((front ++ [w, a, b, c]).length + 1) [] front [] result w a b c hfront
      hresult (by rw [length_append]; omega)
    simp only [nil_append, length_nil] at hrun
    rcases hrun with ⟨-, ⟨i, k, r, hloop⟩ | ⟨i, k, r, r', hloop, hlast⟩⟩ | ⟨s, i, k, r, hs, hloop, hlast⟩
    · exact ⟨decode_error dest r ((front ++ [w, a, b, c]).length / 4 * 3 - paddings b c), by simp only [hloop], rfl⟩
    · exact ⟨decode_error dest r' ((front ++ [w, a, b, c]).length / 4 * 3 - paddings b c), by
        simp only [hloop, hlast], rfl⟩
    -- a buffer that is too short is refused before
    exfalso
    rcases h with hlength | hnone | ⟨s', buffer, hs', rfl, hshort⟩
    · omega
    · rw [hnone] at hs
      cases hs
    have hlength := length_decoding hfront hs'
    rw [room, if_pos (by omega)] at hroom
    cases hroom

theorem octet_toNat (n : Nat) : (octet n).toNat = n % 256 := BitVec.toNat_ofNat n 8

theorem octet_eq {a : Byte} (h : n % 256 = a.toNat) : octet n = a :=
  BitVec.eq_of_toNat_eq ((octet_toNat n).trans h)

theorem position_digit (h : n < 64) : alphabetPosition alphabet (encoding.digit alphabet n) = some n :=
  alphabetPosition_eq.mpr ⟨h, rfl⟩

theorem digit_ne_padding (h : n < 64) : encoding.digit alphabet n ≠ padding := by
  intro heq
  exact alphabet.unpadded (heq ▸ digit_mem h)

theorem full_digits (a b c : Byte) : decoding.full alphabet (encoding.digit alphabet (a.toNat / 4))
      (encoding.digit alphabet (a.toNat % 4 * 16 + b.toNat / 16))
      (encoding.digit alphabet (b.toNat % 16 * 4 + c.toNat / 64)) (encoding.digit alphabet (c.toNat % 64)) =
      some [a, b, c] := by
  have ha := a.isLt
  have hb := b.isLt
  have hc := c.isLt
  rw [decoding.full, position_digit (by omega), position_digit (by omega), position_digit (by omega),
    position_digit (by omega)]
  simp only [bind_some, map_some]
  rw [octet_eq (a := a) (by omega), octet_eq (a := b) (by omega), octet_eq (a := c) (by omega)]

theorem decoding_encoding {s : List Byte} (h : s ≠ []) : decoding alphabet (encoding alphabet s) = some s := by
  fun_induction encoding alphabet s with
  | case1 a b c s ih =>
    by_cases hs : s = []
    · subst hs
      have hc : encoding.digit alphabet (c.toNat % 64) ≠ padding := digit_ne_padding (by omega)
      rw [encoding, List.append_nil, decoding, if_neg hc]
      exact full_digits a b c
    have hne : encoding alphabet s ≠ [] := by
      intro hnil
      have hlength := @length_encoding alphabet s
      have hpos := length_pos_of_ne_nil hs
      rw [hnil, length_nil] at hlength
      split at hlength <;> omega
    have hgroup := @decoding_append alphabet (encoding.digit alphabet (a.toNat / 4))
      (encoding.digit alphabet (a.toNat % 4 * 16 + b.toNat / 16))
      (encoding.digit alphabet (b.toNat % 16 * 4 + c.toNat / 64)) (encoding.digit alphabet (c.toNat % 64)) _ hne
    exact hgroup.trans (by rw [full_digits, ih hs]; rfl)
  | case2 a b =>
    have ha := a.isLt
    have hb := b.isLt
    have hthird : encoding.digit alphabet (b.toNat % 16 * 4) ≠ padding := digit_ne_padding (by omega)
    rw [decoding, if_pos rfl, if_neg hthird, position_digit (by omega), position_digit (by omega),
      position_digit (by omega)]
    simp only [bind_some, map_some]
    rw [octet_eq (a := a) (by omega), octet_eq (a := b) (by omega)]
  | case3 a =>
    have ha := a.isLt
    rw [decoding, if_pos rfl, if_pos rfl, position_digit (by omega), position_digit (by omega)]
    simp only [bind_some, map_some]
    rw [octet_eq (a := a) (by omega)]
  | case4 => exact absurd rfl h

/-- The text is letters with at most two paddings behind them, and it is the text of the string
except for the low bits of its last letter that no octet needs. -/
def Spells (alphabet : Alphabet) (text s : List Byte) : Prop :=
  ∃ (front : List Byte) (last pads : Nat), (∀ c ∈ front, c ∈ alphabet.letters) ∧ last < 64 ∧ pads ≤ 2 ∧
    text = front ++ encoding.digit alphabet last :: List.replicate pads padding ∧
    encoding alphabet s =
      front ++ encoding.digit alphabet (last / 4 ^ pads * 4 ^ pads) :: List.replicate pads padding

theorem full_encoding {w x y z : Byte} {group : List Byte} (h : decoding.full alphabet w x y z = some group)
    (s : List Byte) :
    encoding alphabet (group ++ s) = [w, x, y, z] ++ encoding alphabet s ∧
      (∀ c ∈ [w, x, y], c ∈ alphabet.letters) ∧ ∃ last, last < 64 ∧ encoding.digit alphabet last = z := by
  rw [decoding.full] at h
  obtain ⟨p, hp, h⟩ := bind_eq_some_iff.mp h
  obtain ⟨q, hq, h⟩ := bind_eq_some_iff.mp h
  obtain ⟨r, hr, h⟩ := bind_eq_some_iff.mp h
  obtain ⟨t, ht, rfl⟩ := map_eq_some_iff.mp h
  obtain ⟨lt_p, rfl⟩ := alphabetPosition_eq.mp hp
  obtain ⟨lt_q, rfl⟩ := alphabetPosition_eq.mp hq
  obtain ⟨lt_r, rfl⟩ := alphabetPosition_eq.mp hr
  obtain ⟨lt_t, rfl⟩ := alphabetPosition_eq.mp ht
  refine ⟨?_, ?_, t, lt_t, rfl⟩
  · have h0 : (p * 4 + q / 16) % 256 / 4 = p := by omega
    have h1 : (p * 4 + q / 16) % 256 % 4 * 16 + (q * 16 + r / 4) % 256 / 16 = q := by omega
    have h2 : (q * 16 + r / 4) % 256 % 16 * 4 + (r * 64 + t) % 256 / 64 = r := by omega
    have h3 : (r * 64 + t) % 256 % 64 = t := by omega
    simp only [List.cons_append, nil_append, encoding, octet_toNat, h0, h1, h2, h3]
  intro c hc
  simp only [mem_cons, not_mem_nil, or_false] at hc
  rcases hc with rfl | rfl | rfl
  · exact digit_mem lt_p
  · exact digit_mem lt_q
  · exact digit_mem lt_r

theorem spells_of_decoding {text s : List Byte} (h : decoding alphabet text = some s) : Spells alphabet text s := by
  fun_induction decoding alphabet text generalizing s with
  | case1 w x =>
    obtain ⟨p, hp, h⟩ := bind_eq_some_iff.mp h
    obtain ⟨q, hq, rfl⟩ := map_eq_some_iff.mp h
    obtain ⟨lt_p, rfl⟩ := alphabetPosition_eq.mp hp
    obtain ⟨lt_q, rfl⟩ := alphabetPosition_eq.mp hq
    refine ⟨[encoding.digit alphabet p], q, 2, by simpa using digit_mem lt_p, lt_q, Nat.le_refl 2, rfl, ?_⟩
    have h0 : (p * 4 + q / 16) % 256 / 4 = p := by omega
    have h1 : (p * 4 + q / 16) % 256 % 4 * 16 = q / 4 ^ 2 * 4 ^ 2 := by omega
    rw [encoding, octet_toNat, h0, h1]
    rfl
  | case2 w x y hy =>
    obtain ⟨p, hp, h⟩ := bind_eq_some_iff.mp h
    obtain ⟨q, hq, h⟩ := bind_eq_some_iff.mp h
    obtain ⟨r, hr, rfl⟩ := map_eq_some_iff.mp h
    obtain ⟨lt_p, rfl⟩ := alphabetPosition_eq.mp hp
    obtain ⟨lt_q, rfl⟩ := alphabetPosition_eq.mp hq
    obtain ⟨lt_r, rfl⟩ := alphabetPosition_eq.mp hr
    have hmem : ∀ c ∈ [encoding.digit alphabet p, encoding.digit alphabet q], c ∈ alphabet.letters := by
      simpa using ⟨digit_mem lt_p, digit_mem lt_q⟩
    refine ⟨[encoding.digit alphabet p, encoding.digit alphabet q], r, 1, hmem, lt_r, by decide, rfl, ?_⟩
    have h0 : (p * 4 + q / 16) % 256 / 4 = p := by omega
    have h1 : (p * 4 + q / 16) % 256 % 4 * 16 + (q * 16 + r / 4) % 256 / 16 = q := by omega
    have h2 : (q * 16 + r / 4) % 256 % 16 * 4 = r / 4 ^ 1 * 4 ^ 1 := by omega
    rw [encoding, octet_toNat, octet_toNat, h0, h1, h2]
    rfl
  | case3 w x y z hz =>
    obtain ⟨hencoding, hmem, last, hlast, rfl⟩ := full_encoding h []
    rw [List.append_nil] at hencoding
    refine ⟨[w, x, y], last, 0, hmem, hlast, by decide, rfl, ?_⟩
    rw [hencoding, pow_zero, Nat.div_one, Nat.mul_one]
    rfl
  | case4 w x y z t hne ih =>
    obtain ⟨group, hgroup, h⟩ := bind_eq_some_iff.mp h
    obtain ⟨s', hs', rfl⟩ := map_eq_some_iff.mp h
    obtain ⟨front, last, pads, hfront, hlast, hpads, rfl, hencoding⟩ := ih hs'
    obtain ⟨hgroup', hmem, d, hd, rfl⟩ := full_encoding hgroup s'
    refine ⟨[w, x, y, encoding.digit alphabet d] ++ front, last, pads, ?_, hlast, hpads, rfl, ?_⟩
    · refine forall_mem_append.mpr ⟨?_, hfront⟩
      intro c hc
      simp only [mem_cons, not_mem_nil, or_false] at hc hmem
      rcases hc with rfl | rfl | rfl | rfl
      · exact hmem _ (Or.inl rfl)
      · exact hmem _ (Or.inr (Or.inl rfl))
      · exact hmem _ (Or.inr (Or.inr rfl))
      · exact digit_mem hd
    rw [hgroup', hencoding]
    simp
  | case5 => cases h

/-- The buffer of the caller, if there is one, is as long as is said and has room for some octets. -/
def Room (dest : Option (List Byte)) (dest_length n : Nat) : Prop :=
  ∀ buffer, dest = some buffer → n ≤ dest_length ∧ dest_length ≤ buffer.length

/-- Encoding and decoding are inverse to each other and stay within their buffers, and only texts of
the right form are decoded. -/
theorem codec_laws (alphabet : Alphabet) :
    (∀ (source : List Byte) (dest dest' : Option (List Byte)) (dest_length dest_length' : Nat), source ≠ [] →
      Room dest dest_length (source.length / 3 * 4 + if 0 < source.length % 3 then 4 else 0) →
      Room dest' dest_length' source.length →
      ∃ text, text.length = (source.length / 3 * 4 + if 0 < source.length % 3 then 4 else 0) ∧
        encode_with_alphabet alphabet source dest dest_length =
          some { ok := true, dest := some (filled dest text), dest_length := text.length } ∧
        decode_with_alphabet alphabet text dest' dest_length' =
          some { ok := true, dest := some (filled dest' source), dest_length := source.length }) ∧
    ∀ (text : List Byte) (dest : Option (List Byte)) (dest_length : Nat), Room dest dest_length 0 →
      ∃ output, decode_with_alphabet alphabet text dest dest_length = some output ∧
        (output.ok = true → ∃ s, output.dest = some (filled dest s) ∧ output.dest_length = s.length ∧
          text.length % 4 = 0 ∧ Spells alphabet text s) := by
  constructor
  · intro source dest dest' dest_length dest_length' hsource hdest hdest'
    rw [← @length_encoding alphabet] at hdest ⊢
    have hfour : (encoding alphabet source).length % 4 = 0 := by
      rw [length_encoding]
      split <;> omega
    exact ⟨encoding alphabet source, rfl, encode_eq (length_pos_of_ne_nil hsource) hdest,
      decode_eq (decoding_encoding hsource) hfour hdest'⟩
  · intro text dest dest_length hdest
    have hlength : ∀ buffer, dest = some buffer → dest_length ≤ buffer.length := fun buffer h => (hdest buffer h).2
    by_cases hfour : text.length % 4 = 0
    · cases hs : decoding alphabet text with
      | none =>
        obtain ⟨output, houtput, hok⟩ := decode_refuses hlength (Or.inr (Or.inl hs))
        exact ⟨output, houtput, by simp [hok]⟩
      | some s =>
        by_cases hshort : ∃ buffer, dest = some buffer ∧ dest_length < s.length
        · obtain ⟨buffer, hbuffer, hshort⟩ := hshort
          obtain ⟨output, houtput, hok⟩ := decode_refuses hlength (Or.inr (Or.inr ⟨s, buffer, hs, hbuffer, hshort⟩))
          exact ⟨output, houtput, by simp [hok]⟩
        · have hroom : ∀ buffer, dest = some buffer → s.length ≤ dest_length ∧ dest_length ≤ buffer.length := by
            intro buffer hbuffer
            refine ⟨?_, hlength buffer hbuffer⟩
            by_contra hlt
            exact hshort ⟨buffer, hbuffer, by omega⟩
          exact ⟨_, decode_eq hs hfour hroom, fun _ => ⟨s, rfl, rfl, hfour, spells_of_decoding hs⟩⟩
    · obtain ⟨output, houtput, hok⟩ := decode_refuses hlength (Or.inl hfour)
      exact ⟨output, houtput, by simp [hok]⟩

/-- The string `Ma` in new buffers. -/
theorem codec_laws_short : ∃ text, text.length = 4 ∧
      encode_with_alphabet base64Alphabet [0x4D, 0x61] none 0 =
        some { ok := true, dest := some (filled none text), dest_length := text.length } ∧
      decode_with_alphabet base64Alphabet text none 0 =
        some { ok := true, dest := some (filled none [0x4D, 0x61]), dest_length := 2 } :=
  (codec_laws base64Alphabet).1 [0x4D, 0x61] none none 0 0 (by decide) (fun _ h => by cases h) (fun _ h => by cases h)

end openvocs.base64
