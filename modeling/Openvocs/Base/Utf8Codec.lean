import Openvocs.Base.Utf8

/-!
An access beyond the end of a buffer yields `none`.
-/

open List Option

namespace openvocs.utf8

open bytes

/-- The character at a position, as a round of the loop of `ov_utf8_last_valid` looks at it: how
many octets it has. The loop is left when the inner value is `none`. -/
def character (s : List Byte) (p size : Nat) : Option (Option Nat) :=
  (read8 s p).bind fun a =>
    if a.toNat ≤ 0x7f then some (some 1)
    else if a.toNat < 0xC2 then some none
    else if a.toNat ≤ 0xDF then
      if size < 2 then some none
      else
        (read8 s (p + 1)).bind fun b =>
          if is_tail b then some (some 2) else some none
    else if a.toNat < 0xF0 then
      if size < 3 then some none
      else
        (read8 s (p + 1)).bind fun b =>
          if a.toNat = 0xE0 ∧ b.toNat < 0xA0 then some none
          else if a.toNat = 0xED ∧ 0x9F < b.toNat then some none
          else if ¬ is_tail b then some none
          else
            (read8 s (p + 2)).bind fun c =>
              if ¬ is_tail c then some none else some (some 3)
    else if a.toNat ≤ 0xF4 then
      if size < 4 then some none
      else
        (read8 s (p + 1)).bind fun b =>
          if a.toNat = 0xF0 ∧ b.toNat < 0x90 then some none
          else if a.toNat = 0xF4 ∧ 0x8f < b.toNat then some none
          else if ¬ is_tail b then some none
          else
            (read8 s (p + 2)).bind fun c =>
              if ¬ is_tail c then some none
              else
                (read8 s (p + 3)).bind fun d =>
                  if ¬ is_tail d then some none else some (some 4)
    else some none

/-- The loop of `ov_utf8_last_valid`, with a bound on its rounds: where it stands, and where the
character in front of that begins. -/
def last_valid_loop (s : List Byte) : Nat → Nat → Option Nat → Nat → Option (Nat × Option Nat)
  | 0, _, _, _ => none
  | rounds + 1, p, c, size =>
    if 0 < size then
      match character s p size with
      | none => none
      | some none => some (p, c)
      | some (some n) => last_valid_loop s rounds (p + n) (some p) (size - n)
    else some (p, c)

/-- `ov_utf8_last_valid`: a position in the string, or no pointer at all. -/
def last_valid (s : List Byte) (character_start : Bool) : Option (Option Nat) :=
  (last_valid_loop s (s.length + 1) 0 none s.length).map fun (p, c) => if character_start then c else some p

def validate (s : List Byte) : Option Bool :=
  if s.length < 1 then some false
  else (last_valid s false).map fun result => result = some s.length

/-- What `ov_utf8_encode_code_point` leaves: its result, the array and the number of octets used. -/
structure Encoded where
  ok : Bool
  start : Option (List Byte)
  used : Nat

/-- A character is written to the array of the caller if that is large enough, or to a new one. -/
def put_octets (start : Option (List Byte)) (size : Nat) (octets : List Byte) : Option Encoded :=
  match start with
  | none =>
    (store (List.replicate octets.length 0) 0 octets).map fun array =>
      { ok := true, start := some array, used := octets.length }
  | some array =>
    if size < octets.length then some { ok := false, start, used := 0 }
    else (store array 0 octets).map fun array => { ok := true, start := some array, used := octets.length }

/-- A number as an octet. -/
def octet (n : Nat) : Byte := BitVec.ofNat 8 n

def encode_code_point (number : Nat) (start : Option (List Byte)) (size : Nat) : Option Encoded :=
  if number ≤ 127 then put_octets start size [octet (number &&& 0x7F)]
  else if number ≤ 0x07FF then
    put_octets start size [octet (0xC0 ||| (0x1F &&& (number >>> 6))), octet (0x80 ||| (0x3F &&& number))]
  else if 0xD800 ≤ number ∧ number ≤ 0xDFFF then some { ok := false, start, used := 0 }
  else if number ≤ 0xFFFF then
    put_octets start size [octet (0xE0 ||| (0x0F &&& (number >>> 12))), octet (0x80 ||| (0x3F &&& (number >>> 6))),
      octet (0x80 ||| (0x3F &&& number))]
  else if number ≤ 0x10FFFF then
    put_octets start size [octet (0xF0 ||| (0x07 &&& (number >>> 18))), octet (0x80 ||| (0x3F &&& (number >>> 12))),
      octet (0x80 ||| (0x3F &&& (number >>> 6))), octet (0x80 ||| (0x3F &&& number))]
  else some { ok := false, start, used := 0 }

/-- What `ov_utf8_decode_code_point` leaves: the number, and the number of octets if it is set. -/
structure Decoded where
  number : Nat
  bytes : Option Nat
  deriving DecidableEq

/-- `ov_utf8_decode_code_point` of the octets that are open. -/
def decode_code_point (p : List Byte) : Option Decoded :=
  if p.length < 1 then some { number := 0, bytes := none }
  else
    let failed : Option Decoded := some { number := 0, bytes := some 0 }
    (read8 p 0).bind fun a =>
      if a.toNat ≤ 0x7f then some { number := a.toNat &&& 0x7F, bytes := some 1 }
      else if a.toNat < 0xC2 then failed
      else if a.toNat ≤ 0xDF then
        if p.length < 2 then failed
        else
          (read8 p 1).bind fun b =>
            if ¬ is_tail b then failed
            else some { number := ((a.toNat <<< 6) &&& 0x07C0) ||| (b.toNat &&& 0x3F), bytes := some 2 }
      else if a.toNat < 0xF0 then
        if p.length < 3 then failed
        else
          (read8 p 1).bind fun b =>
            if a.toNat = 0xE0 ∧ b.toNat < 0xA0 then failed
            else if a.toNat = 0xED ∧ 0x9F < b.toNat then failed
            else if ¬ is_tail b then failed
            else
              (read8 p 2).bind fun c =>
                if ¬ is_tail c then failed
                else some {
                  number := ((a.toNat <<< 12) &&& 0xF000) ||| ((b.toNat <<< 6) &&& 0x0FC0) ||| (c.toNat &&& 0x3F),
                  bytes := some 3 }
      else if a.toNat ≤ 0xF4 then
        if p.length < 4 then failed
        else
          (read8 p 1).bind fun b =>
            if a.toNat = 0xF0 ∧ b.toNat < 0x90 then failed
            else if a.toNat = 0xF4 ∧ 0x8f < b.toNat then failed
            else if ¬ is_tail b then failed
            else
              (read8 p 2).bind fun c =>
                if ¬ is_tail c then failed
                else
                  (read8 p 3).bind fun d =>
                    if ¬ is_tail d then failed
                    else some {
                      number := ((a.toNat <<< 18) &&& 0x1C0000) ||| ((b.toNat <<< 12) &&& 0x3F000) |||
                        ((c.toNat <<< 6) &&& 0x0FC0) ||| (d.toNat &&& 0x3F),
                      bytes := some 4 }
      else failed

example : decode_code_point [0xE2, 0x82, 0xAC] = some { number := 0x20AC, bytes := some 3 } := by decide

/-- A Unicode scalar value. -/
def Scalar (n : Nat) : Prop := n ≤ 0x10FFFF ∧ ¬ (0xD800 ≤ n ∧ n ≤ 0xDFFF)

instance (n : Nat) : Decidable (Scalar n) := inferInstanceAs (Decidable (_ ∧ _))

/-- The octets of a character. -/
def octets (n : Nat) : List Byte :=
  if n ≤ 0x7F then [octet n]
  else if n ≤ 0x7FF then [octet (0xC0 + n / 64), octet (0x80 + n % 64)]
  else if n ≤ 0xFFFF then [octet (0xE0 + n / 4096), octet (0x80 + n / 64 % 64), octet (0x80 + n % 64)]
  else [octet (0xF0 + n / 262144), octet (0x80 + n / 4096 % 64), octet (0x80 + n / 64 % 64), octet (0x80 + n % 64)]

theorem octet_toNat {n : Nat} (h : n < 256) : (octet n).toNat = n := by
  rw [octet, BitVec.toNat_ofNat]
  omega

theorem octet_self (b : Byte) : octet b.toNat = b := BitVec.eq_of_toNat_eq (octet_toNat b.isLt)

theorem octet_eq {b : Byte} {n : Nat} (h : n = b.toNat) : octet n = b := h ▸ octet_self b

theorem is_tail_iff : ∀ b : Byte, is_tail b = true ↔ 128 ≤ b.toNat ∧ b.toNat < 192 := by decide +kernel

theorem is_tail_octet (n : Nat) : is_tail (octet (0x80 + n % 64)) = true := by
  have htoNat := octet_toNat (show 0x80 + n % 64 < 256 by omega)
  rw [is_tail_iff, htoNat]
  omega

theorem octets_ne_nil (n : Nat) : octets n ≠ [] := by
  unfold octets
  split
  · simp
  split
  · simp
  · split <;> simp

theorem read8_shift (x y : List Byte) (k : Nat) : read8 (x ++ y) (x.length + k) = read8 y k := by
  rw [read8, read8, getElem?_append_right (by omega)]
  congr 1
  omega

theorem character_shift (x y : List Byte) : character (x ++ y) x.length y.length = character y 0 y.length := by
  have hfirst := read8_shift x y 0
  rw [Nat.add_zero] at hfirst
  simp [character, hfirst, read8_shift]

theorem character_octets {n : Nat} (hn : Scalar n) (rest : List Byte) :
    character (octets n ++ rest) 0 (octets n ++ rest).length = some (some (octets n).length) := by
  obtain ⟨hmax, hsurrogate⟩ := hn
  unfold octets
  split
  · have ha := octet_toNat (show n < 256 by omega)
    simp only [character, read8, List.cons_append, getElem?_cons_zero, bind_some, ha]
    rw [if_pos (by omega)]
    rfl
  split
  · have ha := octet_toNat (show 0xC0 + n / 64 < 256 by omega)
    simp only [character, read8, List.cons_append, getElem?_cons_zero, getElem?_cons_succ, Nat.zero_add,
      bind_some, ha, is_tail_octet, if_true]
    rw [if_neg (by omega), if_neg (by omega), if_pos (by omega), if_neg (by simp)]
    rfl
  split
  · have ha := octet_toNat (show 0xE0 + n / 4096 < 256 by omega)
    have hb := octet_toNat (show 0x80 + n / 64 % 64 < 256 by omega)
    simp only [character, read8, List.cons_append, getElem?_cons_zero, getElem?_cons_succ, Nat.zero_add,
      bind_some, ha, hb, is_tail_octet, not_true_eq_false, if_false]
    rw [if_neg (by omega), if_neg (by omega), if_neg (by omega), if_pos (by omega), if_neg (by simp),
      if_neg (by omega), if_neg (by omega)]
    rfl
  have ha := octet_toNat (show 0xF0 + n / 262144 < 256 by omega)
  have hb := octet_toNat (show 0x80 + n / 4096 % 64 < 256 by omega)
  simp only [character, read8, List.cons_append, getElem?_cons_zero, getElem?_cons_succ, Nat.zero_add,
    bind_some, ha, hb, is_tail_octet, not_true_eq_false, if_false]
  rw [if_neg (by omega), if_neg (by omega), if_neg (by omega), if_neg (by omega), if_pos (by omega),
    if_neg (by simp), if_neg (by omega), if_neg (by omega)]
  rfl

theorem octets_one {a : Byte} (ha : a.toNat ≤ 0x7f) : ∃ n, Scalar n ∧ octets n = [a] :=
  ⟨a.toNat, ⟨by omega, by omega⟩, by rw [octets, if_pos ha, octet_self]⟩

theorem octets_two {a b : Byte} (ha : 0xC2 ≤ a.toNat) (ha' : a.toNat ≤ 0xDF) (hb : is_tail b = true) :
    ∃ n, Scalar n ∧ octets n = [a, b] := by
  have htail := (is_tail_iff b).mp hb
  refine ⟨(a.toNat - 0xC0) * 64 + (b.toNat - 0x80), ⟨by omega, by omega⟩, ?_⟩
  rw [octets, if_neg (by omega), if_pos (by omega), octet_eq (b := a) (by omega), octet_eq (b := b) (by omega)]

theorem octets_three {a b c : Byte} (ha : 0xDF < a.toNat) (ha' : a.toNat < 0xF0)
    (hlong : ¬ (a.toNat = 0xE0 ∧ b.toNat < 0xA0)) (hsurrogate : ¬ (a.toNat = 0xED ∧ 0x9F < b.toNat))
    (hb : is_tail b = true) (hc : is_tail c = true) : ∃ n, Scalar n ∧ octets n = [a, b, c] := by
  have htail := (is_tail_iff b).mp hb
  have htail' := (is_tail_iff c).mp hc
  refine ⟨(a.toNat - 0xE0) * 4096 + (b.toNat - 0x80) * 64 + (c.toNat - 0x80), ⟨by omega, by omega⟩, ?_⟩
  rw [octets, if_neg (by omega), if_neg (by omega), if_pos (by omega), octet_eq (b := a) (by omega),
    octet_eq (b := b) (by omega), octet_eq (b := c) (by omega)]

theorem octets_four {a b c d : Byte} (ha : 0xF0 ≤ a.toNat) (ha' : a.toNat ≤ 0xF4)
    (hlong : ¬ (a.toNat = 0xF0 ∧ b.toNat < 0x90)) (hlarge : ¬ (a.toNat = 0xF4 ∧ 0x8f < b.toNat))
    (hb : is_tail b = true) (hc : is_tail c = true) (hd : is_tail d = true) :
    ∃ n, Scalar n ∧ octets n = [a, b, c, d] := by
  have htail := (is_tail_iff b).mp hb
  have htail' := (is_tail_iff c).mp hc
  have htail'' := (is_tail_iff d).mp hd
  refine ⟨(a.toNat - 0xF0) * 262144 + (b.toNat - 0x80) * 4096 + (c.toNat - 0x80) * 64 + (d.toNat - 0x80),
    ⟨by omega, by omega⟩, ?_⟩
  rw [octets, if_neg (by omega), if_neg (by omega), if_neg (by omega), octet_eq (b := a) (by omega),
    octet_eq (b := b) (by omega), octet_eq (b := c) (by omega), octet_eq (b := d) (by omega)]

theorem octets_of_character {y : List Byte} {k : Nat} (h : character y 0 y.length = some (some k)) :
    ∃ n rest, Scalar n ∧ y = octets n ++ rest ∧ k = (octets n).length := by
  have hread : ∀ (a : Byte) (s : List Byte), read8 (a :: s) 0 = some a := fun _ _ => rfl
  have hread1 : ∀ (a b : Byte) (s : List Byte), read8 (a :: b :: s) (0 + 1) = some b := fun _ _ _ => rfl
  have hread2 : ∀ (a b c : Byte) (s : List Byte), read8 (a :: b :: c :: s) (0 + 2) = some c := fun _ _ _ _ => rfl
  have hread3 : ∀ (a b c d : Byte) (s : List Byte), read8 (a :: b :: c :: d :: s) (0 + 3) = some d :=
    fun _ _ _ _ _ => rfl
  cases y with
  | nil => cases h
  | cons a s =>
    have hlt := a.isLt
    rw [character, hread, bind_some] at h
    by_cases h1 : a.toNat ≤ 0x7f
    · rw [if_pos h1] at h
      cases h
      obtain ⟨n, hn, hoctets⟩ := octets_one h1
      exact ⟨n, s, hn, by rw [hoctets]; rfl, by rw [hoctets]; rfl⟩
    rw [if_neg h1] at h
    by_cases hlow : a.toNat < 0xC2
    · rw [if_pos hlow] at h
      cases h
    rw [if_neg hlow] at h
    by_cases h2 : a.toNat ≤ 0xDF
    · rw [if_pos h2] at h
      match s, h with
      | b :: s, h =>
        rw [if_neg (by simp), hread1, bind_some] at h
        by_cases hb : is_tail b = true
        · rw [if_pos hb] at h
          cases h
          obtain ⟨n, hn, hoctets⟩ := octets_two (by omega) h2 hb
          exact ⟨n, s, hn, by rw [hoctets]; rfl, by rw [hoctets]; rfl⟩
        rw [if_neg hb] at h
        cases h
    rw [if_neg h2] at h
    by_cases h3 : a.toNat < 0xF0
    · rw [if_pos h3] at h
      match s, h with
      | b :: c :: s, h =>
        rw [if_neg (by simp), hread1, bind_some, hread2, bind_some] at h
        by_cases he0 : a.toNat = 0xE0 ∧ b.toNat < 0xA0
        · rw [if_pos he0] at h
          cases h
        rw [if_neg he0] at h
        by_cases hed : a.toNat = 0xED ∧ 0x9F < b.toNat
        · rw [if_pos hed] at h
          cases h
        rw [if_neg hed] at h
        by_cases hb : is_tail b = true
        · rw [if_neg (not_not.mpr hb)] at h
          by_cases hc : is_tail c = true
          · rw [if_neg (not_not.mpr hc)] at h
            cases h
            obtain ⟨n, hn, hoctets⟩ := octets_three (by omega) h3 he0 hed hb hc
            exact ⟨n, s, hn, by rw [hoctets]; rfl, by rw [hoctets]; rfl⟩
          rw [if_pos hc] at h
          cases h
        rw [if_pos hb] at h
        cases h
    rw [if_neg h3] at h
    by_cases h4 : a.toNat ≤ 0xF4
    · rw [if_pos h4] at h
      match s, h with
      | b :: c :: d :: s, h =>
        rw [if_neg (by simp), hread1, bind_some, hread2, bind_some, hread3, bind_some] at h
        by_cases hf0 : a.toNat = 0xF0 ∧ b.toNat < 0x90
        · rw [if_pos hf0] at h
          cases h
        rw [if_neg hf0] at h
        by_cases hf4 : a.toNat = 0xF4 ∧ 0x8f < b.toNat
        · rw [if_pos hf4] at h
          cases h
        rw [if_neg hf4] at h
        by_cases hb : is_tail b = true
        · rw [if_neg (not_not.mpr hb)] at h
          by_cases hc : is_tail c = true
          · rw [if_neg (not_not.mpr hc)] at h
            by_cases hd : is_tail d = true
            · rw [if_neg (not_not.mpr hd)] at h
              cases h
              obtain ⟨n, hn, hoctets⟩ := octets_four (by omega) h4 hf0 hf4 hb hc hd
              exact ⟨n, s, hn, by rw [hoctets]; rfl, by rw [hoctets]; rfl⟩
            rw [if_pos hd] at h
            cases h
          rw [if_pos hc] at h
          cases h
        rw [if_pos hb] at h
        cases h
    · rw [if_neg h4] at h
      cases h

theorem character_some {y : List Byte} (hy : 0 < y.length) : ∃ found, character y 0 y.length = some found := by
  have hbind : ∀ (k : Nat) (f : Byte → Option (Option Nat)), k < y.length → (∀ b, ∃ found, f b = some found) →
      ∃ found, (read8 y k).bind f = some found := by
    intro k f hk hf
    obtain ⟨b, hb⟩ := read8_isSome hk
    rw [hb, bind_some]
    exact hf b
  have hguard : ∀ {p : Prop} [Decidable p] {x z : Option (Option Nat)}, (p → ∃ found, x = some found) →
      (¬ p → ∃ found, z = some found) → ∃ found, (if p then x else z) = some found := by
    intro p _ x z hx hz
    by_cases hp : p
    · rw [if_pos hp]
      exact hx hp
    rw [if_neg hp]
    exact hz hp
  have hsome : ∀ found : Option Nat, ∃ r, some found = some r := fun found => ⟨found, rfl⟩
  refine hbind 0 _ hy fun a => ?_
  refine hguard (fun _ => hsome _) fun _ => hguard (fun _ => hsome _) fun _ => hguard (fun _ => ?_) fun _ =>
    hguard (fun _ => ?_) fun _ => hguard (fun _ => ?_) fun _ => hsome _
  · exact hguard (fun _ => hsome _) fun hsize => hbind 1 _ (by omega) fun b =>
      hguard (fun _ => hsome _) fun _ => hsome _
  · exact hguard (fun _ => hsome _) fun hsize => hbind 1 _ (by omega) fun b =>
      hguard (fun _ => hsome _) fun _ => hguard (fun _ => hsome _) fun _ => hguard (fun _ => hsome _) fun _ =>
        hbind 2 _ (by omega) fun c => hguard (fun _ => hsome _) fun _ => hsome _
  exact hguard (fun _ => hsome _) fun hsize => hbind 1 _ (by omega) fun b =>
    hguard (fun _ => hsome _) fun _ => hguard (fun _ => hsome _) fun _ => hguard (fun _ => hsome _) fun _ =>
      hbind 2 _ (by omega) fun c => hguard (fun _ => hsome _) fun _ => hbind 3 _ (by omega) fun d =>
        hguard (fun _ => hsome _) fun _ => hsome _

/-- A row of characters. -/
def sequence (ns : List Nat) : List Byte := ns.flatMap octets

@[simp] theorem sequence_nil : sequence [] = [] := rfl

@[simp] theorem sequence_cons (n : Nat) (ns : List Nat) : sequence (n :: ns) = octets n ++ sequence ns := rfl

theorem sequence_split (s : List Byte) : ∃ ns rest, (∀ n ∈ ns, Scalar n) ∧ s = sequence ns ++ rest ∧
      (rest = [] ∨ character rest 0 rest.length = some none) := by
  induction hlength : s.length using Nat.strong_induction_on generalizing s with
  | _ length ih =>
    by_cases hs : s = []
    · exact ⟨[], [], by simp, hs, Or.inl rfl⟩
    obtain ⟨found, hfound⟩ := character_some (length_pos_of_ne_nil hs)
    cases found with
    | none => exact ⟨[], s, by simp, rfl, Or.inr hfound⟩
    | some k =>
      obtain ⟨n, rest, hn, rfl, -⟩ := octets_of_character hfound
      have hpos := length_pos_of_ne_nil (octets_ne_nil n)
      obtain ⟨ns, rest', hns, hrest, hend⟩ := ih rest.length
        (by rw [length_append] at hlength; omega) rest rfl
      exact ⟨n :: ns, rest', forall_mem_cons.mpr ⟨hn, hns⟩, by rw [sequence_cons, append_assoc, ← hrest], hend⟩

/-- Where the last character of a row begins. -/
def last_start (ns : List Nat) : Option Nat :=
  ns.getLast?.map fun n => (sequence ns).length - (octets n).length

theorem length_octets_le {n : Nat} {ns : List Nat} (h : n ∈ ns) : (octets n).length ≤ (sequence ns).length := by
  obtain ⟨before, after, rfl⟩ := append_of_mem h
  simp only [sequence, flatMap_append, flatMap_cons, length_append]
  omega

theorem last_start_cons (n : Nat) (ns : List Nat) :
    last_start (n :: ns) = some ((last_start ns).elim 0 ((octets n).length + ·)) := by
  cases hlast : ns.getLast? with
  | none =>
    obtain rfl : ns = [] := getLast?_eq_none_iff.mp hlast
    simp [last_start]
  | some m =>
    have hle := length_octets_le (mem_of_getLast? hlast)
    rw [last_start, last_start, getLast?_cons, hlast]
    simp only [getD_some, map_some, elim_some, sequence_cons, length_append, some.injEq]
    omega

theorem last_valid_loop_eq (rounds : Nat) (x : List Byte) (c : Option Nat) {ns : List Nat} {rest : List Byte}
    (hns : ∀ n ∈ ns, Scalar n) (hrest : rest = [] ∨ character rest 0 rest.length = some none)
    (hrounds : (sequence ns ++ rest).length < rounds) :
    last_valid_loop (x ++ (sequence ns ++ rest)) rounds x.length c (sequence ns ++ rest).length =
      some (x.length + (sequence ns).length, ((last_start ns).map (x.length + ·)).or c) := by
  induction rounds generalizing x c ns with
  | zero => exact absurd hrounds (Nat.not_lt_zero _)
  | succ rounds ih =>
    cases ns with
    | nil =>
      simp only [sequence_nil, nil_append]
      rw [last_valid_loop, character_shift]
      rcases hrest with rfl | hnone
      · rfl
      rw [hnone]
      split <;> rfl
    | cons n ns =>
      obtain ⟨hn, hns⟩ := forall_mem_cons.mp hns
      have hpos := length_pos_of_ne_nil (octets_ne_nil n)
      have hassoc : sequence (n :: ns) ++ rest = octets n ++ (sequence ns ++ rest) := by
        rw [sequence_cons, append_assoc]
      rw [hassoc] at hrounds ⊢
      have hsize : 0 < (octets n ++ (sequence ns ++ rest)).length := by
        rw [length_append]
        omega
      have hsource : x ++ (octets n ++ (sequence ns ++ rest)) = (x ++ octets n) ++ (sequence ns ++ rest) := by simp
      have hstand : x.length + (octets n).length = (x ++ octets n).length := by rw [length_append]
      have hleft : (octets n ++ (sequence ns ++ rest)).length - (octets n).length = (sequence ns ++ rest).length := by
        rw [length_append, Nat.add_sub_cancel_left]
      rw [last_valid_loop, if_pos hsize, character_shift, character_octets hn]
      simp only
      rw [hleft, hsource, hstand, ih (x ++ octets n) (some x.length) hns (by
        rw [show (octets n ++ (sequence ns ++ rest)).length = (octets n).length + (sequence ns ++ rest).length from
          length_append] at hrounds
        omega)]
      rw [last_start_cons]
      cases last_start ns with
      | none => simp [Nat.add_assoc]
      | some start => simp [Nat.add_assoc]

theorem mark_or {x k : Nat} (mark : Nat) (hx : x < 2 ^ k) : mark <<< k ||| x = mark * 2 ^ k + x := by
  rw [← Nat.shiftLeft_add_eq_or_of_lt hx, Nat.shiftLeft_eq]

theorem low_bits (width x : Nat) : (2 ^ width - 1) &&& x = x % 2 ^ width := by
  rw [Nat.and_comm, Nat.and_two_pow_sub_one_eq_mod]

theorem moved_bits (width k x : Nat) : (x <<< k) &&& ((2 ^ width - 1) <<< k) = (x % 2 ^ width) <<< k := by
  rw [← Nat.shiftLeft_and_distrib, Nat.and_two_pow_sub_one_eq_mod]

theorem tail_octet (n : Nat) : octet (0x80 ||| (0x3F &&& n)) = octet (0x80 + n % 64) := by
  have hlow : 0x3F &&& n = n % 64 := low_bits 6 n
  have hmark : 0x80 ||| n % 64 = 0x80 + n % 64 := mark_or (k := 6) 2 (by omega)
  rw [hlow, hmark]

theorem encode_code_point_eq (number : Nat) (start : Option (List Byte)) (size : Nat) :
    encode_code_point number start size =
      if Scalar number then put_octets start size (octets number) else some { ok := false, start, used := 0 } := by
  have hshift : ∀ k, number >>> k = number / 2 ^ k := fun k => Nat.shiftRight_eq_div_pow number k
  have hsix : number >>> 6 = number / 64 := hshift 6
  have htwelve : number >>> 12 = number / 4096 := hshift 12
  rw [encode_code_point, octets]
  by_cases h1 : number ≤ 0x7F
  · have hlow : number &&& 0x7F = number := by
      have hmod : number &&& 0x7F = number % 128 := Nat.and_two_pow_sub_one_eq_mod number 7
      omega
    rw [if_pos h1, if_pos h1, if_pos ⟨by omega, by omega⟩, hlow]
  rw [if_neg h1, if_neg h1]
  by_cases h2 : number ≤ 0x7FF
  · have hlow : 0x1F &&& (number >>> 6) = number / 64 := by
      have hmod : 0x1F &&& (number >>> 6) = (number >>> 6) % 32 := low_bits 5 _
      rw [hmod, hshift]
      omega
    have hmark : 0xC0 ||| number / 64 = 0xC0 + number / 64 := mark_or (k := 5) 6 (by omega)
    rw [if_pos h2, if_pos h2, if_pos ⟨by omega, by omega⟩, tail_octet, hlow, hmark]
  rw [if_neg h2, if_neg h2]
  by_cases hsurrogate : 0xD800 ≤ number ∧ number ≤ 0xDFFF
  · rw [if_pos hsurrogate, if_neg fun h => h.2 hsurrogate]
  rw [if_neg hsurrogate]
  by_cases h3 : number ≤ 0xFFFF
  · have hlow : 0x0F &&& (number >>> 12) = number / 4096 := by
      have hmod : 0x0F &&& (number >>> 12) = (number >>> 12) % 16 := low_bits 4 _
      rw [hmod, hshift]
      omega
    have hmark : 0xE0 ||| number / 4096 = 0xE0 + number / 4096 := mark_or (k := 4) 14 (by omega)
    rw [if_pos h3, if_pos h3, if_pos ⟨by omega, hsurrogate⟩, tail_octet, tail_octet, hlow, hmark, hsix]
  rw [if_neg h3, if_neg h3]
  by_cases h4 : number ≤ 0x10FFFF
  · have hlow : 0x07 &&& (number >>> 18) = number / 262144 := by
      have hmod : 0x07 &&& (number >>> 18) = (number >>> 18) % 8 := low_bits 3 _
      rw [hmod, hshift]
      omega
    have hmark : 0xF0 ||| number / 262144 = 0xF0 + number / 262144 := mark_or (k := 3) 30 (by omega)
    rw [if_pos h4, if_pos ⟨h4, hsurrogate⟩, tail_octet, tail_octet, tail_octet, hlow, hmark, hsix, htwelve]
  · rw [if_neg h4, if_neg fun h => h4 h.1]

theorem decode_code_point_octets {n : Nat} (hn : Scalar n) (rest : List Byte) :
    decode_code_point (octets n ++ rest) = some { number := n, bytes := some (octets n).length } := by
  obtain ⟨hmax, hsurrogate⟩ := hn
  have hlow : ∀ x : Nat, x &&& 0x3F = x % 64 := fun x => Nat.and_two_pow_sub_one_eq_mod x 6
  have hmiddle : ∀ x : Nat, (x <<< 6) &&& 0x0FC0 = (x % 64) <<< 6 := moved_bits 6 6
  unfold octets
  by_cases h1 : n ≤ 0x7F
  · rw [if_pos h1]
    have ha := octet_toNat (show n < 256 by omega)
    have hmask : n &&& 0x7F = n % 128 := Nat.and_two_pow_sub_one_eq_mod n 7
    simp only [decode_code_point, read8, List.cons_append, getElem?_cons_zero, bind_some, ha]
    rw [if_neg (by simp), if_pos h1, hmask, Nat.mod_eq_of_lt (by omega)]
    rfl
  rw [if_neg h1]
  by_cases h2 : n ≤ 0x7FF
  · rw [if_pos h2]
    have ha := octet_toNat (show 0xC0 + n / 64 < 256 by omega)
    have hb := octet_toNat (show 0x80 + n % 64 < 256 by omega)
    have hhigh : ∀ x : Nat, (x <<< 6) &&& 0x07C0 = (x % 32) <<< 6 := moved_bits 5 6
    simp only [decode_code_point, read8, List.cons_append, getElem?_cons_zero, getElem?_cons_succ,
      bind_some, ha, hb, is_tail_octet, not_true_eq_false, if_false]
    rw [if_neg (by simp), if_neg (by omega), if_neg (by omega), if_pos (by omega), if_neg (by simp), hhigh, hlow,
      mark_or _ (show (0x80 + n % 64) % 64 < 2 ^ 6 by omega)]
    simp only [some.injEq, Decoded.mk.injEq]
    exact ⟨by omega, rfl⟩
  rw [if_neg h2]
  by_cases h3 : n ≤ 0xFFFF
  · rw [if_pos h3]
    have ha := octet_toNat (show 0xE0 + n / 4096 < 256 by omega)
    have hb := octet_toNat (show 0x80 + n / 64 % 64 < 256 by omega)
    have hc := octet_toNat (show 0x80 + n % 64 < 256 by omega)
    have hhigh : ∀ x : Nat, (x <<< 12) &&& 0xF000 = (x % 16) <<< 12 := moved_bits 4 12
    have hjoin : ∀ x y z : Nat, (x % 16) <<< 12 ||| (y % 64) <<< 6 ||| z % 64 =
        (x % 16) * 4096 + (y % 64) * 64 + z % 64 := by
      intro x y z
      have hy : (y % 64) <<< 6 < 2 ^ 12 := by
        rw [Nat.shiftLeft_eq]
        omega
      have hxy : (x % 16) * 2 ^ 12 + (y % 64) <<< 6 = ((x % 16) * 64 + y % 64) <<< 6 := by
        rw [Nat.shiftLeft_eq, Nat.shiftLeft_eq]
        ring
      rw [mark_or _ hy, hxy, mark_or _ (show z % 64 < 2 ^ 6 by omega)]
      omega
    simp only [decode_code_point, read8, List.cons_append, getElem?_cons_zero, getElem?_cons_succ,
      bind_some, ha, hb, hc, is_tail_octet, not_true_eq_false, if_false]
    rw [if_neg (by simp), if_neg (by omega), if_neg (by omega), if_neg (by omega), if_pos (by omega),
      if_neg (by simp), if_neg (by omega), if_neg (by omega), hhigh, hmiddle, hlow, hjoin]
    simp only [some.injEq, Decoded.mk.injEq]
    exact ⟨by omega, rfl⟩
  rw [if_neg h3]
  have ha := octet_toNat (show 0xF0 + n / 262144 < 256 by omega)
  have hb := octet_toNat (show 0x80 + n / 4096 % 64 < 256 by omega)
  have hc := octet_toNat (show 0x80 + n / 64 % 64 < 256 by omega)
  have hd := octet_toNat (show 0x80 + n % 64 < 256 by omega)
  have hhigh : ∀ x : Nat, (x <<< 18) &&& 0x1C0000 = (x % 8) <<< 18 := moved_bits 3 18
  have hupper : ∀ x : Nat, (x <<< 12) &&& 0x3F000 = (x % 64) <<< 12 := moved_bits 6 12
  have hjoin : ∀ w x y z : Nat, (w % 8) <<< 18 ||| (x % 64) <<< 12 ||| (y % 64) <<< 6 ||| z % 64 =
      (w % 8) * 262144 + (x % 64) * 4096 + (y % 64) * 64 + z % 64 := by
    intro w x y z
    have hx : (x % 64) <<< 12 < 2 ^ 18 := by
      rw [Nat.shiftLeft_eq]
      omega
    have hy : (y % 64) <<< 6 < 2 ^ 12 := by
      rw [Nat.shiftLeft_eq]
      omega
    have hwx : (w % 8) * 2 ^ 18 + (x % 64) <<< 12 = ((w % 8) * 64 + x % 64) <<< 12 := by
      rw [Nat.shiftLeft_eq, Nat.shiftLeft_eq]
      ring
    have hxy : ((w % 8) * 64 + x % 64) * 2 ^ 12 + (y % 64) <<< 6 =
        (((w % 8) * 64 + x % 64) * 64 + y % 64) <<< 6 := by
      rw [Nat.shiftLeft_eq, Nat.shiftLeft_eq]
      ring
    rw [mark_or _ hx, hwx, mark_or _ hy, hxy, mark_or _ (show z % 64 < 2 ^ 6 by omega)]
    omega
  simp only [decode_code_point, read8, List.cons_append, getElem?_cons_zero, getElem?_cons_succ,
    bind_some, ha, hb, hc, hd, is_tail_octet, not_true_eq_false, if_false]
  rw [if_neg (by simp), if_neg (by omega), if_neg (by omega), if_neg (by omega), if_neg (by omega),
    if_pos (by omega), if_neg (by simp), if_neg (by omega), if_neg (by omega), hhigh, hupper, hmiddle, hlow, hjoin]
  simp only [some.injEq, Decoded.mk.injEq]
  exact ⟨by omega, rfl⟩

/-- What the encoder writes for some number. -/
def Output (part : List Byte) : Prop :=
  ∃ number, encode_code_point number none 0 = some { ok := true, start := some part, used := part.length }

/-- A string made of what the encoder writes. -/
def Outputs (parts : List (List Byte)) : Prop := ∀ part ∈ parts, Output part

theorem put_octets_new (octets : List Byte) (size : Nat) :
    put_octets none size octets = some { ok := true, start := some octets, used := octets.length } := by
  have hstore := store_append [] (List.replicate octets.length 0) octets (by simp)
  have hnothing : (List.replicate octets.length (0 : Byte)).drop octets.length = [] :=
    drop_of_length_le (by simp)
  rw [hnothing, List.append_nil, nil_append, nil_append, length_nil] at hstore
  rw [put_octets, hstore]
  rfl

theorem output_iff (part : List Byte) : Output part ↔ ∃ n, Scalar n ∧ part = octets n := by
  constructor
  · rintro ⟨number, h⟩
    rw [encode_code_point_eq] at h
    split at h
    · rename_i hn
      rw [put_octets_new] at h
      simp only [some.injEq, Encoded.mk.injEq] at h
      exact ⟨number, hn, h.2.1.symm⟩
    · cases h
  rintro ⟨n, hn, rfl⟩
  exact ⟨n, by rw [encode_code_point_eq, if_pos hn, put_octets_new]⟩

theorem outputs_iff (parts : List (List Byte)) : Outputs parts ↔
    ∃ ns : List Nat, (∀ n ∈ ns, Scalar n) ∧ parts = ns.map octets := by
  constructor
  · intro h
    induction parts with
    | nil => exact ⟨[], by simp, rfl⟩
    | cons part parts ih =>
      obtain ⟨hpart, hparts⟩ := forall_mem_cons.mp h
      obtain ⟨n, hn, rfl⟩ := (output_iff part).mp hpart
      obtain ⟨ns, hns, rfl⟩ := ih hparts
      exact ⟨n :: ns, forall_mem_cons.mpr ⟨hn, hns⟩, rfl⟩
  rintro ⟨ns, hns, rfl⟩ part hpart
  obtain ⟨n, hn, rfl⟩ := List.mem_map.mp hpart
  exact (output_iff _).mpr ⟨n, hns n hn, rfl⟩

theorem flatten_octets (ns : List Nat) : (ns.map octets).flatten = sequence ns := flatMap_def.symm

theorem sequence_longest {ms ns : List Nat} {rest tail : List Byte} (hms : ∀ m ∈ ms, Scalar m)
    (hns : ∀ n ∈ ns, Scalar n) (hrest : rest = [] ∨ character rest 0 rest.length = some none)
    (h : sequence ns ++ rest = sequence ms ++ tail) : (sequence ms).length ≤ (sequence ns).length := by
  induction ns generalizing ms with
  | nil =>
    cases ms with
    | nil => exact Nat.le_refl _
    | cons m ms =>
      have hm := character_octets (hms m (by simp)) (sequence ms ++ tail)
      have heq : rest = octets m ++ (sequence ms ++ tail) := by simpa using h
      rw [← heq] at hm
      rcases hrest with rfl | hnone
      · cases hm
      rw [hnone] at hm
      cases hm
  | cons n ns ih =>
    cases ms with
    | nil => simp
    | cons m ms =>
      obtain ⟨hn, hns⟩ := forall_mem_cons.mp hns
      obtain ⟨hm, hms⟩ := forall_mem_cons.mp hms
      have hsplit : octets n ++ (sequence ns ++ rest) = octets m ++ (sequence ms ++ tail) := by simpa using h
      have hdecode := decode_code_point_octets hn (sequence ns ++ rest)
      rw [hsplit, decode_code_point_octets hm] at hdecode
      simp only [some.injEq, Decoded.mk.injEq] at hdecode
      rw [hdecode.1] at hsplit ⊢
      have hle := ih hms hns (append_cancel_left hsplit)
      simp only [sequence_cons, length_append]
      omega

theorem last_valid_eq {ns : List Nat} {rest : List Byte} (hns : ∀ n ∈ ns, Scalar n)
    (hrest : rest = [] ∨ character rest 0 rest.length = some none) (character_start : Bool) :
    last_valid (sequence ns ++ rest) character_start =
      some (if character_start then last_start ns else some (sequence ns).length) := by
  have hloop := last_valid_loop_eq ((sequence ns ++ rest).length + 1) [] none hns hrest (by omega)
  simp only [nil_append, length_nil, Nat.zero_add] at hloop
  have hid : ((last_start ns).map fun n => n).or none = last_start ns := by simp
  rw [last_valid, hloop, hid]
  rfl

theorem validate_eq {s : List Byte} (hs : s ≠ []) :
    validate s = some true ∧ (∃ parts, Outputs parts ∧ s = parts.flatten) ∨
      validate s = some false ∧ ¬ ∃ parts, Outputs parts ∧ s = parts.flatten := by
  obtain ⟨ns, rest, hns, rfl, hrest⟩ := sequence_split s
  have hpos := length_pos_of_ne_nil hs
  rw [validate, if_neg (by omega), last_valid_eq hns hrest]
  by_cases hnil : rest = []
  · subst hnil
    refine Or.inl ⟨by simp, ns.map octets, (outputs_iff _).mpr ⟨ns, hns, rfl⟩, ?_⟩
    rw [flatten_octets, List.append_nil]
  have hlonger := length_pos_of_ne_nil hnil
  refine Or.inr ⟨by simp [hnil], ?_⟩
  rintro ⟨parts, hparts, heq⟩
  obtain ⟨ms, hms, rfl⟩ := (outputs_iff parts).mp hparts
  rw [flatten_octets] at heq
  have htail : sequence ns ++ rest = sequence ms ++ [] := by rw [heq, List.append_nil]
  have hle := sequence_longest hms hns hrest htail
  have hlength := congrArg List.length heq
  rw [length_append] at hlength
  omega

/-- Encoding, decoding and validation agree, and all of them stay within their buffers. -/
theorem codec_agrees :
    (∀ (number : Nat) (start : Option (List Byte)) (size : Nat), (∀ array, start = some array → size ≤ array.length) →
      ∃ encoded, encode_code_point number start size = some encoded ∧
        (encoded.ok = true → Scalar number ∧ ∃ octets, encoded.used = octets.length ∧
          encoded.start = some (octets ++ (start.getD []).drop octets.length) ∧
          ∀ rest, decode_code_point (octets ++ rest) = some { number, bytes := some octets.length }) ∧
        (start = none → Scalar number → encoded.ok = true)) ∧
    (∀ s : List Byte, s ≠ [] → ∃ valid, validate s = some valid ∧
      (valid = true ↔ ∃ parts, Outputs parts ∧ s = parts.flatten)) ∧
    ∀ s : List Byte, ∃ parts rest, Outputs parts ∧ s = parts.flatten ++ rest ∧
      (∀ parts', Outputs parts' → parts'.flatten <+: s → parts'.flatten.length ≤ parts.flatten.length) ∧
      last_valid s false = some (some parts.flatten.length) ∧
      last_valid s true = some (parts.getLast?.map fun last => parts.flatten.length - last.length) := by
  refine ⟨?_, ?_, ?_⟩
  · intro number start size hstart
    rw [encode_code_point_eq]
    by_cases hn : Scalar number
    · rw [if_pos hn]
      have hdecode := decode_code_point_octets hn
      cases start with
      | none =>
        rw [put_octets_new]
        exact ⟨_, rfl, fun _ => ⟨hn, octets number, rfl, by simp, hdecode⟩, fun _ _ => rfl⟩
      | some array =>
        have hsize := hstart array rfl
        rw [put_octets]
        by_cases hshort : size < (octets number).length
        · rw [if_pos hshort]
          exact ⟨_, rfl, fun hok => (by cases hok), fun h => (by cases h)⟩
        · rw [if_neg hshort]
          have hstore := store_append [] array (octets number) (by omega)
          rw [nil_append, nil_append, length_nil] at hstore
          rw [hstore]
          exact ⟨_, rfl, fun _ => ⟨hn, octets number, rfl, rfl, hdecode⟩, fun h => (by cases h)⟩
    · rw [if_neg hn]
      exact ⟨{ ok := false, start, used := 0 }, rfl, fun hok => (by cases hok), fun _ h => absurd h hn⟩
  · intro s hs
    rcases validate_eq hs with ⟨hvalid, hparts⟩ | ⟨hvalid, hparts⟩
    · exact ⟨true, hvalid, by simpa using hparts⟩
    · exact ⟨false, hvalid, by simpa using hparts⟩
  · intro s
    obtain ⟨ns, rest, hns, rfl, hrest⟩ := sequence_split s
    refine ⟨ns.map octets, rest, (outputs_iff _).mpr ⟨ns, hns, rfl⟩, by rw [flatten_octets], ?_, ?_, ?_⟩
    · rintro parts hparts ⟨tail, htail⟩
      obtain ⟨ms, hms, rfl⟩ := (outputs_iff parts).mp hparts
      rw [flatten_octets] at htail ⊢
      rw [flatten_octets]
      exact sequence_longest hms hns hrest htail.symm
    · rw [last_valid_eq hns hrest, flatten_octets]
      rfl
    · rw [last_valid_eq hns hrest, flatten_octets, getLast?_map, Option.map_map]
      rfl

theorem codec_agrees_euro : (∃ encoded, encode_code_point 0x20AC none 0 = some encoded ∧
      (encoded.ok = true → Scalar 0x20AC ∧ ∃ octets, encoded.used = octets.length ∧
        encoded.start = some (octets ++ (none.getD []).drop octets.length) ∧
        ∀ rest, decode_code_point (octets ++ rest) = some { number := 0x20AC, bytes := some octets.length }) ∧
      ((none : Option (List Byte)) = none → Scalar 0x20AC → encoded.ok = true)) ∧
    ∃ valid, validate [0xE2, 0x82, 0xAC] = some valid ∧
      (valid = true ↔ ∃ parts, Outputs parts ∧ [0xE2, 0x82, 0xAC] = parts.flatten) :=
  ⟨codec_agrees.1 0x20AC none 0 (fun _ h => by cases h), codec_agrees.2.1 [0xE2, 0x82, 0xAC] (by decide)⟩

/-- The empty string is a row of no characters, and it is not valid. -/
theorem empty_not_valid : validate [] = some false ∧ Outputs [] ∧ ([] : List Byte) = [].flatten :=
  ⟨rfl, fun _ h => (by cases h), rfl⟩

end openvocs.utf8
