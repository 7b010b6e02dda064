import Openvocs.Json.Shape

open List

namespace openvocs.json

open Byte cstring

variable {ν : Type} (double : Double ν)

/-- The characters of a string: an escape is a backslash with one of eight letters, or with `u` and
four hexadecimal digits, and no control character stands for itself. -/
def is_chars : List Byte → Bool
  | [] => true
  | c :: s =>
    if c = backslash then
      match s with
      | [] => false
      | e :: s =>
        if is_escape e then is_chars s
        else if e = 117 then
          match s with
          | g :: h :: i :: j :: s => [g, h, i, j].all is_hex_digit && is_chars s
          | _ => false
        else false
    else if c.toNat < 0x20 then false
    else if c = quote then false
    else is_chars s

/-- `[ minus ] int [ frac ] [ exp ]`. -/
inductive Numeral : List Byte → Prop
  | mk {minus int frac exp : List Byte} : minus = [] ∨ minus = [45] → IsNumber int →
    (int.head? = some 48 → int = [48]) →
    frac = [] ∨ (∃ digits, frac = 46 :: digits ∧ IsNumber digits) →
    exp = [] ∨ (∃ mark sign digits, exp = mark :: (sign ++ digits) ∧ (mark = 101 ∨ mark = 69) ∧
      (sign = [] ∨ sign = [43] ∨ sign = [45]) ∧ IsNumber digits) →
    Numeral (minus ++ int ++ frac ++ exp)

/-- What a part of a text denotes: a value, what stands in an array or what stands in an object. -/
inductive Part (ν : Type) where
  | value (value : Value ν)
  | items (items : List (Value ν))
  | members (members : List (List Byte × Value ν))

/-- The text of a value, of one or more items or of one or more members. -/
inductive Spells : List Byte → Part ν → Prop
  | null : Spells null_word (.value .null)
  | true_ : Spells true_word (.value .true_)
  | false_ : Spells false_word (.value .false_)
  | number {t : List Byte} {n : ν} : Numeral t → double.strtod t = some n → Spells t (.value (.number n))
  | string {content : List Byte} : is_chars content = true → utf8.is_sequence content = true →
    Spells (quote :: content ++ [quote]) (.value (.string content))
  | empty_array {ws : List Byte} : Blank ws → Spells (open_array :: ws ++ [close_array]) (.value (.array []))
  | array {t : List Byte} {items : List (Value ν)} : Spells t (.items items) →
    Spells (open_array :: t ++ [close_array]) (.value (.array items))
  | item {ws t ws' : List Byte} {value : Value ν} : Blank ws → Spells t (.value value) → Blank ws' →
    Spells (ws ++ t ++ ws') (.items [value])
  | items {ws t ws' u : List Byte} {value : Value ν} {items : List (Value ν)} : Blank ws →
    Spells t (.value value) → Blank ws' → Spells u (.items items) →
    Spells (ws ++ t ++ ws' ++ comma :: u) (.items (value :: items))
  | empty_object {ws : List Byte} : Blank ws → Spells (open_object :: ws ++ [close_object]) (.value (.object []))
  | object {t : List Byte} {members : List (List Byte × Value ν)} : Spells t (.members members) →
    Spells (open_object :: t ++ [close_object]) (.value (.object members))
  | member {ws key ws' ws'' t ws''' : List Byte} {value : Value ν} : Blank ws → is_chars key = true →
    utf8.is_sequence key = true → Blank ws' → Blank ws'' → Spells t (.value value) → Blank ws''' →
    Spells (ws ++ (quote :: key ++ [quote]) ++ ws' ++ colon :: (ws'' ++ t ++ ws''')) (.members [(key, value)])
  | members {t u : List Byte} {member : List Byte × Value ν} {members : List (List Byte × Value ν)} :
    Spells t (.members [member]) → Spells u (.members members) →
    Spells (t ++ comma :: u) (.members (member :: members))

/-- `JSON-text = ws value ws`. -/
def JsonText (t : List Byte) (value : Value ν) : Prop :=
  ∃ ws body ws', Blank ws ∧ Blank ws' ∧ t = ws ++ body ++ ws' ∧ Spells double body (.value value)

/-- Between or in the tokens other than strings, in a string, or behind a backslash in a string. -/
inductive Lex where
  | outside
  | inside
  | escaped
  deriving DecidableEq, Repr

def Lex.next : Lex → Byte → Lex
  | .outside, c => if c = quote then .inside else .outside
  | .inside, c => if c = backslash then .escaped else if c = quote then .outside else .inside
  | .escaped, _ => .inside

theorem Lex.next_outside (c : Byte) : Lex.next .outside c = if c = quote then .inside else .outside := rfl

variable {c : Byte}

theorem Lex.next_inside (hbackslash : c ≠ backslash) (hquote : c ≠ quote) :
    Lex.next .inside c = .inside := (if_neg hbackslash).trans (if_neg hquote)

def Lex.after (lex : Lex) (s : List Byte) : Lex := s.foldl Lex.next lex

/-- A condition on an octet: where it stands, which octet it is and what follows it. -/
abbrev Condition := Lex → Byte → List Byte → Bool

/-- Every octet meets the condition. -/
def all_octets (p : Condition) : Lex → List Byte → Bool
  | _, [] => true
  | lex, c :: s => p lex c s && all_octets p (lex.next c) s

/-- Where the search for the closing brace ends that looks only at the braces outside of strings. -/
def structural_close : Nat → Lex → List Byte → Option Nat
  | _, _, [] => none
  | depth, .outside, c :: s =>
    if c = open_object then (structural_close (depth + 1) .outside s).map (· + 1)
    else if c = close_object then
      if depth = 0 then some 0 else (structural_close (depth - 1) .outside s).map (· + 1)
    else (structural_close depth (Lex.next .outside c) s).map (· + 1)
  | depth, lex, c :: s => (structural_close depth (lex.next c) s).map (· + 1)

theorem structural_close_outside (depth : Nat) (c : Byte) (s : List Byte) :
    structural_close depth .outside (c :: s) =
      if c = open_object then (structural_close (depth + 1) .outside s).map (· + 1)
      else if c = close_object then
        if depth = 0 then some 0 else (structural_close (depth - 1) .outside s).map (· + 1)
      else (structural_close depth (Lex.next .outside c) s).map (· + 1) := rfl

theorem structural_close_string {lex : Lex} (hlex : lex ≠ .outside) (depth : Nat) (c : Byte) (s : List Byte) :
    structural_close depth lex (c :: s) = (structural_close depth (lex.next c) s).map (· + 1) := by
  cases lex with
  | outside => exact absurd rfl hlex
  | inside => rfl
  | escaped => rfl

/-- No closing square bracket stands behind a comma, no octet 0x1F stands in a string, and four
hexadecimal digits stand behind the `u` of an escape. -/
def tidy_at : Condition
  | .outside, c, s => !(c = comma && (s.dropWhile is_whitespace).head? = some close_array)
  | .inside, c, _ => c ≠ 0x1F
  | .escaped, c, s => !(c = 117) || (4 ≤ s.length && (s.take 4).all is_hex_digit)

/-- The search for the closing brace ends at the brace that closes the object. -/
def braces_agree_at : Condition
  | .outside, c, s =>
    !(c = open_object) ||
      find_close open_object close_object 0 s.length s = structural_close 0 .outside s
  | _, _, _ => true

/-- No number begins here. -/
def numberless_at : Condition
  | .outside, c, _ => !begins_number c
  | _, _, _ => true

def tidy (s : List Byte) : Bool := all_octets tidy_at .outside s

def braces_agree (s : List Byte) : Bool := all_octets braces_agree_at .outside s

def numberless (s : List Byte) : Bool := all_octets numberless_at .outside s

-- a brace in a key does not agree
example : braces_agree [open_object, quote, open_object, quote, colon, quote, 97, quote, close_object] = false := by
  decide

@[simp] theorem Lex.after_cons (lex : Lex) (c : Byte) (s : List Byte) :
    lex.after (c :: s) = (lex.next c).after s := rfl

theorem Lex.after_append (lex : Lex) (a b : List Byte) : lex.after (a ++ b) = (lex.after a).after b :=
  foldl_append

theorem all_octets_right {p : Condition} {lex : Lex} {a b : List Byte} (h : all_octets p lex (a ++ b) = true) :
    all_octets p (lex.after a) b = true := by
  induction a generalizing lex with
  | nil => exact h
  | cons c a ih =>
    rw [List.cons_append, all_octets, Bool.and_eq_true] at h
    exact ih h.2

theorem all_octets_cons {p : Condition} {lex : Lex} {s : List Byte} :
    all_octets p lex (c :: s) = true ↔ p lex c s = true ∧ all_octets p (lex.next c) s = true := by
  rw [all_octets, Bool.and_eq_true]

/-- The octets neither leave a string open nor change how many braces are open, whatever follows. -/
structure Neutral (t : List Byte) : Prop where
  outside : Lex.after .outside t = .outside
  close : ∀ depth rest, structural_close depth .outside (t ++ rest) =
    (structural_close depth .outside rest).map (· + t.length)

theorem Neutral.nil : Neutral [] where
  outside := rfl
  close depth rest := by simp

theorem Neutral.append {a b : List Byte} (ha : Neutral a) (hb : Neutral b) : Neutral (a ++ b) where
  outside := by rw [Lex.after_append, ha.outside, hb.outside]
  close depth rest := by
    rw [append_assoc, ha.close, hb.close, Option.map_map]
    congr 1
    funext n
    simp only [Function.comp_apply, length_append]
    omega

/-- An octet other than a quote and a brace. -/
def is_plain (c : Byte) : Bool := c ≠ quote && c ≠ open_object && c ≠ close_object

theorem structural_close_plain (h : is_plain c = true) (depth : Nat) (s : List Byte) :
    structural_close depth .outside (c :: s) = (structural_close depth .outside s).map (· + 1) := by
  simp only [is_plain, Bool.and_eq_true, decide_eq_true_eq] at h
  rw [structural_close_outside, if_neg h.1.2, if_neg h.2, Lex.next_outside, if_neg h.1.1]

variable {t : List Byte}

theorem Neutral.plain (h : ∀ c ∈ t, is_plain c = true) : Neutral t := by
  induction t with
  | nil => exact Neutral.nil
  | cons c t ih =>
    obtain ⟨hc, ht⟩ := forall_mem_cons.mp h
    have hone : Neutral [c] := by
      refine ⟨?_, fun depth rest => ?_⟩
      · simp only [is_plain, Bool.and_eq_true, decide_eq_true_eq] at hc
        simp [Lex.after, Lex.next_outside, hc.1.1]
      · exact structural_close_plain hc depth rest
    exact hone.append (ih ht)

theorem is_plain_of_whitespace : ∀ c : Byte, is_whitespace c = true → is_plain c = true :=
  forall_whitespace rfl rfl rfl rfl

theorem Neutral.blank {ws : List Byte} (h : Blank ws) : Neutral ws :=
  Neutral.plain fun c hc => is_plain_of_whitespace c (h c hc)

theorem structural_close_inside (hbackslash : c ≠ backslash) (hquote : c ≠ quote) (depth : Nat)
    (s : List Byte) :
    structural_close depth .inside (c :: s) = (structural_close depth .inside s).map (· + 1) := by
  rw [structural_close_string (by decide), Lex.next_inside hbackslash hquote]

theorem structural_close_escape (depth : Nat) (e : Byte) (s : List Byte) :
    structural_close depth .inside (backslash :: e :: s) = (structural_close depth .inside s).map (· + 2) := by
  have hnext : Lex.next .inside backslash = .escaped := rfl
  rw [structural_close_string (by decide), hnext, structural_close_string (by decide), Option.map_map]
  rfl

theorem is_hex_digit_inside : ∀ c : Byte, is_hex_digit c = true → c ≠ backslash ∧ c ≠ quote :=
  fun _ hc => ⟨ne_of_class hc rfl, ne_of_class hc rfl⟩

theorem structural_close_literal (h : ∀ c ∈ t, c ≠ backslash ∧ c ≠ quote) (depth : Nat) (s : List Byte) :
    structural_close depth .inside (t ++ s) = (structural_close depth .inside s).map (· + t.length) := by
  induction t with
  | nil => simp
  | cons c t ih =>
    obtain ⟨hc, ht⟩ := forall_mem_cons.mp h
    rw [List.cons_append, structural_close_inside hc.1 hc.2, ih ht, Option.map_map]
    congr 1

theorem structural_close_chars {content : List Byte} (h : is_chars content = true) (depth : Nat) (s : List Byte) :
    structural_close depth .inside (content ++ s) =
      (structural_close depth .inside s).map (· + content.length) := by
  fun_induction is_chars content with
  | case1 => simp
  | case2 => cases h
  | case3 e t he ih =>
    rw [List.cons_append, List.cons_append, structural_close_escape, ih h, Option.map_map]
    congr 1
  | case4 a b c d t he ih =>
    rw [Bool.and_eq_true, List.all_eq_true] at h
    have hdigits := structural_close_literal (fun x hx => is_hex_digit_inside x (h.1 x hx)) depth (t ++ s)
    have hescape := structural_close_escape depth 117 ([a, b, c, d] ++ (t ++ s))
    rw [hdigits, ih h.2, Option.map_map, Option.map_map] at hescape
    exact hescape
  | case5 => cases h
  | case6 => cases h
  | case7 => cases h
  | case8 => cases h
  | case9 c t hbackslash hcontrol hquote ih =>
    rw [List.cons_append, structural_close_inside hbackslash hquote, ih h, Option.map_map]
    congr 1

theorem Lex.after_literal (h : ∀ c ∈ t, c ≠ backslash ∧ c ≠ quote) : Lex.after .inside t = .inside := by
  induction t with
  | nil => rfl
  | cons c t ih =>
    obtain ⟨hc, ht⟩ := forall_mem_cons.mp h
    rw [Lex.after_cons, Lex.next_inside hc.1 hc.2, ih ht]

theorem Lex.after_chars {content : List Byte} (h : is_chars content = true) :
    Lex.after .inside content = .inside := by
  fun_induction is_chars content with
  | case1 => rfl
  | case2 => cases h
  | case3 e t he ih => exact ih h
  | case4 a b c d t he ih =>
    rw [Bool.and_eq_true, List.all_eq_true] at h
    have hdigits := Lex.after_literal fun x hx => is_hex_digit_inside x (h.1 x hx)
    have hescape : Lex.after .inside (backslash :: 117 :: a :: b :: c :: d :: t) =
        (Lex.after .inside [a, b, c, d]).after t := rfl
    rw [hescape, hdigits, ih h.2]
  | case5 => cases h
  | case6 => cases h
  | case7 => cases h
  | case8 => cases h
  | case9 c t hbackslash hcontrol hquote ih =>
    rw [Lex.after_cons, Lex.next_inside hbackslash hquote, ih h]

theorem Neutral.string {content : List Byte} (h : is_chars content = true) :
    Neutral (quote :: content ++ [quote]) where
  outside := by
    have hinside := Lex.after_chars h
    rw [List.cons_append, Lex.after_cons, Lex.after_append]
    have hopen : Lex.next .outside quote = .inside := rfl
    rw [hopen, hinside]
    rfl
  close depth rest := by
    have hopen : structural_close depth .outside (quote :: (content ++ (quote :: rest))) =
        (structural_close depth .inside (content ++ (quote :: rest))).map (· + 1) := rfl
    have hclose : structural_close depth .inside (quote :: rest) =
        (structural_close depth .outside rest).map (· + 1) := rfl
    have happend : quote :: content ++ [quote] ++ rest = quote :: (content ++ (quote :: rest)) := by simp
    rw [happend, hopen, structural_close_chars h, hclose, Option.map_map, Option.map_map]
    congr 1
    funext n
    simp only [Function.comp_apply, length_append, length_cons, length_nil]
    omega

theorem Neutral.braces (h : Neutral t) : Neutral (open_object :: t ++ [close_object]) where
  outside := by
    have hopen : Lex.next .outside open_object = .outside := rfl
    rw [List.cons_append, Lex.after_cons, hopen, Lex.after_append, h.outside]
    rfl
  close depth rest := by
    have hopen : structural_close depth .outside (open_object :: (t ++ (close_object :: rest))) =
        (structural_close (depth + 1) .outside (t ++ (close_object :: rest))).map (· + 1) := rfl
    have hclose : structural_close (depth + 1) .outside (close_object :: rest) =
        (structural_close depth .outside rest).map (· + 1) := rfl
    have happend : open_object :: t ++ [close_object] ++ rest = open_object :: (t ++ (close_object :: rest)) := by simp
    rw [happend, hopen, h.close, hclose, Option.map_map, Option.map_map]
    congr 1
    funext n
    simp only [Function.comp_apply, length_append, length_cons, length_nil]
    omega

theorem is_plain_of_numeral_char : ∀ c : Byte, is_numeral_char c = true → is_plain c = true := by
  intro c hc
  simp only [is_plain, Bool.and_eq_true, decide_eq_true_eq]
  exact ⟨⟨ne_of_class hc rfl, ne_of_class hc rfl⟩, ne_of_class hc rfl⟩

theorem Numeral.chars (h : Numeral t) : ∀ c ∈ t, is_numeral_char c = true := by
  have hdigits : ∀ {digits : List Byte}, IsNumber digits → ∀ c ∈ digits,
      is_numeral_char c = true := fun h => number_chars h
  obtain ⟨hminus, hint, -, hfrac, hexp⟩ := h
  refine forall_mem_append.mpr ⟨forall_mem_append.mpr ⟨forall_mem_append.mpr
    ⟨?_, hdigits hint⟩, ?_⟩, ?_⟩
  · rcases hminus with rfl | rfl <;> decide
  · rcases hfrac with rfl | ⟨digits, rfl, hfrac⟩
    · simp
    · exact forall_mem_cons.mpr ⟨by decide, hdigits hfrac⟩
  rcases hexp with rfl | ⟨mark, sign, digits, rfl, hmark, hsign, hexp⟩
  · simp
  refine forall_mem_cons.mpr ⟨?_, forall_mem_append.mpr ⟨?_, hdigits hexp⟩⟩
  · rcases hmark with rfl | rfl <;> decide
  · rcases hsign with rfl | rfl | rfl <;> decide

variable {double}

theorem Spells.neutral {part : Part ν} (h : Spells double t part) : Neutral t := by
  have hmark : ∀ {c : Byte} {s : List Byte}, is_plain c = true → Neutral s → Neutral (c :: s) := by
    intro c s hc hs
    have hone : Neutral [c] := Neutral.plain (by simpa using hc)
    exact hone.append hs
  induction h with
  | null | true_ | false_ => exact Neutral.plain (by decide)
  | number hnumeral => exact Neutral.plain fun c hc => is_plain_of_numeral_char c (hnumeral.chars c hc)
  | string hcontent => exact Neutral.string hcontent
  | empty_array hws => exact hmark (by decide) (Neutral.append (Neutral.blank hws) (Neutral.plain (by decide)))
  | array _ ih => exact hmark (by decide) (ih.append (Neutral.plain (by decide)))
  | item hws _ hws' ih => exact ((Neutral.blank hws).append ih).append (Neutral.blank hws')
  | items hws _ hws' _ ihvalue ihitems =>
    exact (((Neutral.blank hws).append ihvalue).append (Neutral.blank hws')).append (hmark (by decide) ihitems)
  | empty_object hws => exact (Neutral.blank hws).braces
  | object _ ih => exact ih.braces
  | member hws hkey _ hws' hws'' _ hws''' ih =>
    refine Neutral.append (Neutral.append ((Neutral.blank hws).append (Neutral.string hkey))
      (Neutral.blank hws')) (hmark (by decide) ?_)
    exact ((Neutral.blank hws'').append ih).append (Neutral.blank hws''')
  | members _ _ ihmember ihmembers => exact ihmember.append (hmark (by decide) ihmembers)

theorem tidy_outside (hc : c ≠ comma) (s : List Byte) : tidy_at .outside c s = true := by
  simp [tidy_at, hc]

theorem tidy_inside (hc : c ≠ 0x1F) (s : List Byte) : tidy_at .inside c s = true := by
  rw [tidy_at, decide_eq_true hc]

theorem tidy_append {t s : List Byte} (ht : ∀ c ∈ t, c ≠ comma ∧ c ≠ quote)
    (hs : all_octets tidy_at .outside s = true) : all_octets tidy_at .outside (t ++ s) = true := by
  induction t with
  | nil => exact hs
  | cons c t ih =>
    obtain ⟨hc, ht⟩ := forall_mem_cons.mp ht
    have hnext : Lex.next .outside c = .outside := if_neg hc.2
    refine all_octets_cons.mpr ⟨tidy_outside hc.1 _, ?_⟩
    rw [hnext]
    exact ih ht

theorem tidy_literal {t s : List Byte} (ht : ∀ c ∈ t, is_hex_digit c = true)
    (hs : all_octets tidy_at .inside s = true) : all_octets tidy_at .inside (t ++ s) = true := by
  induction t with
  | nil => exact hs
  | cons c t ih =>
    obtain ⟨hc, ht⟩ := forall_mem_cons.mp ht
    obtain ⟨hbackslash, hquote⟩ := is_hex_digit_inside c hc
    have hcontrol : c ≠ 0x1F := by
      rintro rfl
      exact absurd hc (by decide)
    refine all_octets_cons.mpr ⟨tidy_inside hcontrol _, ?_⟩
    rw [Lex.next_inside hbackslash hquote]
    exact ih ht

theorem tidy_chars {content s : List Byte} (h : is_chars content = true)
    (hs : all_octets tidy_at .inside s = true) : all_octets tidy_at .inside (content ++ s) = true := by
  fun_induction is_chars content with
  | case1 => exact hs
  | case2 => cases h
  | case3 e t he ih =>
    have hu : e ≠ 117 := by
      rintro rfl
      exact absurd he (by decide)
    refine all_octets_cons.mpr ⟨tidy_inside (by decide) _, all_octets_cons.mpr ⟨?_, ih h⟩⟩
    have hnext : Lex.next .inside backslash = .escaped := rfl
    rw [hnext, tidy_at, decide_eq_false hu, Bool.not_false, Bool.true_or]
  | case4 a b c d t he ih =>
    rw [Bool.and_eq_true] at h
    refine all_octets_cons.mpr ⟨tidy_inside (by decide) _, all_octets_cons.mpr ⟨?_, ?_⟩⟩
    · have hnext : Lex.next .inside backslash = .escaped := rfl
      have htake : (List.take 4 ([a, b, c, d] ++ (t ++ s))) = [a, b, c, d] := rfl
      have hlength : 4 ≤ ([a, b, c, d] ++ (t ++ s)).length := by
        simp only [length_append, length_cons, length_nil]
        omega
      change tidy_at .escaped 117 ([a, b, c, d] ++ (t ++ s)) = true
      rw [tidy_at, htake, h.1, decide_eq_true hlength]
      rfl
    · exact @tidy_literal [a, b, c, d] (t ++ s) (List.all_eq_true.mp h.1) (ih h.2)
  | case5 => cases h
  | case6 => cases h
  | case7 => cases h
  | case8 => cases h
  | case9 c t hbackslash hcontrol hquote ih =>
    have hunit : c ≠ 0x1F := by
      rintro rfl
      exact hcontrol (by decide)
    refine all_octets_cons.mpr ⟨tidy_inside hunit _, ?_⟩
    rw [Lex.next_inside hbackslash hquote]
    exact ih h

theorem tidy_string {content s : List Byte} (h : is_chars content = true)
    (hs : all_octets tidy_at .outside s = true) :
    all_octets tidy_at .outside (quote :: content ++ [quote] ++ s) = true := by
  have happend : quote :: content ++ [quote] ++ s = quote :: (content ++ (quote :: s)) := by simp
  rw [happend]
  refine all_octets_cons.mpr ⟨tidy_outside (by decide) _, ?_⟩
  have hclose : all_octets tidy_at .inside (quote :: s) = true := all_octets_cons.mpr ⟨rfl, hs⟩
  exact tidy_chars h hclose

theorem is_whitespace_tidy : ∀ c : Byte, is_whitespace c = true → c ≠ comma ∧ c ≠ quote :=
  fun _ hc => ⟨ne_of_class hc rfl, ne_of_class hc rfl⟩

theorem tidy_blank {ws s : List Byte} (hws : Blank ws) (hs : all_octets tidy_at .outside s = true) :
    all_octets tidy_at .outside (ws ++ s) = true :=
  tidy_append (fun c hc => is_whitespace_tidy c (hws c hc)) hs

theorem tidy_comma {ws s : List Byte} (hws : Blank ws) (hc : is_whitespace c = false)
    (hclose : c ≠ close_array) (hs : all_octets tidy_at .outside (ws ++ c :: s) = true) :
    all_octets tidy_at .outside (comma :: (ws ++ c :: s)) = true := by
  refine all_octets_cons.mpr ⟨?_, hs⟩
  have hdrop : (ws ++ c :: s).dropWhile is_whitespace = c :: s := by
    rw [dropWhile_append_of_pos hws, dropWhile_cons_of_neg (by simp [hc])]
  simp [tidy_at, hdrop, hclose]

/-- The first octet of a part that is no white space. -/
def Begins (t : List Byte) : Prop :=
  ∃ ws c s, t = ws ++ c :: s ∧ Blank ws ∧ is_whitespace c = false ∧ c ≠ close_array

theorem Begins.append (h : Begins t) (s : List Byte) : Begins (t ++ s) := by
  obtain ⟨ws, c, rest, rfl, hws, hc⟩ := h
  exact ⟨ws, c, rest ++ s, by simp, hws, hc⟩

theorem Begins.blank {ws t : List Byte} (hws : Blank ws) (h : Begins t) : Begins (ws ++ t) := by
  obtain ⟨ws', c, rest, rfl, hws', hc⟩ := h
  exact ⟨ws ++ ws', c, rest, by simp, hws.append hws', hc⟩

theorem Begins.cons (hc : is_whitespace c = false) (hclose : c ≠ close_array) (s : List Byte) :
    Begins (c :: s) := ⟨[], c, s, rfl, blank_nil, hc, hclose⟩

theorem Numeral.begins (h : Numeral t) : Begins t := by
  have hchars := h.chars
  have hne : t ≠ [] := by
    obtain ⟨-, hint, -, -, -⟩ := h
    simp [hint.1]
  obtain ⟨c, s, rfl⟩ := exists_cons_of_ne_nil hne
  have hc : is_numeral_char c = true := hchars c (by simp)
  exact Begins.cons (not_whitespace_of_class rfl rfl rfl rfl hc) (ne_of_class hc rfl) s

theorem Spells.begins {part : Part ν} (h : Spells double t part) : Begins t := by
  induction h with
  | null | true_ | false_ => exact Begins.cons (by decide) (by decide) _
  | number hnumeral => exact hnumeral.begins
  | string | empty_array | array | empty_object | object => exact Begins.cons (by decide) (by decide) _
  | item hws _ _ ih => exact (Begins.blank hws ih).append _
  | items hws _ _ _ ih => exact ((Begins.blank hws ih).append _).append _
  | member hws =>
    rw [append_assoc, append_assoc]
    exact Begins.blank hws (Begins.cons (by decide) (by decide) _)
  | members _ _ ih => exact ih.append _

theorem Spells.tidy {part : Part ν} (h : Spells double t part) {s : List Byte}
    (hs : all_octets tidy_at .outside s = true) : all_octets tidy_at .outside (t ++ s) = true := by
  have hmark : ∀ {c : Byte} {s : List Byte}, c ≠ comma → c ≠ quote → all_octets tidy_at .outside s = true →
      all_octets tidy_at .outside (c :: s) = true := by
    intro c s hcomma hquote hs
    exact @tidy_append [c] s (by simp [hcomma, hquote]) hs
  have hcomma : ∀ {u s : List Byte}, Begins u → all_octets tidy_at .outside (u ++ s) = true →
      all_octets tidy_at .outside (comma :: (u ++ s)) = true := by
    intro u s hbegins hs
    obtain ⟨ws, c, rest, heq, hws, hc, hclose⟩ := hbegins.append s
    rw [heq] at hs ⊢
    exact tidy_comma hws hc hclose hs
  induction h generalizing s with
  | null | true_ | false_ => exact tidy_append (by decide) hs
  | number hnumeral =>
    exact tidy_append (fun c hc => ⟨ne_of_class (hnumeral.chars c hc) rfl, ne_of_class (hnumeral.chars c hc) rfl⟩) hs
  | string hcontent => exact tidy_string hcontent hs
  | empty_array hws | empty_object hws =>
    rw [List.cons_append, List.cons_append, append_assoc]
    exact hmark (by decide) (by decide) (tidy_blank hws (hmark (by decide) (by decide) hs))
  | array _ ih | object _ ih =>
    rw [List.cons_append, List.cons_append, append_assoc]
    exact hmark (by decide) (by decide) (ih (hmark (by decide) (by decide) hs))
  | item hws _ hws' ih =>
    rw [append_assoc, append_assoc]
    exact tidy_blank hws (ih (tidy_blank hws' hs))
  | items hws _ hws' hitems ihvalue ihitems =>
    rw [append_assoc, append_assoc, append_assoc, List.cons_append]
    exact tidy_blank hws (ihvalue (tidy_blank hws' (hcomma hitems.begins (ihitems hs))))
  | member hws hkey _ hws' hws'' _ hws''' ih =>
    have hinner : ∀ c : Byte, ∀ a b d e : List Byte, (c :: (a ++ b ++ d)) ++ e = c :: (a ++ (b ++ (d ++ e))) := by
      intro c a b d e
      simp
    rw [append_assoc, append_assoc, append_assoc, hinner]
    exact tidy_blank hws (tidy_string hkey (tidy_blank hws' (hmark (by decide) (by decide)
      (tidy_blank hws'' (ih (tidy_blank hws''' hs))))))
  | members _ hmembers ihmember ihmembers =>
    rw [append_assoc, List.cons_append]
    exact ihmember (hcomma hmembers.begins (ihmembers hs))

theorem JsonText.tidy {value : Value ν} (h : JsonText double t value) : json.tidy t = true := by
  obtain ⟨ws, body, ws', hws, hws', rfl, hbody⟩ := h
  rw [json.tidy, append_assoc]
  have hend : all_octets tidy_at .outside ws' = true := by
    have hblank := tidy_blank hws' (s := []) rfl
    rwa [List.append_nil] at hblank
  exact tidy_blank hws (hbody.tidy hend)

end openvocs.json
