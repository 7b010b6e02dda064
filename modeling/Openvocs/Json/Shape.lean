import Openvocs.Json.Search
import Openvocs.Json.Text

open List Option

namespace openvocs.json

open cstring

variable {ν : Type} (double : Double ν)

mutual

/-- The value with the members of all objects in the order in which they are written. -/
def canon : Value ν → Value ν
  | .array items => .array (canon_items items)
  | .object members => .object (collocate_object_keys (canon_members members))
  | value => value

def canon_items : List (Value ν) → List (Value ν)
  | [] => []
  | item :: items => canon item :: canon_items items

def canon_members : List (List Byte × Value ν) → List (List Byte × Value ν)
  | [] => []
  | (key, value) :: members => (key, canon value) :: canon_members members

end

theorem canon_items_eq (items : List (Value ν)) : canon_items items = items.map canon := by
  induction items with
  | nil => rfl
  | cons item items ih => simp [canon_items, ih]

theorem canon_members_eq (members : List (List Byte × Value ν)) :
    canon_members members = members.map fun m => (m.1, canon m.2) := by
  induction members with
  | nil => rfl
  | cons member members ih =>
    obtain ⟨key, value⟩ := member
    simp [canon_members, ih]

/-- Two values are equal: the same items in the same order, the same members in any order. -/
inductive Value.Equal : Value ν → Value ν → Prop
  | null : Equal .null .null
  | true_ : Equal .true_ .true_
  | false_ : Equal .false_ .false_
  | number (value : ν) : Equal (.number value) (.number value)
  | string (content : List Byte) : Equal (.string content) (.string content)
  | array (items others : List (Value ν)) : items.length = others.length →
      (∀ pair ∈ items.zip others, Equal pair.1 pair.2) → Equal (.array items) (.array others)
  | object (members others permuted : List (List Byte × Value ν)) : members.Perm permuted →
      permuted.map Prod.fst = others.map Prod.fst →
      (∀ pair ∈ permuted.zip others, Equal pair.1.2 pair.2.2) → Equal (.object members) (.object others)

theorem eq_of_mem_zip_self {α : Type} {l : List α} {pair : α × α} (h : pair ∈ l.zip l) :
    pair.1 = pair.2 ∧ pair.1 ∈ l := by
  rw [List.zip, zipWith_self, List.mem_map] at h
  obtain ⟨a, ha, rfl⟩ := h
  exact ⟨rfl, ha⟩

theorem canon_equal (value : Value ν) : (canon value).Equal value := by
  induction value using Value.inner_induction with
  | null => exact .null
  | true_ => exact .true_
  | false_ => exact .false_
  | number value => exact .number value
  | string content => exact .string content
  | array items ih =>
    rw [canon, canon_items_eq]
    refine .array _ _ (by simp) ?_
    intro pair hpair
    rw [zip_map_left, List.mem_map] at hpair
    obtain ⟨⟨a, b⟩, hzip, rfl⟩ := hpair
    obtain ⟨heq, hmem⟩ := eq_of_mem_zip_self hzip
    obtain rfl : a = b := heq
    exact ih a hmem
  | object members ih =>
    rw [canon, canon_members_eq]
    refine .object _ _ _ (collocate_object_keys_perm _) (by simp [Function.comp_def]) ?_
    intro pair hpair
    rw [zip_map_left, List.mem_map] at hpair
    obtain ⟨⟨a, b⟩, hzip, rfl⟩ := hpair
    obtain ⟨heq, hmem⟩ := eq_of_mem_zip_self hzip
    obtain rfl : a = b := heq
    exact ih a hmem

def Blank (ws : List Byte) : Prop := ∀ b ∈ ws, is_whitespace b = true

theorem Blank.append {a b : List Byte} (ha : Blank a) (hb : Blank b) : Blank (a ++ b) := by
  intro c hc
  exact (mem_append.mp hc).elim (ha c) (hb c)

theorem blank_nil : Blank [] := by simp [Blank]

theorem blank_indent {config : ValueConfig} (h : Blank (chars config.indent)) (depth : Nat) :
    Blank (indent config depth) := by
  intro b hb
  simp only [indent] at hb
  split at hb
  · obtain ⟨part, hpart, hb⟩ := mem_flatten.mp hb
    rw [(mem_replicate.mp hpart).2] at hb
    exact h b hb
  · cases hb

/-- The text of a value without the indent in front of it. -/
def body (config : StringifyConfig) (depth : Nat) (value : Value ν) : List Byte :=
  match value with
  | .array (item :: items) =>
    chars config.array.intro ++ items_text double config (depth + 1) (item :: items) ++
      (chars config.array.out ++ indent config.array depth ++ chars config.array.outro)
  | .object (member :: members) =>
    chars config.object.intro ++
      members_text config.object (depth + 1)
        (collocate_object_keys (member_texts double config (depth + 1) (member :: members))) ++
      (chars config.object.out ++ indent config.object depth ++ chars config.object.outro)
  | value => text double config depth value

section plain

variable {config : StringifyConfig} (plain : Plain config)

theorem text_eq_body_of_not_filled {value : Value ν} (h : value.is_filled = false) (depth : Nat) :
    text double config depth value = body double config depth value := by
  unfold body
  split
  · simp [Value.is_filled] at h
  · simp [Value.is_filled] at h
  · rfl

include plain

theorem text_eq_body (value : Value ν) (depth : Nat) :
    ∃ ws, Blank ws ∧ text double config depth value = ws ++ body double config depth value := by
  unfold body
  split
  · exact ⟨indent config.array depth, blank_indent plain.array_indent depth, by simp [text]⟩
  · exact ⟨indent config.object depth, blank_indent plain.object_indent depth, by simp [text]⟩
  · exact ⟨[], blank_nil, rfl⟩

theorem items_text_cons (item : Value ν) (items : List (Value ν)) (depth : Nat) :
    ∃ ws, Blank ws ∧ items_text double config depth (item :: items) =
      ws ++ body double config depth item ++
        if items.isEmpty then [] else chars config.array.separator ++ items_text double config depth items := by
  cases hfilled : item.is_filled with
  | true =>
    obtain ⟨ws, hws, htext⟩ := text_eq_body double plain item depth
    exact ⟨ws, hws, by simp [items_text, hfilled, htext]⟩
  | false =>
    exact ⟨indent config.array depth, blank_indent plain.array_indent depth,
      by simp [items_text, hfilled, text_eq_body_of_not_filled double hfilled]⟩

theorem member_text_eq (value : Value ν) (depth : Nat) :
    ∃ ws, Blank ws ∧ member_text double config depth value = ws ++ body double config depth value := by
  obtain ⟨ws, hws, htext⟩ := text_eq_body double plain value depth
  refine ⟨(if config.object.depth && value.is_filled then [10] else []) ++ ws, ?_, by simp [member_text, htext]⟩
  refine Blank.append ?_ hws
  split
  · intro b hb
    rw [mem_singleton.mp hb]
    decide
  · exact blank_nil

end plain

/-- An integer of magnitude below `2 ^ 53`, which `strtod` reads back from its decimal text. -/
def Exact (value : ν) : Prop :=
  ∃ n : Int, n.natAbs < 2 ^ 53 ∧ double.integer value = some n ∧ double.strtod (print_integer n) = some value

theorem print_integer_cons (n : Int) : ∃ c s, print_integer n = c :: s ∧ begins_number c = true := by
  have hdigits := isNumber_decimal n.natAbs
  unfold print_integer
  split
  · exact ⟨45, _, rfl, by decide⟩
  cases hs : decimal n.natAbs with
  | nil => exact absurd hs hdigits.1
  | cons c s =>
    have hc := hdigits.2 c (by simp [hs])
    exact ⟨c, s, rfl, by simp [begins_number, hc]⟩

theorem begins_number_of_mem {n : Int} {c : Byte} (h : c ∈ print_integer n) : begins_number c = true := by
  have hdigits := isNumber_decimal n.natAbs
  unfold print_integer at h
  split at h
  · rcases mem_cons.mp h with rfl | hc
    · decide
    · simp [begins_number, hdigits.2 c hc]
  · simp [begins_number, hdigits.2 c h]

theorem is_numeral_print_integer (n : Int) : is_numeral (print_integer n) = true := by
  have hdigits := isNumber_decimal n.natAbs
  unfold is_numeral print_integer
  split
  · exact is_unsigned_of_isNumber hdigits
  obtain ⟨c, s, hs⟩ : ∃ c s, decimal n.natAbs = c :: s := exists_cons_of_ne_nil hdigits.1
  have hsign := sign_of_digit (hdigits.2 c (by simp [hs])) s
  rw [hs, hsign, ← hs]
  exact is_unsigned_of_isNumber hdigits

variable {double}

theorem Exact.fill_string {value : ν} (h : Exact double value) :
    ∃ n : Int, number_fill_string double value = print_integer n ∧ double.strtod (print_integer n) = some value := by
  obtain ⟨n, -, hinteger, hstrtod⟩ := h
  exact ⟨n, by simp [number_fill_string, hinteger], hstrtod⟩

theorem Exact.fill_string_length {value : ν} (h : Exact double value) :
    0 < (number_fill_string double value).length := by
  obtain ⟨n, hn, -⟩ := h.fill_string
  obtain ⟨c, s, hs, -⟩ := print_integer_cons n
  simp [hn, hs]

theorem not_whitespace_of_begins_number : ∀ c : Byte, begins_number c = true → is_whitespace c = false :=
  fun _ hc => not_whitespace_of_class rfl rfl rfl rfl hc

theorem body_cons {config : StringifyConfig} (plain : Plain config) {value : Value ν}
    (h : value.Built (Exact double)) (depth : Nat) :
    ∃ c s, body double config depth value = c :: s ∧ is_whitespace c = false := by
  cases h with
  | null | true_ | false_ =>
    simp [body, text, item_text, plain.literal, chars, null_word, true_word, false_word, is_whitespace]
  | number value hvalue =>
    obtain ⟨n, hn, -⟩ := hvalue.fill_string
    obtain ⟨c, s, hs, hc⟩ := print_integer_cons n
    refine ⟨c, s, ?_, not_whitespace_of_begins_number c hc⟩
    simp [body, text, item_text, plain.number, chars, hn, hs]
  | string content hcontent =>
    exact ⟨quote, content ++ [quote], by simp [body, text, item_text, plain.string], by decide⟩
  | array items hitems =>
    cases items with
    | nil => exact ⟨open_array, [close_array], by simp [body, text], by decide⟩
    | cons item items =>
      obtain ⟨ws, hintro, -⟩ := plain.array_intro
      exact ⟨open_array, _, by simp only [body, hintro, chars_some, List.cons_append]; rfl, by decide⟩
  | object members hkeys haccepted hmembers =>
    cases members with
    | nil => exact ⟨open_object, [close_object], by simp [body, text], by decide⟩
    | cons member members =>
      obtain ⟨ws, hintro, -⟩ := plain.object_intro
      exact ⟨open_object, _, by simp only [body, hintro, chars_some, List.cons_append]; rfl, by decide⟩

/-- One of the four brackets. -/
def is_bracket (c : Byte) : Bool := c = open_array || c = close_array || c = open_object || c = close_object

mutual

/-- The brackets of a value in the order of its text: its own ones, and those in strings and keys. -/
def marks (p : Byte → Bool) : Value ν → List Byte
  | .string content => content.filter p
  | .array items => [open_array].filter p ++ items_marks p items ++ [close_array].filter p
  | .object members =>
    [open_object].filter p ++ ((collocate_object_keys (member_marks p members)).map Prod.snd).flatten ++
      [close_object].filter p
  | _ => []

def items_marks (p : Byte → Bool) : List (Value ν) → List Byte
  | [] => []
  | item :: items => marks p item ++ items_marks p items

def member_marks (p : Byte → Bool) : List (List Byte × Value ν) → List (List Byte × List Byte)
  | [] => []
  | (key, value) :: members => (key, key.filter p ++ marks p value) :: member_marks p members

end

theorem member_marks_eq (p : Byte → Bool) (members : List (List Byte × Value ν)) :
    member_marks p members = members.map fun m => (m.1, m.1.filter p ++ marks p m.2) := by
  induction members with
  | nil => rfl
  | cons member members ih =>
    obtain ⟨key, value⟩ := member
    simp [member_marks, ih]

/-- The brackets of the members of an object. -/
def members_marks (p : Byte → Bool) (members : List (List Byte × Value ν)) : List Byte :=
  ((collocate_object_keys members).map fun m => m.1.filter p ++ marks p m.2).flatten

theorem members_marks_eq (p : Byte → Bool) (members : List (List Byte × Value ν)) :
    ((collocate_object_keys (member_marks p members)).map Prod.snd).flatten = members_marks p members := by
  rw [member_marks_eq, collocate_object_keys_map (fun k v => k.filter p ++ marks p v), members_marks, List.map_map]
  rfl

section filter

variable {p : Byte → Bool} (hp : ∀ c, p c = true → is_bracket c = true)
include hp

theorem filter_eq_nil_of_not_bracket {s : List Byte} (h : ∀ c ∈ s, is_bracket c = false) : s.filter p = [] := by
  rw [filter_eq_nil_iff]
  intro c hc hpc
  have hbracket := hp c hpc
  rw [h c hc] at hbracket
  cases hbracket

omit hp in
theorem not_bracket_of_whitespace : ∀ c : Byte, is_whitespace c = true → is_bracket c = false :=
  forall_whitespace rfl rfl rfl rfl

omit hp in
theorem not_bracket_of_begins_number : ∀ c : Byte, begins_number c = true → is_bracket c = false := by
  intro c hc
  simp only [is_bracket, Bool.or_eq_false_iff, decide_eq_false_iff_not]
  exact ⟨⟨⟨Byte.ne_of_class hc rfl, Byte.ne_of_class hc rfl⟩, Byte.ne_of_class hc rfl⟩, Byte.ne_of_class hc rfl⟩

theorem filter_blank {ws : List Byte} (h : Blank ws) : ws.filter p = [] :=
  filter_eq_nil_of_not_bracket hp fun c hc => not_bracket_of_whitespace c (h c hc)

theorem filter_cons_not_bracket {c : Byte} (hc : is_bracket c = false) (s : List Byte) :
    (c :: s).filter p = s.filter p := by
  rw [filter_cons_of_neg]
  intro hpc
  have hbracket := hp c hpc
  rw [hc] at hbracket
  cases hbracket

variable {config : StringifyConfig} (plain : Plain config)
include plain

theorem filter_members_text (depth : Nat) (l : List (List Byte × List Byte)) :
    (members_text config.object depth l).filter p = (l.map fun m => m.1.filter p ++ m.2.filter p).flatten := by
  have hquote : is_bracket quote = false := by decide
  have hcolon : is_bracket colon = false := by decide
  have hcomma : is_bracket comma = false := by decide
  obtain ⟨ws, hseparator, hws, -⟩ := plain.object_separator
  induction l with
  | nil => rfl
  | cons entry rest ih =>
    obtain ⟨key, octets⟩ := entry
    have htail : (if rest.isEmpty then [] else
        chars config.object.separator ++ members_text config.object depth rest).filter p =
        (members_text config.object depth rest).filter p := by
      cases rest with
      | nil => rfl
      | cons next rest =>
        simp [hseparator, chars_some, filter_cons_not_bracket hp hcomma, filter_blank hp hws]
    rw [members_text]
    simp only [filter_append, List.cons_append, htail, ih, plain.object_delimiter, chars_some,
      filter_blank hp (blank_indent plain.object_indent depth), filter_cons_not_bracket hp hquote,
      filter_cons_not_bracket hp hcolon, filter_nil, nil_append, List.append_nil, map_cons,
      flatten_cons]

theorem filter_items_text (depth : Nat) {items : List (Value ν)}
    (h : ∀ item ∈ items, (text double config depth item).filter p = marks p item) :
    (items_text double config depth items).filter p = items_marks p items := by
  have hcomma : is_bracket comma = false := by decide
  obtain ⟨ws, hseparator, hws⟩ := plain.array_separator
  induction items with
  | nil => rfl
  | cons item items ih =>
    have hindent : (if item.is_filled then [] else indent config.array depth).filter p = [] := by
      split
      · rfl
      · exact filter_blank hp (blank_indent plain.array_indent _)
    have htail : (if items.isEmpty then [] else chars config.array.separator ++
        items_text double config depth items).filter p = items_marks p items := by
      rw [← ih fun other hother => h other (mem_cons_of_mem _ hother)]
      cases items with
      | nil => rfl
      | cons next items =>
        simp [hseparator, chars_some, filter_cons_not_bracket hp hcomma, filter_blank hp hws]
    simp only [items_text, filter_append, hindent, htail, h item (by simp), nil_append, items_marks]

theorem filter_member_texts (depth : Nat) {members : List (List Byte × Value ν)}
    (h : ∀ m ∈ members, (text double config depth m.2).filter p = marks p m.2) :
    (members_text config.object depth (collocate_object_keys (member_texts double config depth members))).filter p =
      members_marks p members := by
  have hvalue : ∀ m ∈ collocate_object_keys members,
      (member_text double config depth m.2).filter p = marks p m.2 := by
    intro m hm
    have hline : (if config.object.depth && m.2.is_filled then [(10 : Byte)] else []).filter p = [] := by
      split
      · exact filter_eq_nil_of_not_bracket hp (by decide)
      · rfl
    rw [member_text, filter_append, hline, nil_append]
    exact h m ((collocate_object_keys_perm _).subset hm)
  rw [filter_members_text hp plain, member_texts_eq,
    collocate_object_keys_map (fun _ v => member_text double config depth v), List.map_map, members_marks]
  congr 1
  exact map_congr_left fun m hm => by simp [hvalue m hm]

theorem filter_text {value : Value ν} (h : value.Built (Exact double)) (depth : Nat) :
    (text double config depth value).filter p = marks p value := by
  have hquote : is_bracket quote = false := by decide
  induction h generalizing depth with
  | null | true_ | false_ =>
    simp only [text, item_text, plain.literal, marks]
    exact filter_eq_nil_of_not_bracket hp (by decide)
  | number value hvalue =>
    obtain ⟨n, hn, -⟩ := hvalue.fill_string
    simp only [text, item_text, plain.number, marks, hn, chars, getD_none, nil_append, List.append_nil]
    exact filter_eq_nil_of_not_bracket hp fun c hc => not_bracket_of_begins_number c (begins_number_of_mem hc)
  | string content hcontent =>
    simp [text, item_text, plain.string, chars_some, filter_cons_not_bracket hp hquote, marks]
  | array items hitems ih =>
    cases items with
    | nil =>
      simp only [text, marks, items_marks, List.append_nil]
      exact filter_append [open_array] [close_array]
    | cons item items =>
      obtain ⟨ws, hintro, hws⟩ := plain.array_intro
      have hopen : (open_array :: ws).filter p = [open_array].filter p := by
        rw [← singleton_append, filter_append, filter_blank hp hws, List.append_nil]
      simp only [text, hintro, chars_some, filter_append, filter_items_text hp plain (depth + 1) (fun item hitem => ih item hitem (depth + 1)), hopen, marks, plain.array_outro,
        filter_blank hp (blank_indent plain.array_indent depth), filter_blank hp plain.array_out,
        nil_append]
  | object members hkeys haccepted hmembers ih =>
    cases members with
    | nil =>
      rw [text, marks, members_marks_eq, show members_marks p ([] : List (List Byte × Value ν)) = [] from rfl,
        List.append_nil]
      exact filter_append [open_object] [close_object]
    | cons member members =>
      obtain ⟨ws, hintro, hws⟩ := plain.object_intro
      have hopen : (open_object :: ws).filter p = [open_object].filter p := by
        rw [← singleton_append, filter_append, filter_blank hp hws, List.append_nil]
      simp only [text, hintro, chars_some, filter_append, hopen, marks, members_marks_eq,
        filter_member_texts hp plain (depth + 1) (fun m hm => ih m hm (depth + 1)), plain.object_outro,
        filter_blank hp (blank_indent plain.object_indent depth), filter_blank hp plain.object_out,
        nil_append]

end filter

end openvocs.json
