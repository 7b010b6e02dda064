import Openvocs.Json.Stringify

open List Option

namespace openvocs.json

open EncodingParameter

variable {ν : Type} (double : Double ν)

/-- A string or a key that may be part of a value. The value keeps it as a C string. -/
def Accepted (content : List Byte) : Prop := string_is_valid content = true ∧ 0 ∉ content

/-- The values that are built from literals, from the given numbers, from strings that are
accepted, and from arrays and objects of such values, with each key once. -/
inductive Value.Built (numbers : ν → Prop) : Value ν → Prop
  | null : Built numbers .null
  | true_ : Built numbers .true_
  | false_ : Built numbers .false_
  | number (value : ν) : numbers value → Built numbers (.number value)
  | string (content : List Byte) : Accepted content → Built numbers (.string content)
  | array (items : List (Value ν)) : (∀ item ∈ items, Built numbers item) → Built numbers (.array items)
  | object (members : List (List Byte × Value ν)) : (members.map Prod.fst).Nodup →
      (∀ member ∈ members, Accepted member.1) → (∀ member ∈ members, Built numbers member.2) →
      Built numbers (.object members)

section collocate

variable {α β : Type}

theorem collocate_ascending_perm (entry : List Byte × α) (list : List (List Byte × α)) :
    (collocate_ascending entry list).Perm (entry :: list) := by
  induction list with
  | nil => exact List.Perm.refl _
  | cons other rest ih =>
    unfold collocate_ascending
    split
    · exact List.Perm.refl _
    · exact (ih.cons other).trans (List.Perm.swap entry other rest)

theorem collocate_object_keys_perm (entries : List (List Byte × α)) :
    (collocate_object_keys entries).Perm entries := by
  have hfold : ∀ (rest list : List (List Byte × α)),
      (rest.foldl (fun list entry => collocate_ascending entry list) list).Perm (rest ++ list) := by
    intro rest
    induction rest with
    | nil => exact fun list => List.Perm.refl _
    | cons entry rest ih =>
      intro list
      refine (ih (collocate_ascending entry list)).trans ?_
      exact ((collocate_ascending_perm entry list).append_left rest).trans perm_middle
  simpa [collocate_object_keys] using hfold entries []

theorem collocate_ascending_map (f : List Byte → α → β) (entry : List Byte × α)
    (list : List (List Byte × α)) :
    collocate_ascending (entry.1, f entry.1 entry.2) (list.map fun e => (e.1, f e.1 e.2)) =
      (collocate_ascending entry list).map fun e => (e.1, f e.1 e.2) := by
  induction list with
  | nil => rfl
  | cons other rest ih =>
    simp only [map_cons, collocate_ascending]
    split
    · rfl
    · simp [ih]

theorem collocate_object_keys_map (f : List Byte → α → β) (entries : List (List Byte × α)) :
    collocate_object_keys (entries.map fun e => (e.1, f e.1 e.2)) =
      (collocate_object_keys entries).map fun e => (e.1, f e.1 e.2) := by
  have hfold : ∀ (rest list : List (List Byte × α)),
      (rest.map fun e => (e.1, f e.1 e.2)).foldl (fun list entry => collocate_ascending entry list)
          (list.map fun e => (e.1, f e.1 e.2)) =
        (rest.foldl (fun list entry => collocate_ascending entry list) list).map
          fun e => (e.1, f e.1 e.2) := by
    intro rest
    induction rest with
    | nil => exact fun list => rfl
    | cons entry rest ih =>
      intro list
      simp only [map_cons, foldl_cons, collocate_ascending_map f entry list]
      exact ih _
  exact hfold entries []

end collocate

/-- The indent in front of something at some depth. -/
def indent (config : ValueConfig) (depth : Nat) : List Byte :=
  if config.depth then (List.replicate depth (chars config.indent)).flatten else []

/-- The text of a number, a string or a literal. -/
def item_text (config : ValueConfig) (content : List Byte) : List Byte :=
  chars config.intro ++ content ++ chars config.outro

/-- The members of an object, from their keys and the texts of their values. -/
def members_text (config : ValueConfig) (depth : Nat) : List (List Byte × List Byte) → List Byte
  | [] => []
  | (key, text) :: members =>
    indent config depth ++ (quote :: key ++ [quote]) ++ chars config.delimiter ++ text ++
      if members.isEmpty then [] else chars config.separator ++ members_text config depth members

mutual

def text (config : StringifyConfig) (depth : Nat) : Value ν → List Byte
  | .null => item_text config.literal null_word
  | .true_ => item_text config.literal true_word
  | .false_ => item_text config.literal false_word
  | .number value => item_text config.number (number_fill_string double value)
  | .string content => item_text config.string content
  | .array [] => [open_array, close_array]
  | .array (item :: items) =>
    indent config.array depth ++ chars config.array.intro ++ items_text config (depth + 1) (item :: items) ++
      (chars config.array.out ++ indent config.array depth ++ chars config.array.outro)
  | .object [] => [open_object, close_object]
  | .object (member :: members) =>
    indent config.object depth ++ chars config.object.intro ++
      members_text config.object (depth + 1)
        (collocate_object_keys (member_texts config (depth + 1) (member :: members))) ++
      (chars config.object.out ++ indent config.object depth ++ chars config.object.outro)

def items_text (config : StringifyConfig) (depth : Nat) : List (Value ν) → List Byte
  | [] => []
  | item :: items =>
    (if item.is_filled then [] else indent config.array depth) ++ text config depth item ++
      if items.isEmpty then [] else chars config.array.separator ++ items_text config depth items

/-- The texts of the values of an object, a value with items or members on a line of its own. -/
def member_texts (config : StringifyConfig) (depth : Nat) :
    List (List Byte × Value ν) → List (List Byte × List Byte)
  | [] => []
  | (key, value) :: members =>
    (key, (if config.object.depth && value.is_filled then [10] else []) ++ text config depth value) ::
      member_texts config depth members

end

/-- The text of the value of a member. -/
def member_text (config : StringifyConfig) (depth : Nat) (value : Value ν) : List Byte :=
  (if config.object.depth && value.is_filled then [10] else []) ++ text double config depth value

theorem member_texts_eq (config : StringifyConfig) (depth : Nat) (members : List (List Byte × Value ν)) :
    member_texts double config depth members =
      members.map fun m => (m.1, member_text double config depth m.2) := by
  induction members with
  | nil => rfl
  | cons member members ih =>
    obtain ⟨key, value⟩ := member
    simp [member_texts, member_text, ih]

theorem member_entries_eq (config : StringifyConfig) (members : List (List Byte × Value ν)) :
    member_entries double config members =
      members.map fun m => (m.1, m.2.is_filled, value_encode double config m.2) := by
  induction members with
  | nil => rfl
  | cons member members ih =>
    obtain ⟨key, value⟩ := member
    simp [member_entries, ih]

/-- A configuration with the brackets, commas, colons and quotes of JSON and white space around
them. -/
structure Plain (config : StringifyConfig) : Prop where
  intro : config.intro = none
  outro : config.outro = none
  literal : config.literal = {}
  number : config.number = {}
  string : config.string = { intro := some [quote], outro := some [quote] }
  array_intro : ∃ ws, config.array.intro = some (open_array :: ws) ∧ ∀ c ∈ ws, is_whitespace c = true
  array_out : ∀ c ∈ chars config.array.out, is_whitespace c = true
  array_outro : config.array.outro = some [close_array]
  array_separator : ∃ ws, config.array.separator = some (comma :: ws) ∧ ∀ c ∈ ws, is_whitespace c = true
  array_indent : ∀ c ∈ chars config.array.indent, is_whitespace c = true
  object_intro : ∃ ws, config.object.intro = some (open_object :: ws) ∧ ∀ c ∈ ws, is_whitespace c = true
  object_out : ∀ c ∈ chars config.object.out, is_whitespace c = true
  object_outro : config.object.outro = some [close_object]
  object_separator : ∃ ws, config.object.separator = some (comma :: ws) ∧ (∀ c ∈ ws, is_whitespace c = true) ∧
    ws.length ≤ (chars config.object.out).length
  object_delimiter : config.object.delimiter = some [colon]
  object_indent : ∀ c ∈ chars config.object.indent, is_whitespace c = true

theorem plain_minimal : Plain config_stringify_minimal := by
  constructor <;> simp [config_stringify_minimal, chars]

theorem plain_default : Plain config_stringify_default := by
  constructor <;> simp [config_stringify_default, chars, is_whitespace]

/-- The parameter after some octets have been written. -/
def EncodingParameter.write (p : EncodingParameter) (octets : List Byte) : EncodingParameter :=
  { p with buffer := p.buffer ++ octets, size := p.size - octets.length }

@[simp] theorem chars_some (content : List Byte) : chars (some content) = content := rfl

section write

variable (p : EncodingParameter)

@[simp] theorem EncodingParameter.write_nil : p.write [] = p := by simp [write]

@[simp] theorem EncodingParameter.write_depth (octets : List Byte) : (p.write octets).depth = p.depth := rfl

@[simp] theorem EncodingParameter.write_size (octets : List Byte) :
    (p.write octets).size = p.size - octets.length := rfl

theorem EncodingParameter.write_write (a b : List Byte) : (p.write a).write b = p.write (a ++ b) := by
  simp [write, Nat.sub_sub]

theorem EncodingParameter.write_nested (a b : List Byte) (depth : Nat) :
    { ({ p.write a with depth := depth } : EncodingParameter).write b with depth := p.depth } =
      p.write (a ++ b) := by
  simp [write, Nat.sub_sub]

theorem unwrite_write (a b : List Byte) (h : (a ++ b).length ≤ p.size) :
    unwrite b.length (p.write (a ++ b)) = p.write a := by
  simp only [length_append] at h
  have hsize : p.size - (a ++ b).length + b.length = p.size - a.length := by
    simp only [length_append]
    omega
  have htake : (p.buffer ++ (a ++ b)).take ((p.buffer ++ (a ++ b)).length - b.length) = p.buffer ++ a := by
    rw [← append_assoc]
    apply take_left'
    simp only [length_append]
    omega
  simp only [unwrite, EncodingParameter.write, hsize, htake]

variable {p}

theorem write_if_not_null_eq {content : Option (List Byte)} (h : (chars content).length ≤ p.size) :
    write_if_not_null content p = some (p.write (chars content)) := by
  simp [write_if_not_null, Nat.not_lt.mpr h, EncodingParameter.write]

theorem write_indents_eq (octets : List Byte) (n : Nat)
    (h : (List.replicate n octets).flatten.length < p.size) :
    write_indents octets n p = some (p.write (List.replicate n octets).flatten) := by
  induction n generalizing p with
  | zero => simp [write_indents]
  | succ n ih =>
    simp only [replicate_succ, flatten_cons, length_append] at h ⊢
    have hroom : ¬ p.size ≤ octets.length := by omega
    have hwrite : write_if_not_null (some octets) p = some (p.write octets) :=
      write_if_not_null_eq (by rw [chars_some]; omega)
    have hrest : (List.replicate n octets).flatten.length < (p.write octets).size := by
      rw [write_size]
      omega
    rw [write_indents, if_neg hroom, hwrite, bind_some, ih hrest, write_write]

theorem write_indent_eq (config : ValueConfig) (h : (indent config p.depth).length < p.size) :
    write_indent config p = some (p.write (indent config p.depth)) := by
  unfold write_indent
  split
  · rename_i octets hdepth hindent
    have heq : indent config p.depth = (List.replicate p.depth octets).flatten := by
      simp [indent, hdepth, hindent, chars]
    rw [heq] at h ⊢
    have hlength : (List.replicate p.depth octets).flatten.length = p.depth * octets.length := by simp
    rw [if_neg (by omega)]
    exact write_indents_eq octets p.depth h
  rename_i hnone
  have heq : indent config p.depth = [] := by
    unfold indent
    split
    · rename_i hdepth
      cases hindent : config.indent with
      | none => simp [chars]
      | some octets => exact absurd hindent (hnone octets hdepth)
    · rfl
  simp [heq]

variable {config : ValueConfig}

theorem write_indent_bind {next : EncodingParameter → Option EncodingParameter}
    {octets : List Byte} (hpos : 0 < octets.length)
    (h : (indent config p.depth ++ octets).length ≤ p.size)
    (hnext : next (p.write (indent config p.depth)) = some ((p.write (indent config p.depth)).write octets)) :
    (write_indent config p).bind next = some (p.write (indent config p.depth ++ octets)) := by
  rw [length_append] at h
  rw [write_indent_eq config (by omega), bind_some, hnext, write_write]

theorem write_intro_eq (hintro : config.intro.isSome = true)
    (hpos : 0 < (chars config.intro).length)
    (h : (indent config p.depth ++ chars config.intro).length ≤ p.size) :
    write_intro config p = some (p.write (indent config p.depth ++ chars config.intro)) := by
  rw [write_intro, if_pos hintro]
  apply write_indent_bind hpos h
  apply write_if_not_null_eq
  rw [length_append] at h
  rw [write_size]
  omega

theorem write_outro_eq (hintro : config.intro.isSome = true)
    (houtro : config.outro.isSome = true) (hpos : 0 < (chars config.outro).length)
    (h : (chars config.out ++ indent config p.depth ++ chars config.outro).length ≤ p.size) :
    write_outro config p = some (p.write (chars config.out ++ indent config p.depth ++ chars config.outro)) := by
  simp only [length_append] at h
  rw [write_outro, if_pos (by simp [hintro, houtro]), write_if_not_null_eq (by omega), bind_some]
  have hsize := p.write_size (chars config.out)
  rw [write_indent_bind hpos (by rw [length_append, write_depth, hsize]; omega)]
  · rw [write_depth, write_write, append_assoc]
  apply write_if_not_null_eq
  simp only [write_size, write_depth]
  omega

theorem item_encode_eq {content : List Byte} (hpos : 0 < content.length)
    (h : (item_text config content).length ≤ p.size) :
    item_encode config content p = some (p.write (item_text config content)) := by
  simp only [item_text, length_append] at h
  rw [item_encode, if_neg (by omega), write_if_not_null_eq (by omega), bind_some,
    write_if_not_null_eq (by rw [chars_some, write_size]; omega),
    bind_some, write_if_not_null_eq]
  · simp [write_write, item_text]
  simp only [chars_some, write_size]
  omega

end write

section plain

variable {config : StringifyConfig} (plain : Plain config)
include plain

theorem Plain.array_intro_some : config.array.intro.isSome = true ∧ 0 < (chars config.array.intro).length := by
  obtain ⟨ws, h, -⟩ := plain.array_intro
  simp [h]

theorem Plain.object_intro_some : config.object.intro.isSome = true ∧ 0 < (chars config.object.intro).length := by
  obtain ⟨ws, h, -⟩ := plain.object_intro
  simp [h]

variable {p : EncodingParameter}

theorem object_write_entry_eq {key octets : List Byte} {is_filled : Bool}
    {encode : EncodingParameter → Option EncodingParameter} (hpos : 0 < octets.length)
    (h : (indent config.object p.depth ++ (quote :: key ++ [quote]) ++ chars config.object.delimiter ++
      ((if config.object.depth && is_filled then [10] else []) ++ octets) ++
      chars config.object.separator).length ≤ p.size)
    (hencode : ∀ q : EncodingParameter, q.depth = p.depth → octets.length ≤ q.size →
      encode q = some (q.write octets)) :
    object_write_entry config.object key is_filled encode p =
      some (p.write (indent config.object p.depth ++ (quote :: key ++ [quote]) ++ chars config.object.delimiter ++
        ((if config.object.depth && is_filled then [10] else []) ++ octets) ++
        chars config.object.separator)) := by
  obtain ⟨ws, hseparator, -⟩ := plain.object_separator
  simp only [plain.object_delimiter, hseparator, chars_some] at h ⊢
  have hnewline : (if config.object.depth && is_filled then [(10 : Byte)] else []).length ≤ 1 := by split <;> simp
  simp only [length_append, length_cons, length_nil] at h
  rw [object_write_entry, write_indent_eq config.object (by omega), bind_some, if_neg (by rw [write_size]; omega)]
  rw [write_if_not_null_eq (by simp only [chars_some, write_size, length_append,
      length_cons, length_nil]; omega), bind_some, plain.object_delimiter,
    write_if_not_null_eq (by simp only [chars_some, write_size, length_append,
      length_cons, length_nil]; omega), bind_some]
  simp only [chars_some, write_write]
  have hsize := p.write_size (indent config.object p.depth ++ (quote :: key ++ [quote]) ++ [colon])
  simp only [length_append, length_cons, length_nil] at hsize
  rw [if_neg (by omega)]
  generalize hq : p.write (indent config.object p.depth ++ (quote :: key ++ [quote]) ++ [colon]) = q at hsize ⊢
  have hdepth : q.depth = p.depth := by rw [← hq, write_depth]
  have hline : (if (config.object.depth && is_filled) = true then
      { q with buffer := q.buffer ++ [10], size := q.size - 1 } else q) =
      q.write (if config.object.depth && is_filled then [10] else []) := by
    split
    · rfl
    · simp
  rw [hline, hencode _ (by rw [write_depth, hdepth])
    (by rw [write_size]; omega), bind_some, hseparator, write_if_not_null_eq]
  · rw [← hq]
    simp [chars_some, write_write]
  simp only [chars_some, write_size, length_cons]
  omega

omit plain in
theorem Accepted.length_pos {content : List Byte} (h : Accepted content) : 0 < content.length := by
  obtain ⟨hvalid, -⟩ := h
  cases content with
  | nil => simp [string_is_valid, validate_string, utf8.validate_sequence] at hvalid
  | cons c s => simp

variable {double} {numbers : ν → Prop}
  (hnumbers : ∀ value, numbers value → 0 < (number_fill_string double value).length)
include hnumbers

theorem text_length_pos {value : Value ν} (h : value.Built numbers) (depth : Nat) :
    0 < (text double config depth value).length := by
  cases h with
  | null | true_ | false_ =>
    simp [text, item_text, null_word, true_word, false_word]
  | number value hvalue =>
    have := hnumbers value hvalue
    simp only [text, item_text, length_append]
    omega
  | string content hcontent =>
    have := hcontent.length_pos
    simp only [text, item_text, length_append]
    omega
  | array items hitems =>
    cases items with
    | nil => simp [text]
    | cons item items =>
      have := plain.array_intro_some.2
      simp only [text, length_append]
      omega
  | object members hkeys haccepted hmembers =>
    cases members with
    | nil => simp [text]
    | cons member members =>
      have := plain.object_intro_some.2
      simp only [text, length_append]
      omega

omit hnumbers in
theorem object_write_ordered_eq {l : List (List Byte × Value ν)} (hl : l ≠ [])
    (hpos : ∀ m ∈ l, 0 < (text double config p.depth m.2).length)
    (hencode : ∀ m ∈ l, ∀ q : EncodingParameter, (text double config q.depth m.2).length ≤ q.size →
      value_encode double config m.2 q = some (q.write (text double config q.depth m.2)))
    (h : (members_text config.object p.depth (l.map fun m => (m.1, member_text double config p.depth m.2)) ++
      chars config.object.separator).length ≤ p.size) :
    object_write_ordered config.object
        (l.map fun m => (m.1, m.2.is_filled, value_encode double config m.2)) p =
      some (p.write (members_text config.object p.depth
        (l.map fun m => (m.1, member_text double config p.depth m.2)) ++ chars config.object.separator)) := by
  induction l generalizing p with
  | nil => exact absurd rfl hl
  | cons member rest ih =>
    obtain ⟨key, value⟩ := member
    simp only [map_cons, members_text] at h ⊢
    have hentry := @object_write_entry_eq config plain p key (text double config p.depth value)
      value.is_filled (value_encode double config value) (hpos (key, value) (by simp))
    rw [object_write_ordered, hentry]
    · cases rest with
      | nil => simp [object_write_ordered, member_text]
      | cons next rest =>
        simp only [map_cons, isEmpty_cons, Bool.false_eq_true, if_false] at h ⊢
        rw [bind_some]
        have hih := ih (p := p.write (indent config.object p.depth ++ (quote :: key ++ [quote]) ++
          chars config.object.delimiter ++ ((if config.object.depth && value.is_filled then [10] else []) ++
          text double config p.depth value) ++ chars config.object.separator)) (by simp)
          (fun m hm => hpos m (mem_cons_of_mem _ hm)) (fun m hm => hencode m (mem_cons_of_mem _ hm))
        simp only [write_depth] at hih
        rw [map_cons, map_cons] at hih
        rw [hih]
        · simp [write_write, member_text]
        simp only [write_size, member_text, length_append] at h ⊢
        omega
    · simp only [member_text, length_append] at h ⊢
      omega
    intro q hdepth hq
    have := hencode (key, value) (by simp) q
    simp only [hdepth] at this
    exact this hq

omit hnumbers plain in
theorem items_encode_eq {items : List (Value ν)}
    (hpos : ∀ item ∈ items, 0 < (text double config p.depth item).length)
    (hencode : ∀ item ∈ items, ∀ q : EncodingParameter, (text double config q.depth item).length ≤ q.size →
      value_encode double config item q = some (q.write (text double config q.depth item)))
    (h : (items_text double config p.depth items).length ≤ p.size) :
    items_encode double config items p = some (p.write (items_text double config p.depth items)) := by
  induction items generalizing p with
  | nil => simp [items_encode, items_text]
  | cons item items ih =>
    simp only [items_text, length_append] at h ⊢
    have hitem := hpos item (by simp)
    have hfirst : ((if item.is_filled then some p else write_indent config.array p).bind fun p =>
        value_encode double config item p) =
        some (p.write ((if item.is_filled then [] else indent config.array p.depth) ++
          text double config p.depth item)) := by
      split at h
      · rename_i hfilled
        simp only [if_pos hfilled, nil_append, bind_some]
        exact hencode item (by simp) p (by omega)
      rename_i hfilled
      simp only [if_neg hfilled]
      apply write_indent_bind hitem (by rw [length_append]; omega)
      have hvalue := hencode item (by simp) (p.write (indent config.array p.depth))
      rw [write_depth, write_size] at hvalue
      exact hvalue (by omega)
    rw [items_encode, ← bind_assoc, hfirst, bind_some]
    cases items with
    | nil => simp
    | cons next items =>
      simp only [isEmpty_cons, Bool.false_eq_true, if_false, length_append] at h ⊢
      rw [write_if_not_null_eq (by simp only [write_size, length_append]; omega), bind_some]
      have hih := ih (p := (p.write ((if item.is_filled then [] else indent config.array p.depth) ++
          text double config p.depth item)).write (chars config.array.separator))
        (fun m hm => hpos m (mem_cons_of_mem _ hm)) (fun m hm => hencode m (mem_cons_of_mem _ hm))
      simp only [write_depth] at hih
      rw [hih]
      · simp [write_write]
      simp only [write_size, length_append]
      omega

theorem value_encode_eq {value : Value ν} (h : value.Built numbers) (p : EncodingParameter)
    (hsize : (text double config p.depth value).length ≤ p.size) :
    value_encode double config value p = some (p.write (text double config p.depth value)) := by
  induction h generalizing p with
  | null | true_ | false_ =>
    simp only [text, value_encode] at hsize ⊢
    exact item_encode_eq (by simp [null_word, true_word, false_word]) hsize
  | number value hvalue =>
    simp only [text, value_encode] at hsize ⊢
    exact item_encode_eq (hnumbers value hvalue) hsize
  | string content hcontent =>
    simp only [text, value_encode] at hsize ⊢
    rw [string_encode, if_pos]
    · exact item_encode_eq hcontent.length_pos hsize
    simp only [item_text, plain.string, chars_some, length_append, length_cons, length_nil] at hsize
    simp only [hcontent.1, Bool.true_and, decide_eq_true_eq]
    omega
  | array items hitems ih =>
    cases items with
    | nil =>
      simp only [text, length_cons, length_nil] at hsize
      simp only [value_encode]
      rw [if_neg (by omega)]
      rfl
    | cons item items =>
      simp only [text, length_append] at hsize
      obtain ⟨hintro, hintropos⟩ := plain.array_intro_some
      simp only [value_encode]
      rw [write_intro_eq hintro hintropos (by rw [length_append]; omega), bind_some]
      have hitems := items_encode_eq
        (p := { p.write (indent config.array p.depth ++ chars config.array.intro) with depth := p.depth + 1 })
        (fun item hitem => text_length_pos plain hnumbers (hitems item hitem) _)
        (fun item hitem q hq => ih item hitem q hq)
        (by simp only [write_size, length_append]; omega)
      rw [write_depth, hitems, bind_some, write_depth,
        Nat.add_sub_cancel, write_nested, write_outro_eq hintro (by simp [plain.array_outro])
          (by simp [plain.array_outro])
          (by simp only [write_size, write_depth, length_append]; omega),
        write_depth, write_write, text]
  | object members hkeys haccepted hmembers ih =>
    cases members with
    | nil =>
      simp only [text, length_cons, length_nil] at hsize
      simp only [value_encode]
      rw [if_neg (by omega)]
      rfl
    | cons member members =>
      simp only [text, length_append] at hsize
      obtain ⟨hintro, hintropos⟩ := plain.object_intro_some
      obtain ⟨ws, hseparator, -, hshort⟩ := plain.object_separator
      have hperm := collocate_object_keys_perm (member :: members)
      have hmember : ∀ m ∈ collocate_object_keys (member :: members), m ∈ member :: members :=
        fun m hm => hperm.subset hm
      have htexts := collocate_object_keys_map (fun _ v => member_text double config (p.depth + 1) v)
        (member :: members)
      have hentries := collocate_object_keys_map (fun _ v => (v.is_filled, value_encode double config v))
        (member :: members)
      rw [member_texts_eq, htexts] at hsize
      have hlast : (chars config.object.separator).length ≤
          (chars config.object.out).length + (chars config.object.outro).length := by
        simp only [hseparator, plain.object_outro, chars_some, length_cons, length_nil]
        omega
      simp only [value_encode]
      rw [write_intro_eq hintro hintropos (by rw [length_append]; omega), bind_some, member_entries_eq, hentries]
      have hwrite := object_write_ordered_eq plain
        (p := { p.write (indent config.object p.depth ++ chars config.object.intro) with depth := p.depth + 1 })
        (l := collocate_object_keys (member :: members)) (by
          intro hnil
          rw [hnil] at hperm
          exact absurd hperm.length_eq (by simp))
        (fun m hm => text_length_pos plain hnumbers (hmembers m (hmember m hm)) _)
        (fun m hm q hq => ih m (hmember m hm) q hq)
        (by simp only [write_size, length_append]; omega)
      rw [write_depth, hwrite, bind_some, write_depth, Nat.add_sub_cancel, write_nested, ← append_assoc, unwrite_write,
        write_outro_eq hintro (by simp [plain.object_outro]) (by simp [plain.object_outro])
          (by simp only [write_size, write_depth, length_append]; omega),
        write_depth, write_write, text, member_texts_eq, htexts]
      simp only [length_append]
      omega

end plain

section calculate

variable {config : StringifyConfig} {double}

theorem length_indent (config : ValueConfig) (depth : Nat) :
    (indent config depth).length = calculate_indent config depth := by
  unfold indent calculate_indent
  split
  · simp
  · rfl

theorem length_items_text (depth : Nat) {items : List (Value ν)}
    (h : ∀ item ∈ items, calculate_value double config depth item = (text double config depth item).length) :
    calculate_items double config depth items = (items_text double config depth items).length := by
  induction items with
  | nil => rfl
  | cons item items ih =>
    have hrest := ih fun other hother => h other (mem_cons_of_mem _ hother)
    have hfilled : (if item.is_filled then 0 else calculate_indent config.array depth) =
        (if item.is_filled then [] else indent config.array depth).length := by
      split
      · rfl
      · exact (length_indent _ _).symm
    have htail : (if items.isEmpty then 0 else (chars config.array.separator).length) +
        (items_text double config depth items).length =
        (if items.isEmpty then [] else
          chars config.array.separator ++ items_text double config depth items).length := by
      cases items with
      | nil => simp [items_text]
      | cons next items => simp
    simp only [calculate_items, items_text, length_append, ← htail, ← hfilled, h item (by simp), hrest]
    omega

/-- The length of one member with the separator behind it. -/
def entry_length (config : ValueConfig) (depth : Nat) (entry : List Byte × List Byte) : Nat :=
  calculate_indent config depth + (entry.1.length + 2) + (chars config.delimiter).length + entry.2.length +
    (chars config.separator).length

theorem length_members_text (config : ValueConfig) (depth : Nat) {l : List (List Byte × List Byte)} (hl : l ≠ []) :
    (members_text config depth l).length + (chars config.separator).length =
      (l.map (entry_length config depth)).sum := by
  induction l with
  | nil => exact absurd rfl hl
  | cons entry rest ih =>
    obtain ⟨key, octets⟩ := entry
    cases rest with
    | nil =>
      simp only [members_text, entry_length, map_cons, map_nil, List.sum_cons, List.sum_nil,
        isEmpty_nil, if_true, length_append, length_cons, length_nil, length_indent]
      omega
    | cons next rest =>
      have hrest := ih (by simp)
      rw [members_text]
      simp only [isEmpty_cons, Bool.false_eq_true, if_false, length_append, map_cons,
        List.sum_cons, length_cons, length_nil, length_indent] at hrest ⊢
      rw [← hrest]
      simp only [entry_length]
      omega

theorem calculate_members_eq (depth : Nat) {members : List (List Byte × Value ν)}
    (h : ∀ m ∈ members, calculate_value double config depth m.2 = (text double config depth m.2).length) :
    calculate_members double config depth members =
      ((member_texts double config depth members).map (entry_length config.object depth)).sum := by
  induction members with
  | nil => rfl
  | cons member members ih =>
    obtain ⟨key, value⟩ := member
    have hrest := ih fun m hm => h m (mem_cons_of_mem _ hm)
    have hvalue := h (key, value) (by simp)
    have hline : (if config.object.depth && value.is_filled then 1 else 0) =
        (if config.object.depth && value.is_filled then [(10 : Byte)] else []).length := by
      split <;> rfl
    simp only [calculate_members, member_texts, map_cons, List.sum_cons, entry_length,
      length_append, hrest, hvalue, ← hline]
    omega

theorem calculate_value_eq (value : Value ν) (depth : Nat) :
    calculate_value double config depth value = (text double config depth value).length := by
  induction value using Value.inner_induction generalizing depth with
  | null | true_ | false_ =>
    simp only [calculate_value, calculate_item, text, item_text, length_append]
    omega
  | number value =>
    simp only [calculate_value, calculate_item, text, item_text, length_append]
    omega
  | string content =>
    simp only [calculate_value, calculate_item, text, item_text, length_append]
    omega
  | array items ih =>
    cases items with
    | nil => rfl
    | cons item items =>
      have hitems := length_items_text (depth + 1) fun other hother => ih other hother (depth + 1)
      simp only [calculate_value, text, length_append, length_indent, hitems]
      omega
  | object members ih =>
    cases members with
    | nil => rfl
    | cons member members =>
      have hmembers := calculate_members_eq (depth + 1) fun m hm => ih m hm (depth + 1)
      have hperm := collocate_object_keys_perm (member_texts double config (depth + 1) (member :: members))
      have hnil : collocate_object_keys (member_texts double config (depth + 1) (member :: members)) ≠ [] := by
        intro hnil
        rw [hnil] at hperm
        exact absurd hperm.length_eq (by simp [member_texts])
      have hsum := length_members_text config.object (depth + 1) hnil
      rw [(hperm.map (entry_length config.object (depth + 1))).sum_nat, ← hmembers] at hsum
      simp only [calculate_value, text, length_append, length_indent]
      omega

end calculate

theorem value_to_string_eq {config : StringifyConfig} (plain : Plain config) {double : Double ν}
    {numbers : ν → Prop} (hnumbers : ∀ value, numbers value → 0 < (number_fill_string double value).length)
    {value : Value ν} (h : value.Built numbers) :
    value_to_string_with_config double config value = some (text double config 0 value) := by
  have hvalid : stringify_config_validate config = true := by
    obtain ⟨_, harray, -⟩ := plain.array_intro
    obtain ⟨_, harrayseparator, -⟩ := plain.array_separator
    obtain ⟨_, hobject, -⟩ := plain.object_intro
    obtain ⟨_, hobjectseparator, -⟩ := plain.object_separator
    simp [stringify_config_validate, plain.string, plain.array_outro, plain.object_outro,
      plain.object_delimiter, harray, harrayseparator, hobject, hobjectseparator]
  have hpos := text_length_pos plain hnumbers h 0
  have hencode := value_encode_eq plain hnumbers h { size := (text double config 0 value).length } (Nat.le_refl _)
  rw [value_to_string_with_config, parser_calculate, if_pos hvalid, calculate_value_eq, plain.intro, plain.outro,
    bind_some]
  simp only [chars, getD_none, length_nil, Nat.add_zero]
  rw [parser_encode, if_neg (by omega), plain.intro]
  simp only [isSome_none, Bool.false_and, Bool.false_eq_true, if_false, write_if_not_null, chars,
    getD_none, length_nil, Nat.not_lt_zero, List.append_nil, Nat.sub_zero, bind_some,
    plain.outro, map_some]
  rw [hencode]
  simp [EncodingParameter.write]

end openvocs.json
