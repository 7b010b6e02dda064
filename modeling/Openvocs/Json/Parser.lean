import Openvocs.Json.Grammar
import Openvocs.Lib.Strtod

namespace openvocs.json

/-- A JSON value. The numbers are those of the type `double`. A string is kept as it stands
between its quotes, with all its escapes. -/
inductive Value (ν : Type) where
  | null
  | true_
  | false_
  | number (value : ν)
  | string (content : List Byte)
  | array (items : List (Value ν))
  | object (members : List (List Byte × Value ν))

theorem Value.inner_induction {ν : Type} {P : Value ν → Prop} (null : P .null) (true_ : P .true_)
    (false_ : P .false_) (number : ∀ value, P (.number value)) (string : ∀ content, P (.string content))
    (array : ∀ items, (∀ item ∈ items, P item) → P (.array items))
    (object : ∀ members, (∀ member ∈ members, P member.2) → P (.object members)) : ∀ value, P value
  | .null => null
  | .true_ => true_
  | .false_ => false_
  | .number value => number value
  | .string content => string content
  | .array items => array items fun item hitem => by
    have hsize := List.sizeOf_lt_of_mem hitem
    exact Value.inner_induction null true_ false_ number string array object item
  | .object members => object members fun member hmember => by
    have hsize := List.sizeOf_lt_of_mem hmember
    have hvalue : sizeOf member.2 < sizeOf member := by
      cases member
      simp
    exact Value.inner_induction null true_ false_ number string array object member.2
termination_by value => sizeOf value

/-- What the parser uses of the type `double`: whether a number is an integer, its text in the
format `%.15g`, and the number `strtod` makes of a numeral, if that does not set `errno`. -/
structure Double (ν : Type) where
  integer : ν → Option Int
  general : ν → List Byte
  strtod : List Byte → Option ν

variable {ν : Type} (double : Double ν)

/-- The call of `ov_json_parser_decode` for what is inside. -/
abbrev Decode (ν : Type) := List Byte → Int → Option (Value ν × Nat)

def string_decode (buffer : List Byte) (size : Int) : Option (Value ν × Nat) :=
  match match_string buffer size with
  | some (start, length) => some (.string (cstring.of (start.take length)), length + 2)
  | none => none

/-- An octet that a number may begin with. -/
def begins_number (c : Byte) : Bool := c = 45 || cstring.is_digit c

/-- An octet that may stand behind a number. -/
def ends_number (c : Byte) : Bool := c = comma || c = close_array || c = close_object || is_whitespace c

def number_decode (buffer : List Byte) (size : Int) : Option (Value ν × Nat) :=
  let length := cstring.strtod buffer
  if !exceeds 1 size || length = 0 || (0 ≤ size && size < length) then none
  else
    match double.strtod (buffer.take length), buffer.drop length with
    | some number, c :: _ =>
      if c = 32 ∧ (buffer.take length).getLast?.all cstring.is_digit = false then none
      else if ends_number c then some (.number number, length)
      else none
    | _, _ => none

/-- One literal of `json_literal_decode`. -/
def word_decode (word : List Byte) (value : Value ν) (buffer : List Byte) (size : Int) :
    Option (Value ν × Nat) :=
  if exceeds (word.length - 1) size && buffer.take word.length = word then some (value, word.length)
  else none

def null_word : List Byte := [110, 117, 108, 108]
def true_word : List Byte := [116, 114, 117, 101]
def false_word : List Byte := [102, 97, 108, 115, 101]

section

-- the call for what is inside
variable (decode : Decode ν)

/-- The loop of `json_array_decode`, with a bound on its rounds. -/
def array_items : Nat → List (Value ν) → List Byte → Int → Option (List (Value ν))
  | 0, _, _, _ => none
  | rounds + 1, items, content, content_size =>
    if exceeds 1 content_size then
      match decode content content_size with
      | none => none
      | some (child, length) =>
        let (content, content_size) := clear_whitespace (content.drop length) (content_size - length)
        if content_size = 1 then some (items ++ [child])
        else
          match content with
          | [] => none
          | c :: content =>
            if c = comma then
              let (content, content_size) := clear_whitespace content (content_size - 1)
              array_items rounds (items ++ [child]) content content_size
            else none
    else some items

def array_decode (buffer : List Byte) (size : Int) : Option (Value ν × Nat) :=
  match match_array buffer size with
  | none => none
  | some (start, length) =>
    let (content, content_size) := clear_whitespace start (length + 1)
    match array_items decode buffer.length [] content content_size with
    | none => none
    | some items => some (.array items, offset buffer start + length + 1)

/-- One round of the loop of `json_object_decode` up to the value: the key, and where the value
starts. The size is reduced by the octets in front of the closing quote of the key, and the
pointer is moved behind that quote. -/
def object_key (keys : List (List Byte)) (content : List Byte) (content_size : Int) :
    Option (List Byte × List Byte × Int) :=
  match match_string content content_size with
  | none => none
  | some (start, length) =>
    let key := cstring.of (start.take length)
    if key ∈ keys then none
    else
      let (content, content_size) := clear_whitespace (start.drop (length + 1))
        (content_size - (offset content start + length))
      match content with
      | [] => none
      | c :: content =>
        if c = colon then
          let (content, content_size) := clear_whitespace content (content_size - 1)
          some (key, content, content_size)
        else none

/-- The loop of `json_object_decode`, with a bound on its rounds. -/
def object_members : Nat → List (List Byte × Value ν) → List Byte → Int →
    Option (List (List Byte × Value ν))
  | 0, _, _, _ => none
  | rounds + 1, members, content, content_size =>
    if exceeds 1 content_size then
      match object_key (members.map Prod.fst) content content_size with
      | none => none
      | some (key, content, content_size) =>
        match decode content content_size with
        | none => none
        | some (child, length) =>
          let (content, content_size) := clear_whitespace (content.drop length) (content_size - length)
          match content with
          | [] => none
          | c :: content =>
            if c = close_object then some (members ++ [(key, child)])
            else if c = comma then object_members rounds (members ++ [(key, child)]) content (content_size - 1)
            else none
    else if content.head? = some close_object then some members
    else none

def object_decode (buffer : List Byte) (size : Int) : Option (Value ν × Nat) :=
  match match_object buffer size with
  | none => none
  | some (start, length) =>
    let (content, content_size) := clear_whitespace start (length + 1)
    match object_members decode buffer.length [] content content_size with
    | none => none
    | some members => some (.object members, offset buffer start + length + 1)

/-- The call of the function for a token. -/
def token_decode (ptr : List Byte) (size : Int) : Option (Value ν × Nat) :=
  match ptr with
  | [] => none
  | c :: _ =>
    if c = open_object then object_decode decode ptr size
    else if c = open_array then array_decode decode ptr size
    else if c = quote then string_decode ptr size
    else if c = 110 then word_decode null_word .null ptr size
    else if c = 102 then word_decode false_word .false_ ptr size
    else if c = 116 then word_decode true_word .true_ ptr size
    else if begins_number c then number_decode double ptr size
    else none

/-- The body of `ov_json_parser_decode`. -/
def value_decode (buffer : List Byte) (length : Int) : Option (Value ν × Nat) :=
  if exceeds 0 length then
    let (ptr, size) := clear_whitespace buffer length
    match token_decode double decode ptr size with
    | none => none
    | some (value, len) => some (value, offset buffer ptr + len)
  else none

end

/-- `ov_json_parser_decode`, with a bound on how deep it calls itself. -/
def decode : Nat → Decode ν
  | 0 => fun _ _ => none
  | depth + 1 => value_decode double (decode depth)

/-- `ov_json_parser_decode` of the first octets of a memory that goes on behind them: the value
and the number of octets that were read. -/
def parser_decode (memory : List Byte) (length : Nat) : Option (Value ν × Nat) :=
  decode double (memory.length + 1) memory length

end openvocs.json
