import Mathlib.Data.List.Perm.Basic
import Openvocs.Json.Parser

namespace openvocs.json

variable {ν : Type} (double : Double ν)

/-- The part of `ov_json_value_config` that is read. A missing text is a null pointer. -/
structure ValueConfig where
  intro : Option (List Byte) := none
  out : Option (List Byte) := none
  outro : Option (List Byte) := none
  separator : Option (List Byte) := none
  delimiter : Option (List Byte) := none
  depth : Bool := false
  indent : Option (List Byte) := none

structure StringifyConfig where
  intro : Option (List Byte) := none
  literal : ValueConfig := {}
  number : ValueConfig := {}
  string : ValueConfig := {}
  array : ValueConfig := {}
  object : ValueConfig := {}
  outro : Option (List Byte) := none

def config_stringify_minimal : StringifyConfig where
  string := { intro := some [quote], outro := some [quote] }
  array := { intro := some [open_array], outro := some [close_array], separator := some [comma] }
  object :=
    { intro := some [open_object], outro := some [close_object], separator := some [comma]
      delimiter := some [colon] }

def config_stringify_default : StringifyConfig where
  string := { intro := some [quote], outro := some [quote] }
  array :=
    { intro := some [open_array, 10], out := some [10], outro := some [close_array]
      separator := some [comma, 10], depth := true, indent := some [9] }
  object :=
    { intro := some [open_object, 10], out := some [10], outro := some [close_object]
      separator := some [comma, 10], delimiter := some [colon], depth := true, indent := some [9] }

/-- A text of the configuration, or nothing. -/
def chars (text : Option (List Byte)) : List Byte := text.getD []

/-- The texts that `ov_json_stringify_config_validate` asks for. -/
def stringify_config_validate (config : StringifyConfig) : Bool :=
  config.string.intro.isSome && config.string.outro.isSome && config.array.intro.isSome &&
    config.array.outro.isSome && config.array.separator.isSome && config.object.intro.isSome &&
    config.object.outro.isSome && config.object.separator.isSome && config.object.delimiter.isSome

/-- An array with items or an object with members. -/
def Value.is_filled : Value ν → Bool
  | .array items => !items.isEmpty
  | .object members => !members.isEmpty
  | _ => false

/-- An integer in the format of `PRIi64`. -/
def print_integer (n : Int) : List Byte :=
  if n < 0 then 45 :: cstring.decimal n.natAbs else cstring.decimal n.natAbs

def number_fill_string (value : ν) : List Byte :=
  match double.integer value with
  | some n => print_integer n
  | none => double.general value

/-- A C string is smaller than another one. -/
def key_lt : List Byte → List Byte → Bool
  | _, [] => false
  | [], _ :: _ => true
  | a :: k, b :: s => if a.toNat < b.toNat then true else if a = b then key_lt k s else false

/-- `ov_json_parser_collocate_ascending`: a key is put in front of the first one that is larger. -/
def collocate_ascending {α : Type} (entry : List Byte × α) : List (List Byte × α) → List (List Byte × α)
  | [] => [entry]
  | other :: rest =>
    if key_lt entry.1 other.1 then entry :: other :: rest else other :: collocate_ascending entry rest

/-- `collocate_object_keys`, with what belongs to each key. -/
def collocate_object_keys {α : Type} (entries : List (List Byte × α)) : List (List Byte × α) :=
  entries.foldl (fun list entry => collocate_ascending entry list) []

/-- `json_object_calculate_indent`, and the indent of an array. -/
def calculate_indent (config : ValueConfig) (depth : Nat) : Nat :=
  if config.depth then depth * (chars config.indent).length else 0

/-- The length of a number, a string or a literal. -/
def calculate_item (config : ValueConfig) (content : List Byte) : Nat :=
  content.length + (chars config.intro).length + (chars config.outro).length

mutual

def calculate_value (config : StringifyConfig) (depth : Nat) : Value ν → Nat
  | .null => calculate_item config.literal null_word
  | .true_ => calculate_item config.literal true_word
  | .false_ => calculate_item config.literal false_word
  | .number value => calculate_item config.number (number_fill_string double value)
  | .string content => calculate_item config.string content
  | .array [] => 2
  | .array (item :: items) =>
    calculate_indent config.array depth + (chars config.array.intro).length +
      (calculate_indent config.array depth + (chars config.array.outro).length) +
      (chars config.array.out).length + calculate_items config (depth + 1) (item :: items)
  | .object [] => 2
  | .object (member :: members) =>
    calculate_indent config.object depth + (chars config.object.intro).length +
      (calculate_indent config.object depth + (chars config.object.outro).length) +
      (chars config.object.out).length + calculate_members config (depth + 1) (member :: members) -
      (chars config.object.separator).length

/-- The loop of `json_parser_calculate_array`. -/
def calculate_items (config : StringifyConfig) (depth : Nat) : List (Value ν) → Nat
  | [] => 0
  | item :: items =>
    (if item.is_filled then 0 else calculate_indent config.array depth) + calculate_value config depth item +
      (if items.isEmpty then 0 else (chars config.array.separator).length) + calculate_items config depth items

/-- `add_encoding_size` for all members. -/
def calculate_members (config : StringifyConfig) (depth : Nat) : List (List Byte × Value ν) → Nat
  | [] => 0
  | (key, value) :: members =>
    calculate_indent config.object depth + (key.length + 2) + (chars config.object.delimiter).length +
      (if config.object.depth && value.is_filled then 1 else 0) + calculate_value config depth value +
      (chars config.object.separator).length + calculate_members config depth members

end

def parser_calculate (config : StringifyConfig) (value : Value ν) : Option Nat :=
  if stringify_config_validate config then
    some (calculate_value double config 0 value + (chars config.intro).length + (chars config.outro).length)
  else none

/-- `EncodingParameter`: what has been written, what is left of the buffer, and the depth. -/
structure EncodingParameter where
  buffer : List Byte := []
  size : Nat
  depth : Nat := 0

def write_if_not_null (content : Option (List Byte)) (p : EncodingParameter) : Option EncodingParameter :=
  if p.size < (chars content).length then none
  else some { p with buffer := p.buffer ++ chars content, size := p.size - (chars content).length }

/-- The loop of `object_write_indent` and `array_write_indent`. -/
def write_indents (indent : List Byte) : Nat → EncodingParameter → Option EncodingParameter
  | 0, p => some p
  | n + 1, p => if p.size ≤ indent.length then none else (write_if_not_null indent p).bind (write_indents indent n)

/-- `object_write_indent` and `array_write_indent`. -/
def write_indent (config : ValueConfig) (p : EncodingParameter) : Option EncodingParameter :=
  match config.depth, config.indent with
  | true, some indent => if p.size < p.depth * indent.length then none else write_indents indent p.depth p
  | _, _ => some p

/-- `object_write_intro` and `array_write_intro`. -/
def write_intro (config : ValueConfig) (p : EncodingParameter) : Option EncodingParameter :=
  if config.intro.isSome then (write_indent config p).bind (write_if_not_null config.intro) else none

/-- `object_write_outro` and `array_write_outro`. -/
def write_outro (config : ValueConfig) (p : EncodingParameter) : Option EncodingParameter :=
  if config.intro.isSome && config.outro.isSome then
    (write_if_not_null config.out p).bind fun p =>
      (write_indent config p).bind (write_if_not_null config.outro)
  else none

/-- `json_number_encode` and `json_literal_encode`, for which the buffer must have room for the
content alone first, and the end of `json_string_encode`. -/
def item_encode (config : ValueConfig) (content : List Byte) (p : EncodingParameter) :
    Option EncodingParameter :=
  if p.size < 1 ∨ p.size < content.length then none
  else
    (write_if_not_null config.intro p).bind fun p =>
      (write_if_not_null content p).bind (write_if_not_null config.outro)

def string_is_valid (content : List Byte) : Bool := validate_string content false

def string_encode (config : ValueConfig) (content : List Byte) (p : EncodingParameter) :
    Option EncodingParameter :=
  if string_is_valid content && content.length + 2 ≤ p.size then item_encode config content p else none

/-- The last separator is taken back. -/
def unwrite (n : Nat) (p : EncodingParameter) : EncodingParameter :=
  { p with buffer := p.buffer.take (p.buffer.length - n), size := p.size + n }

/-- `object_write_entry`, with the function that writes the value. -/
def object_write_entry (config : ValueConfig) (key : List Byte) (is_filled : Bool)
    (encode : EncodingParameter → Option EncodingParameter) (p : EncodingParameter) :
    Option EncodingParameter :=
  (write_indent config p).bind fun p =>
    if p.size < key.length + 2 then none
    else
      (write_if_not_null (quote :: key ++ [quote]) p).bind fun p =>
        (write_if_not_null config.delimiter p).bind fun p =>
          if p.size < 2 then none
          else
            let p := if config.depth && is_filled then { p with buffer := p.buffer ++ [10], size := p.size - 1 } else p
            (encode p).bind (write_if_not_null config.separator)

/-- The entries of an object, one after the other. -/
def object_write_ordered (config : ValueConfig) :
    List (List Byte × Bool × (EncodingParameter → Option EncodingParameter)) → EncodingParameter →
      Option EncodingParameter
  | [], p => some p
  | (key, is_filled, encode) :: entries, p =>
    (object_write_entry config key is_filled encode p).bind (object_write_ordered config entries)

mutual

def value_encode (config : StringifyConfig) : Value ν → EncodingParameter → Option EncodingParameter
  | .null => item_encode config.literal null_word
  | .true_ => item_encode config.literal true_word
  | .false_ => item_encode config.literal false_word
  | .number value => item_encode config.number (number_fill_string double value)
  | .string content => string_encode config.string content
  | .array [] => fun p =>
    if p.size < 1 then none
    else some { p with buffer := p.buffer ++ [open_array, close_array], size := p.size - 2 }
  | .array (item :: items) => fun p =>
    (write_intro config.array p).bind fun p =>
      (items_encode config (item :: items) { p with depth := p.depth + 1 }).bind fun p =>
        write_outro config.array { p with depth := p.depth - 1 }
  | .object [] => fun p =>
    if p.size < 2 then none
    else some { p with buffer := p.buffer ++ [open_object, close_object], size := p.size - 2 }
  | .object (member :: members) => fun p =>
    (write_intro config.object p).bind fun p =>
      (object_write_ordered config.object (collocate_object_keys (member_entries config (member :: members)))
        { p with depth := p.depth + 1 }).bind fun p =>
          write_outro config.object (unwrite (chars config.object.separator).length { p with depth := p.depth - 1 })

/-- The loop of `json_array_encode`. -/
def items_encode (config : StringifyConfig) : List (Value ν) → EncodingParameter → Option EncodingParameter
  | [], p => some p
  | item :: items, p =>
    (if item.is_filled then some p else write_indent config.array p).bind fun p =>
      (value_encode config item p).bind fun p =>
        if items.isEmpty then some p
        else (write_if_not_null config.array.separator p).bind (items_encode config items)

/-- The members of an object, each with the function that writes its value. -/
def member_entries (config : StringifyConfig) :
    List (List Byte × Value ν) →
      List (List Byte × Bool × (EncodingParameter → Option EncodingParameter))
  | [] => []
  | (key, value) :: members =>
    (key, value.is_filled, value_encode config value) :: member_entries config members

end

def parser_encode (config : StringifyConfig) (value : Value ν) (size : Nat) : Option (List Byte) :=
  if size < 1 then none
  else if config.intro.isSome && size ≤ (chars config.intro).length then none
  else
    (write_if_not_null config.intro { size := size }).bind fun p =>
      (value_encode double config value p).bind fun p =>
        (write_if_not_null config.outro p).map fun p => p.buffer

def value_to_string_with_config (config : StringifyConfig) (value : Value ν) : Option (List Byte) :=
  (parser_calculate double config value).bind (parser_encode double config value)

end openvocs.json
