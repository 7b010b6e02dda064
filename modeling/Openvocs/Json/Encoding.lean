import Openvocs.Json.Stringify
import Openvocs.Lib.Writer

namespace openvocs.json.encoding

open writer

variable {ν : Type} (double : Double ν)

abbrev Key : Type := List Byte

/-- A function like `ov_json_parser_collocate_ascending`: it puts a key somewhere in a list. -/
structure KeyOrder where
  place : Key → List Key → List Key
  places : ∀ key list, (place key list).Perm (key :: list)

def write_if_not_null : Option (List Byte) → Step
  | none => skip
  | some octets => write octets

/-- The loop of `object_write_indent` and `array_write_indent`. -/
def write_indents (indent : List Byte) : Nat → Step
  | 0 => skip
  | n + 1 => need (indent.length + 1) (and_then (force indent) (write_indents indent n))

/-- `object_write_indent` and `array_write_indent`. -/
def write_indent (config : ValueConfig) (depth : Nat) : Step :=
  match config.depth, config.indent with
  | true, some indent => need (depth * indent.length) (write_indents indent depth)
  | _, _ => skip

/-- `object_write_intro` and `array_write_intro`. -/
def write_intro (config : ValueConfig) (depth : Nat) : Step :=
  if config.intro.isSome then and_then (write_indent config depth) (write_if_not_null config.intro) else refuse

/-- `object_write_outro` and `array_write_outro`. -/
def write_outro (config : ValueConfig) (depth : Nat) : Step :=
  if config.intro.isSome && config.outro.isSome then
    and_then (write_if_not_null config.out)
      (and_then (write_indent config depth) (write_if_not_null config.outro))
  else refuse

/-- The three texts of a literal, a number or a string. -/
def item_encode (config : ValueConfig) (content : List Byte) : Step :=
  and_then (write_if_not_null config.intro) (and_then (write content) (write_if_not_null config.outro))

def literal_encode (config : ValueConfig) (word : List Byte) : Step := need 4 (item_encode config word)

def number_encode (config : ValueConfig) (content : List Byte) : Step :=
  need 1 (if content = [] then refuse else need content.length (item_encode config content))

def string_encode (config : ValueConfig) (content : List Byte) : Step :=
  need 1 (if string_is_valid content then need (content.length + 2) (item_encode config content) else refuse)

/-- The call of `json_value_encode` for what is inside. It has to write something. -/
def some_encoded (encode : Step) : Step := fun b =>
  (encode b).bind fun b' => if b'.text.length < b.text.length + 1 then .error b' else .ok b'

/-- `object_write_entry`, with the function that writes the value. -/
def object_write_entry (config : ValueConfig) (depth : Nat) (key : Key) (is_filled : Bool) (encode : Step) : Step :=
  and_then (write_indent config depth) <|
    need (key.length + 2) <|
      and_then (force (quote :: key ++ [quote])) <|
        and_then (write_if_not_null config.delimiter) <|
          need 2 <|
            and_then (if config.depth && is_filled then force [10] else skip) <|
              and_then (some_encoded encode) (write_if_not_null config.separator)

/-- `ov_list_for_each` with `object_write_ordered`, or `ov_json_object_for_each` with
    `object_write_entry`. It fails at a key that is not found. -/
def object_write_ordered (config : ValueConfig) (depth : Nat) : List (Key × Option (Bool × Step)) → Step
  | [] => skip
  | (_, none) :: _ => refuse
  | (key, some (is_filled, encode)) :: entries =>
    and_then (object_write_entry config depth key is_filled encode) (object_write_ordered config depth entries)

/-- `collocate_object_keys`, with what is found under each key. -/
def ordered {α : Type} (order : Option KeyOrder) (entries : List (Key × α)) : List (Key × Option α) :=
  match order with
  | none => entries.map fun entry => (entry.1, some entry.2)
  | some order =>
    ((entries.map Prod.fst).foldl (fun list key => order.place key list) []).map fun key => (key, entries.lookup key)

mutual

def value_encode (order : Option KeyOrder) (config : StringifyConfig) (depth : Nat) : Value ν → Step
  | .null => literal_encode config.literal null_word
  | .true_ => literal_encode config.literal true_word
  | .false_ => literal_encode config.literal false_word
  | .number value => number_encode config.number (number_fill_string double value)
  | .string content => string_encode config.string content
  -- an empty array is written without a look at what is left
  | .array [] => need 1 (force [open_array, close_array])
  | .array (item :: items) =>
    need 1 <| and_then (write_intro config.array depth) <|
      and_then (items_encode order config (depth + 1) (item :: items)) (write_outro config.array depth)
  | .object [] => need 1 (need 2 (force [open_object, close_object]))
  | .object (member :: members) =>
    need 1 <| and_then (write_intro config.object depth) <|
      and_then (object_write_ordered config.object (depth + 1)
        (ordered order (member_entries order config (depth + 1) (member :: members)))) <|
        and_then (back (chars config.object.separator).length) (write_outro config.object depth)

/-- The loop of `json_array_encode`. -/
def items_encode (order : Option KeyOrder) (config : StringifyConfig) (depth : Nat) : List (Value ν) → Step
  | [] => skip
  | item :: items =>
    and_then (if item.is_filled then skip else write_indent config.array depth) <|
      and_then (some_encoded (value_encode order config depth item)) <|
        and_then (if items.isEmpty then skip else write_if_not_null config.array.separator)
          (items_encode order config depth items)

/-- The members of an object, each with the function that writes its value. -/
def member_entries (order : Option KeyOrder) (config : StringifyConfig) (depth : Nat) :
    List (Key × Value ν) → List (Key × (Bool × Step))
  | [] => []
  | (key, value) :: members =>
    (key, (value.is_filled, value_encode order config depth value)) :: member_entries order config depth members

end

/-- `ov_json_parser_encode`, for a buffer of some size. What it returns is the length of the
    text that is written. -/
def parser_encode (order : Option KeyOrder) (config : StringifyConfig) (value : Value ν) (size : Nat) : Step :=
  need 1 <| and_then (match config.intro with
    | none => skip
    | some intro => need (intro.length + 1) (force intro)) <|
    and_then (value_encode double order config 0 value) <|
      match config.outro with
      | none => skip
      | some outro => fun b => if size - b.text.length < outro.length then .error b else .ok (b.put outro)

end openvocs.json.encoding
