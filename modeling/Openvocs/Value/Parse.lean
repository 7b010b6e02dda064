import Openvocs.Lib.Strtod

namespace openvocs.value

/-- `ov_value`. A number is the text that it is read from. -/
inductive Value where
  | null
  | true_
  | false_
  | string (s : List Byte)
  | number (s : List Byte)
  | list (items : List Value)
  | object (pairs : List (List Byte × Value))

inductive Outcome (α : Type) where
  | found (v : α) (rest : List Byte)
  | premature
  | error

/-- `SEPARATOR_CHARS`. The zero behind the string is found, too. -/
def is_separator (c : Byte) : Bool := c = 32 || c = 13 || c = 10 || c = 9 || c = 0

def skip_chars (s : List Byte) : List Byte := s.dropWhile is_separator

def comma : Byte := 44
def colon : Byte := 58
def quote : Byte := 34
def backslash : Byte := 92
def open_list : Byte := 91
def close_list : Byte := 93
def open_object : Byte := 123
def close_object : Byte := 125

/-- The parser of a fixed word. The premature end is overwritten by an error. -/
def parse_word (word : List Byte) (v : Value) (s : List Byte) : Outcome Value :=
  if s.take word.length = word then .found v (s.drop word.length) else .error

def parse_null : List Byte → Outcome Value := parse_word [110, 117, 108, 108] .null
def parse_true : List Byte → Outcome Value := parse_word [116, 114, 117, 101] .true_
def parse_false : List Byte → Outcome Value := parse_word [102, 97, 108, 115, 101] .false_

/-- The loop in `parse_string`, with the characters that are copied. -/
def string_rest : Bool → List Byte → List Byte → Outcome Value
  | _, _, [] => .premature
  | true, copied, c :: s =>
    if c = quote ∨ c = backslash then string_rest false (copied ++ [c]) s else .error
  | false, copied, c :: s =>
    if c = backslash then string_rest true copied s
    else if c = quote then .found (.string (cstring.of copied)) s
    else string_rest false (copied ++ [c]) s

def parse_string (s : List Byte) : Outcome Value :=
  if s.length < 2 then .premature else string_rest false [] s.tail

/-- `parse_number`. All that is left is taken for the number. -/
def parse_number (s : List Byte) : Outcome Value :=
  if s.length < 2 then .premature else .found (.number (s.take (cstring.strtod s))) (s.drop (cstring.strtod s))

/-- The parsers that call each other: the one for any value, and the loops of a list and of
    an object, with what they have collected. -/
inductive Mode where
  | token
  | list (items : List Value)
  | object (pairs : List (List Byte × Value))

/-- What the loop of a list or an object finds in front of the next entry. -/
inductive Head where
  | closed (rest : List Byte)
  | entry (s : List Byte)
  | premature
  | error

/-- The begin of a round of the loop in `parse_list` and `parse_object`. -/
def loop_head (close : Byte) (require_comma : Bool) (s : List Byte) : Head :=
  match skip_chars s with
  | [] => .premature
  | c :: rest =>
    if c = close then .closed rest
    else if require_comma then
      if c ≠ comma then .error else if rest = [] then .premature else .entry rest
    else .entry (c :: rest)

inductive ParseFunc where
  | null
  | true_
  | false_
  | string
  | number
  | list
  | object
deriving DecidableEq

/-- A digit, a point or a sign. -/
def begins_number (c : Byte) : Bool := cstring.is_digit c || c = 46 || c = 45 || c = 43

def get_parse_func_for (c : Byte) : Option ParseFunc :=
  if c = 110 then some .null
  else if c = 116 then some .true_
  else if c = 102 then some .false_
  else if c = quote then some .string
  else if begins_number c then some .number
  else if c = open_list then some .list
  else if c = open_object then some .object
  else none

/-- A parser that goes on with the value and the rest of another one. -/
def chain {α β : Type} (first : Option (Outcome α)) (next : α → List Byte → Option (Outcome β)) : Option (Outcome β) :=
  match first with
  | none => none
  | some .premature => some .premature
  | some .error => some .error
  | some (.found v rest) => next v rest

section

-- the parser that is called for what is inside; `none` if it was called too often
variable (inner : Mode → List Byte → Option (Outcome Value))

/-- The call of the function for a token. A list and an object need two octets. -/
def call (s : List Byte) : ParseFunc → Option (Outcome Value)
  | .null => some (parse_null s)
  | .true_ => some (parse_true s)
  | .false_ => some (parse_false s)
  | .string => some (parse_string s)
  | .number => some (parse_number s)
  | .list => if s.tail = [] then some .premature else inner (.list []) s.tail
  | .object => if s.tail = [] then some .premature else inner (.object []) s.tail

def parse_next_token (s : List Byte) : Option (Outcome Value) :=
  match skip_chars s with
  | [] => some .premature
  | c :: rest =>
    match get_parse_func_for c with
    | none => some .error
    | some func => call inner (c :: rest) func

/-- The loop in `parse_list`. It also ends where the input ends. -/
def parse_list (items : List Value) (s : List Byte) : Option (Outcome Value) :=
  if s = [] then some (.found (.list items) [])
  else
    match loop_head close_list (!items.isEmpty) s with
    | .premature => some .premature
    | .error => some .error
    | .closed rest => some (.found (.list items) rest)
    | .entry s => chain (inner .token s) fun item rest => inner (.list (items ++ [item])) rest

/-- `parse_kv_pair`, with what is done with the pair. -/
def parse_kv_pair (s : List Byte) (next : List Byte → Value → List Byte → Option (Outcome Value)) :
    Option (Outcome Value) :=
  if s.length < 2 then some .premature
  else
    chain (inner .token s) fun key rest =>
      match key with
      | .string key =>
        match skip_chars rest with
        | [] => some .premature
        | c :: rest => if c ≠ colon then some .error else chain (inner .token rest) (next key)
      | _ => some .error

/-- The loop in `parse_object`. A key must not be there already. -/
def parse_object (pairs : List (List Byte × Value)) (s : List Byte) : Option (Outcome Value) :=
  if s = [] then some .premature
  else
    match loop_head close_object (!pairs.isEmpty) s with
    | .premature => some .premature
    | .error => some .error
    | .closed rest => some (.found (.object pairs) rest)
    | .entry s =>
      parse_kv_pair inner s fun key v rest =>
        if key ∈ pairs.map Prod.fst then some .error else inner (.object (pairs ++ [(key, v)])) rest

end

/-- All parsers together, with a bound on how deep they call each other. -/
def parse : Nat → Mode → List Byte → Option (Outcome Value)
  | 0, _, _ => none
  | depth + 1, .token, s => parse_next_token (parse depth) s
  | depth + 1, .list items, s => parse_list (parse depth) items s
  | depth + 1, .object pairs, s => parse_object (parse depth) pairs s

/-- `ov_value_parse`. A premature end leaves the remainder where the input starts, an error
    leaves none. -/
def ov_value_parse (s : List Byte) : Option (Outcome Value) := parse (2 * s.length + 2) .token s

end openvocs.value
