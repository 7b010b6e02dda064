import Openvocs.Lib.Checked
import Openvocs.Value.Stream

namespace openvocs.value.pointer

/-- What a parser comes to, with the place of the remainder. -/
inductive Located (α : Type) where
  | found (v : α) (remainder : Nat)
  | premature
  | error

inductive Head where
  | closed (p : Nat)
  | entry (p len : Nat)
  | premature
  | error

/-- The parsers that call each other. The loops keep where the list or the object begins,
    with how many octets, the place they look at, and how many octets they take to be left. -/
inductive Mode where
  | token (p len : Nat)
  | list (start len p left : Nat) (items : List Value)
  | object (start len p left : Nat) (pairs : List (List Byte × Value))

section

-- the input
variable (m : List Byte)

def skip_chars : Nat → Nat → Option Nat
  | p, 0 => some p
  | p, len + 1 => (checked.get m p).bind fun c => if is_separator c then skip_chars (p + 1) len else some p

/-- What is left at a place of the octets that begin at `start`. -/
def left (start len p : Nat) : Option Nat := (checked.sub p start).bind (checked.sub len)

def parse_word (word : List Byte) (v : Value) (p len : Nat) : Option (Located Value) :=
  if len < word.length then some .error
  else (checked.slice m p word.length).map fun s => if s = word then .found v (p + word.length) else .error

def string_loop : Bool → List Byte → Nat → Nat → Option (Located Value)
  | _, _, _, 0 => some .premature
  | escaped, copied, p, len + 1 => (checked.get m p).bind fun c =>
    if escaped then
      if c = quote ∨ c = backslash then string_loop false (copied ++ [c]) (p + 1) len else some .error
    else if c = backslash then string_loop true copied (p + 1) len
    else if c = quote then some (.found (.string (cstring.of copied)) (p + 1))
    else string_loop false (copied ++ [c]) (p + 1) len

def parse_string (p len : Nat) : Option (Located Value) :=
  if len < 2 then some .premature else string_loop m false [] (p + 1) (len - 1)

/-- The number is read from a copy of all octets that are left. -/
def parse_number (p len : Nat) : Option (Located Value) :=
  if len < 2 then some .premature
  else (checked.slice m p len).map fun s => .found (.number (s.take (cstring.strtod s))) (p + cstring.strtod s)

def loop_head (close : Byte) (require_comma : Bool) (start len p l : Nat) : Option Head :=
  (skip_chars m p l).bind fun p => (left start len p).bind fun l =>
    if l = 0 then some .premature
    else (checked.get m p).bind fun c =>
      if c = close then some (.closed (p + 1))
      else if require_comma then
        if c ≠ comma then some .error
        else if l - 1 = 0 then some .premature else some (.entry (p + 1) (l - 1))
      else some (.entry p l)

def chain {α β : Type} (first : Option (Located α)) (next : α → Nat → Option (Located β)) : Option (Located β) :=
  match first with
  | none => none
  | some .premature => some .premature
  | some .error => some .error
  | some (.found v p) => next v p

-- the parser that is called for what is inside
variable (inner : Mode → Option (Located Value))

def call (p len : Nat) : ParseFunc → Option (Located Value)
  | .null => parse_word m [110, 117, 108, 108] .null p len
  | .true_ => parse_word m [116, 114, 117, 101] .true_ p len
  | .false_ => parse_word m [102, 97, 108, 115, 101] .false_ p len
  | .string => parse_string m p len
  | .number => parse_number m p len
  | .list => if len < 2 then some .premature else inner (.list p len (p + 1) (len - 1) [])
  | .object => if len < 2 then some .premature else inner (.object p len (p + 1) (len - 1) [])

def parse_next_token (p len : Nat) : Option (Located Value) :=
  (skip_chars m p len).bind fun q => (left p len q).bind fun new_len =>
    if new_len = 0 then some .premature
    else (checked.get m q).bind fun c =>
      match get_parse_func_for c with
      | none => some .error
      | some func => call m inner q new_len func

def parse_list (start len p l : Nat) (items : List Value) : Option (Located Value) :=
  if l = 0 then some (.found (.list items) p)
  else (loop_head m close_list (!items.isEmpty) start len p l).bind fun head =>
    match head with
    | .premature => some .premature
    | .error => some .error
    | .closed p => some (.found (.list items) p)
    | .entry p l =>
      chain (inner (.token p l)) fun item p =>
        (left start len p).bind fun l => inner (.list start len p l (items ++ [item]))

def parse_kv_pair (p len : Nat) (next : List Byte → Value → Nat → Option (Located Value)) : Option (Located Value) :=
  if len < 2 then some .premature
  else
    chain (inner (.token p len)) fun key q =>
      match key with
      | .string key =>
        (left p len q).bind fun rem_len => (skip_chars m q rem_len).bind fun q => (left p len q).bind fun rem_len =>
          if rem_len = 0 then some .premature
          else (checked.get m q).bind fun c =>
            if c ≠ colon then some .error else chain (inner (.token (q + 1) (rem_len - 1))) (next key)
      | _ => some .error

def parse_object (start len p l : Nat) (pairs : List (List Byte × Value)) : Option (Located Value) :=
  if l = 0 then some .premature
  else (loop_head m close_object (!pairs.isEmpty) start len p l).bind fun head =>
    match head with
    | .premature => some .premature
    | .error => some .error
    | .closed p => some (.found (.object pairs) p)
    | .entry p l =>
      parse_kv_pair m inner p l fun key v p =>
        if key ∈ pairs.map Prod.fst then some .error
        else (left start len p).bind fun l => inner (.object start len p l (pairs ++ [(key, v)]))

end

/-- All parsers together, with a bound on how deep they call each other. -/
def parse (m : List Byte) : Nat → Mode → Option (Located Value)
  | 0, _ => none
  | depth + 1, .token p len => parse_next_token m (parse m depth) p len
  | depth + 1, .list start len p l items => parse_list m (parse m depth) start len p l items
  | depth + 1, .object start len p l pairs => parse_object m (parse m depth) start len p l pairs

/-- `ov_value_parse` of some octets of the input. -/
def ov_value_parse (m : List Byte) (p len : Nat) : Option (Located Value) :=
  if len = 0 then some .premature else parse m (2 * len + 2) (.token p len)

/-- A value that was handed on, and the places where its parser started and stopped. -/
structure Consumed where
  item : Value
  start : Nat
  stop : Nat

def stream_loop (m : List Byte) : Nat → Nat → Nat → Option (List Consumed × Option Nat)
  | 0, _, _ => none
  | rounds + 1, p, len =>
    match ov_value_parse m p len with
    | none => none
    | some .error => some ([], none)
    | some .premature => some ([], some p)
    | some (.found v q) =>
      (left 0 m.length q).bind fun len =>
        (stream_loop m rounds q len).map fun (values, remainder) => (⟨v, p, q⟩ :: values, remainder)

/-- `ov_value_parse_stream`. There is no result if it did not end within the rounds, or if
    it read outside of the input. -/
def ov_value_parse_stream (rounds : Nat) (m : List Byte) : Option (List Consumed × Option Nat) :=
  if m = [] then some ([], none) else stream_loop m rounds 0 m.length

end openvocs.value.pointer
