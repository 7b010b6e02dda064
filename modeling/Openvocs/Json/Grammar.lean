import Openvocs.Base.Utf8
import Openvocs.Lib.CString

/-!
A pointer into a buffer is the list of the octets from there on, with whatever comes behind the
buffer in memory. A size of type `size_t` that is reduced below zero is kept as the negative number;
it is then larger than any buffer.
-/

namespace openvocs.json

def quote : Byte := 34
def comma : Byte := 44
def colon : Byte := 58
def open_array : Byte := 91
def backslash : Byte := 92
def close_array : Byte := 93
def open_object : Byte := 123
def close_object : Byte := 125

/-- A value of type `size_t` is larger than a number. -/
def exceeds (n : Nat) (size : Int) : Bool := n < size || size < 0

/-- How far a pointer is behind another one. -/
def offset (buffer ptr : List Byte) : Nat := buffer.length - ptr.length

theorem offset_append (a b : List Byte) : offset (a ++ b) b = a.length := by simp [offset]

def is_whitespace (c : Byte) : Bool := c = 32 || c = 9 || c = 10 || c = 13

theorem forall_whitespace {P : Byte → Prop} (hspace : P 32) (htab : P 9) (hfeed : P 10) (hreturn : P 13) :
    ∀ c : Byte, is_whitespace c = true → P c := by
  intro c hc
  simp only [is_whitespace, Bool.or_eq_true, decide_eq_true_eq] at hc
  obtain ((rfl | rfl) | rfl) | rfl := hc
  · exact hspace
  · exact htab
  · exact hfeed
  · exact hreturn

theorem not_whitespace_of_class {p : Byte → Bool} (hspace : p 32 = false) (htab : p 9 = false) (hfeed : p 10 = false)
    (hreturn : p 13 = false) {c : Byte} (hc : p c = true) : is_whitespace c = false := by
  rw [Bool.eq_false_iff]
  intro hwhitespace
  have hnot : p c = false := forall_whitespace (P := fun c => p c = false) hspace htab hfeed hreturn c hwhitespace
  rw [hc] at hnot
  cases hnot

/-- `ov_json_clear_whitespace`, which takes the size for a signed number. -/
def clear_whitespace : List Byte → Int → List Byte × Int
  | [], size => ([], size)
  | c :: s, size =>
    if size < 1 then (c :: s, size)
    else if is_whitespace c then clear_whitespace s (size - 1)
    else (c :: s, size)

/-- An octet that may stand behind a backslash. -/
def is_escape (c : Byte) : Bool :=
  c = 34 || c = 92 || c = 47 || c = 98 || c = 102 || c = 110 || c = 114 || c = 116

/-- The loop of `ov_json_validate_string`. -/
def is_content : List Byte → Bool
  | [] => true
  | c :: s =>
    if c = backslash then
      match s with
      | [] => false
      | e :: s =>
        if is_escape e then is_content s
        else if e = 117 then
          match s with
          | _ :: _ :: _ :: _ :: s => is_content s
          | _ => false
        else false
    else if c.toNat < 0x1F then false
    else if c = quote then false
    else is_content s

def validate_string (s : List Byte) (quotes : Bool) : Bool :=
  utf8.validate_sequence s &&
    if quotes then
      2 ≤ s.length && s.head? = some quote && s.getLast? = some quote && is_content s.tail.dropLast
    else is_content s

/-- The white space in front of a token. -/
def skip_whitespace : List Byte → Int → Option (List Byte × Int)
  | [], _ => none
  | c :: s, size =>
    if is_whitespace c then
      if exceeds 0 size then skip_whitespace s (size - 1) else none
    else some (c :: s, size)

/-- The search for the closing quote: how many octets stand in front of it. The last octet of
the buffer is taken for it whatever stands before. -/
def find_quote : Byte → Int → List Byte → Option Nat
  | _, _, [] => none
  | prev, size, c :: s =>
    if exceeds 1 size then
      if c = quote ∧ prev ≠ backslash then some 0 else (find_quote c (size - 1) s).map (· + 1)
    else if c = quote then some 0
    else none

/-- `ov_json_match_string`: where the content starts, and how long it is. -/
def match_string (s : List Byte) (size : Int) : Option (List Byte × Nat) :=
  if exceeds 1 size then
    match skip_whitespace s size with
    | some (c :: s, size) =>
      if exceeds 1 size && c = quote then
        match find_quote c (size - 1) s with
        | some length =>
          if length = 0 then none
          else if validate_string (s.take length) false then some (s, length)
          else none
        | none => none
      else none
    | _ => none
  else none

/-- The search for the closing bracket: how many octets stand in front of it. -/
def find_close (opening closing : Byte) : Nat → Int → List Byte → Option Nat
  | _, _, [] => none
  | child_open, size, c :: s =>
    if exceeds 1 size then
      if c = opening then (find_close opening closing (child_open + 1) (size - 1) s).map (· + 1)
      else if c = closing then
        if child_open = 0 then some 0
        else (find_close opening closing (child_open - 1) (size - 1) s).map (· + 1)
      else (find_close opening closing child_open (size - 1) s).map (· + 1)
    else if c = closing ∧ child_open = 0 then some 0
    else none

/-- `ov_json_match_array` and `ov_json_match_object`, which differ in the brackets. -/
def match_brackets (opening closing : Byte) (s : List Byte) (size : Int) : Option (List Byte × Nat) :=
  if exceeds 1 size then
    match skip_whitespace s size with
    | some (c :: s, size) =>
      if c = opening then
        (find_close opening closing 0 (size - 1) s).map fun length => (s, length)
      else none
    | _ => none
  else none

def match_array : List Byte → Int → Option (List Byte × Nat) := match_brackets open_array close_array

def match_object : List Byte → Int → Option (List Byte × Nat) := match_brackets open_object close_object

end openvocs.json
