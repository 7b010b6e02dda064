import Openvocs.Lib.Memory
import Openvocs.Uri.Parse

/-!
Several of the steps look at more than the octets that the reader was given, so it runs on the whole
memory.
-/

namespace openvocs.http

open memory

/-- What lies at every address. -/
abbrev Memory := Nat → Byte

def cr : Byte := 13
def lf : Byte := 10
def space : Byte := 32
def tab : Byte := 9

def crlf : List Byte := [cr, lf]

def is_separator (item : Byte) : Bool :=
  [40, 41, 60, 62, 64, 44, 59, 58, 92, 34, 47, 91, 93, 63, 61, 123, 125, 32, 9].contains item

def is_whitespace (item : Byte) : Bool := item = space || item = tab

def is_control (item : Byte) : Bool := item.toNat < 32 || item = 127

def is_token (item : Byte) : Bool := !is_control item && !is_separator item && item.toNat < 127

def is_token_string (m : Memory) (start length : Nat) : Bool :=
  length ≠ 0 && (read m start length).all is_token

/-- `http_is_linear_whitespace`, for at least three octets. -/
def is_linear_whitespace (m : Memory) (start : Nat) : Bool :=
  m start = cr && m (start + 1) = lf && is_whitespace (m (start + 2))

/-- What `http_is_text` asks of a single octet. -/
def is_text_item (item : Byte) : Bool := is_whitespace item || !is_control item

/-- `http_is_text`, for a number of octets at an address. -/
def is_text (m : Memory) : Nat → Nat → Bool
  | size + 3, ptr =>
    if is_linear_whitespace m ptr then is_text m size (ptr + 3)
    else is_text_item (m ptr) && is_text m (size + 2) (ptr + 1)
  | size + 1, ptr => is_text_item (m ptr) && is_text m size (ptr + 1)
  | 0, _ => true

def string_find (m : Memory) (delim : List Byte) : Nat → Nat → Option Nat
  | 0, _ => none
  | size + 1, source =>
    if delim.head? ≠ some (m source) then string_find m delim size (source + 1)
    else if size + 1 < delim.length then none
    else if Holds m source delim then some source
    else string_find m delim size (source + 1)

/-- A difference of two numbers of type `size_t`. -/
def minus (a b : Nat) : Nat := if b ≤ a then a - b else a + 2 ^ 64 - b

/-- `ov_http_parser_state`, with what was read. -/
inductive Parsed (α : Type) where
  | error
  | progress
  | oob
  | success (value : α)
deriving DecidableEq

def Parsed.map {α β : Type} (f : α → β) : Parsed α → Parsed β
  | .error => .error
  | .progress => .progress
  | .oob => .oob
  | .success value => .success (f value)

structure Pointer where
  start : Nat
  length : Nat
deriving DecidableEq

def Pointer.read (m : Memory) (pointer : Pointer) : List Byte := memory.read m pointer.start pointer.length

/-- The loops over white space in front of something: they stop as soon as the way from `buffer`
is not shorter than what is left. -/
def skip_whitespace (m : Memory) (buffer : Nat) : Nat → Nat → Nat × Nat
  | 0, ptr => (ptr, 0)
  | size + 1, ptr =>
    if is_whitespace (m ptr) ∧ ptr - buffer < size + 1 then skip_whitespace m buffer size (ptr + 1)
    else (ptr, size + 1)

structure Version where
  major : Byte
  minor : Byte
deriving DecidableEq

def http_slash : List Byte := [72, 84, 84, 80, 47]

/-- `ov_http_pointer_parse_version`. Some of its checks are for the length before white space was
skipped. -/
def parse_version (m : Memory) (buffer length : Nat) : Parsed Version :=
  if length = 0 then .progress
  else
    let (ptr, size) := skip_whitespace m buffer length buffer
    let len := if size < 5 then size else 5
    if (read m ptr len).map cstring.lower ≠ (http_slash.take len).map cstring.lower then .error
    else if length < 6 then .progress
    else if !cstring.is_digit (m (ptr + 5)) then .error
    else if length < 7 then .progress
    else if m (ptr + 6) ≠ 46 then .error
    else if size < 8 then .progress
    else if !cstring.is_digit (m (ptr + 7)) then .error
    else .success ⟨m (ptr + 5) - 48, m (ptr + 7) - 48⟩

/-- What `http_is_reason_phrase` asks of a single octet. -/
def is_reason_item (item : Byte) : Bool := item = space || item = tab || !is_control item

def is_reason_phrase (m : Memory) (start length : Nat) : Bool := (read m start length).all is_reason_item

structure Status where
  code : Nat
  phrase : Pointer
deriving DecidableEq

/-- The phrase of a status line, with the first octet behind the line. The search may look at one
octet more than there is. -/
def status_phrase (m : Memory) (version : Version) (ptr size : Nat) : Parsed (Status × Version × Nat) :=
  match string_find m crlf (size - 13 + 1) (ptr + 13) with
  | none => .progress
  | some last =>
    if last - (ptr + 13) < 1 then .error
    else if !is_reason_phrase m (ptr + 13) (last - (ptr + 13)) then .error
    else
      .success (⟨cstring.value (read m (ptr + 9) 3), ⟨ptr + 13, last - (ptr + 13)⟩⟩, version, last + 2)

/-- `ov_http_pointer_parse_status_line`. The code is read of the three digits that were checked. -/
def parse_status_line (m : Memory) (buffer length : Nat) : Parsed (Status × Version × Nat) :=
  let (ptr, size) := skip_whitespace m buffer length buffer
  match parse_version m ptr size with
  | .progress => .progress
  | .error | .oob => .error
  | .success version =>
    if size = 8 then .progress
    else if m (ptr + 8) ≠ space then .error
    else if size = 9 then .progress
    else
      let len := if size - 9 < 3 then size - 9 else 3
      if !(read m (ptr + 9) len).all cstring.is_digit then .error
      else if size < 13 then .progress
      else if m (ptr + 12) ≠ space then .error
      else if size = 13 then .progress
      else status_phrase m version ptr size

/-- What is read of a request line. -/
structure Request where
  method : Pointer
  uri : Pointer
  version : Version
deriving DecidableEq

def path_max : Nat := 4096

/-- The part of `ov_http_pointer_parse_request_line` behind the URI, with the first octet behind
the line. -/
def request_version (m : Memory) (method uri : Pointer) (ptr size : Nat) : Parsed (Request × Nat) :=
  if size < 1 then .progress
  else
    match parse_version m ptr size with
    | .progress => .progress
    | .success version =>
      if size < 10 then .progress
      else if m (ptr + 8) ≠ cr then .error
      else if m (ptr + 9) ≠ lf then .error
      else .success (⟨method, uri, version⟩, ptr + 10)
    | .error | .oob => .error

/-- The part behind the method. -/
def request_uri (inet_pton : uri.Family → List Byte → Bool) (m : Memory) (lineend : Option Nat)
    (method : Pointer) (ptr size : Nat) : Parsed (Request × Nat) :=
  if size < 1 then .progress
  else
    match find m space size ptr with
    | none =>
      if path_max < size then .error
      else if lineend.isSome then .error
      else .progress
    | some last =>
      if path_max < last - ptr then .error
      else if lineend.any (· < last) then .error
      else if !uri.ov_uri_string_is_valid inet_pton (read m ptr (last - ptr)) then .error
      else request_version m method ⟨ptr, last - ptr⟩ (last + 1) (size - (last - ptr) - 1)

/-- `ov_http_pointer_parse_request_line`. A space that was searched for is not compared again. -/
def parse_request_line (inet_pton : uri.Family → List Byte → Bool) (m : Memory)
    (max_method_name buffer length : Nat) : Parsed (Request × Nat) :=
  let lineend := string_find m [cr] length buffer
  let (ptr, size) := skip_whitespace m buffer length buffer
  match find m space size ptr with
  | none =>
    if max_method_name ≠ 0 ∧ max_method_name ≤ size then .error
    else if lineend.isSome then .error
    else .progress
  | some last =>
    if max_method_name ≠ 0 ∧ max_method_name < last - ptr then .error
    else if lineend.any (· < last) then .error
    else if !is_token_string m ptr (last - ptr) then .error
    else request_uri inet_pton m lineend ⟨ptr, last - ptr⟩ (last + 1) (size - (last - ptr) - 1)

structure Header where
  name : Pointer
  value : Pointer
deriving DecidableEq

/-- The loop over folded lines: the line end that no white space follows. It is `none` where more
octets are needed. The size is not reduced by what lies in front of the line end. -/
def fold_end (m : Memory) : Nat → Nat → Option Nat
  | size + 3, lineend =>
    if is_whitespace (m (lineend + 2)) then
      match string_find m crlf (size + 1) (lineend + 2) with
      | none => none
      | some lineend => fold_end m (size + 1) lineend
    else some lineend
  | _, _ => none

/-- The loop over white space at the end of a value, down to the last octet of the value. It is
`none` where the loop runs into the start of the value. -/
def trim_end (m : Memory) (start : Nat) : Nat → Option Nat
  | 0 => if is_whitespace (m 0) then none else some 0
  | ptr + 1 =>
    if is_whitespace (m (ptr + 1)) then if ptr = start then none else trim_end m start ptr
    else some (ptr + 1)

/-- The part of `ov_http_pointer_parse_header_line` from the end of the line on, with the first
octet behind the line. -/
def header_value (m : Memory) (name : Pointer) (start lineend : Nat) : Parsed (Header × Nat) :=
  match trim_end m start (lineend - 1) with
  | none => .error
  | some ptr =>
    let length := minus (ptr + 1) start
    if is_text m length start then .success (⟨name, ⟨start, length⟩⟩, lineend + 2) else .error

/-- `ov_http_pointer_parse_header_line`. A colon that was searched for is not compared again. -/
def parse_header_line (m : Memory) (max buffer length : Nat) : Parsed (Header × Nat) :=
  let lineend := string_find m [cr] length buffer
  if lineend.any (fun lineend => max ≠ 0 ∧ max < lineend - buffer) then .error
  else
    let (ptr, size) := skip_whitespace m buffer length buffer
    match find m 58 size ptr with
    | none =>
      if lineend.isSome then .error
      else if max ≠ 0 ∧ max < size then .error
      else .progress
    | some last =>
      if lineend.any (· < last) then .error
      else if !is_token_string m ptr (last - ptr) then .error
      else
        let (start, size) := skip_whitespace m buffer (size - (last - ptr) - 1) (last + 1)
        match string_find m crlf size start with
        | none => if max ≠ 0 ∧ max < length then .error else .progress
        | some lineend =>
          match fold_end m size lineend with
          | none => .progress
          | some lineend => header_value m ⟨ptr, last - ptr⟩ start lineend

/-- A header in front of the ones read behind it. -/
def Parsed.cons (header : Header) : Parsed (List Header × Nat) → Parsed (List Header × Nat)
  | .success (headers, next) => .success (header :: headers, next)
  | other => other

/-- `ov_http_pointer_parse_header` for an array of some length. A line that is no header is to be
the empty one. -/
def parse_header (m : Memory) (max : Nat) : Nat → Nat → Nat → Parsed (List Header × Nat)
  | 0, _, _ => .oob
  | array_size + 1, ptr, size =>
    match parse_header_line m max ptr size with
    | .success (header, next) =>
      (parse_header m max array_size next (minus size (next - ptr))).cons header
    | .progress => .progress
    | .error | .oob =>
      if size = 0 then .progress
      else if m ptr ≠ cr then .error
      else if size > 1 then if m (ptr + 1) ≠ lf then .error else .success ([], ptr + 2)
      else .progress

end openvocs.http
