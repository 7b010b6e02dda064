import Mathlib.Data.List.DropRight
import Openvocs.Lib.CString
import Openvocs.Lib.Dict

/-!
A value of `none` is a run that is not defined: a null pointer that is read, or a line that goes
beyond its buffer.
-/

namespace openvocs.sip

abbrev Text := List Byte

def sp : Byte := 32
def cr : Byte := 13
def lf : Byte := 10
def colon : Byte := 58

/-- A string as it stands in the source. -/
def ascii (s : String) : Text := s.toList.map fun c => BitVec.ofNat 8 c.toNat

def crlf : Text := [cr, lf]
def sip_version : Text := ascii "SIP/2.0"
def header_content_length : Text := ascii "Content-Length"
def header_content_type : Text := ascii "Content-Type"

def string_default_size : Nat := 255

/-- `ov_string_dup`. It makes a null pointer of a long string. -/
def ov_string_dup (s : Text) : Option Text := if s.length < string_default_size then some s else none

inductive StartLine where
  | request (method uri : Option Text)
  | response (code : Nat) (reason : Option Text)
deriving DecidableEq

/-- `ov_sip_message`. A string may be a null pointer. -/
structure Message where
  start : StartLine
  headers : Dict Text (Option Text)
  body : Option Text := none

section

variable (bucket : Text → Nat)

def header_set (headers : Dict Text (Option Text)) (name value : Text) : Dict Text (Option Text) :=
  headers.set name (ov_string_dup value) bucket

def fresh_message (start : StartLine) : Message where
  start := start
  headers := header_set bucket .empty header_content_length (ascii "0")

def body_set (message : Message) (body content_type : Text) : Message :=
  { message with
    body := some body
    headers := header_set bucket
      (header_set bucket message.headers header_content_length (cstring.decimal body.length))
      header_content_type content_type }

/-- What is in front of the first occurrence of an octet, and what is behind it. -/
def cut (c : Byte) (s : Text) : Text × Option Text :=
  (s.takeWhile (· ≠ c), match s.dropWhile (· ≠ c) with
    | [] => none
    | _ :: rest => some rest)

def generate_message (el el2 el3 : Text) : Option Message :=
  if el = sip_version then
    (cstring.to_uint 16 el2).bind fun code =>
      if 100 ≤ code ∧ code ≤ 699 then some (fresh_message bucket (.response code (ov_string_dup el3))) else none
  else if el3 = sip_version then some (fresh_message bucket (.request (ov_string_dup el) (ov_string_dup el2)))
  else none

/-- `message_from_line`, for a line that is not empty. -/
def message_from_line (line : Text) : Option Message :=
  (cut sp line).2.bind fun behind =>
    (cut sp behind).2.bind fun el3 => generate_message bucket (cut sp line).1 (cut sp behind).1 el3

/-- `ov_string_ltrim` for spaces. -/
def ltrim (s : Text) : Text := s.dropWhile (· = sp)

/-- `ov_string_rtrim` for spaces. The first character stays if there is nothing but spaces. -/
def rtrim (s : Text) : Text := if s.rdropWhile (· = sp) = [] then s.take 1 else s.rdropWhile (· = sp)

/-- `parse_header`. It fails without a colon. -/
def parse_header (headers : Dict Text (Option Text)) (line : Text) : Option (Dict Text (Option Text)) :=
  (cut colon line).2.map fun value =>
    header_set bucket headers (ltrim (rtrim (rtrim (cut colon line).1))) (rtrim (ltrim (ltrim value)))

end

def max_line_length : Nat := 1000

/-- What becomes of the line buffer. -/
inductive Copied where
  | line (text rest : Text)
  | unfinished (line : Text)
  | too_long

/-- `lb_copy_line`, with the octets that are in the line buffer. A line that is too long
    is terminated behind the end of the buffer. -/
def lb_copy_line : Text → Text → Copied
  | line, [] => .unfinished line
  | line, c :: buf =>
    if c = lf ∧ line.getLast? = some cr then .line line.dropLast buf
    else if max_line_length < line.length + 1 then .too_long
    else lb_copy_line (line ++ [c]) buf

inductive Phase where
  | start_line
  | headers
  | body
  | done
deriving DecidableEq

inductive Element where
  | ok
  | error
  | continue_
  | ok_more_elements
deriving DecidableEq

structure Serde where
  phase : Phase := .start_line
  line_buffer : Text := []
  residuum : Option Text := none
  message : Option Message := none

inductive State where
  | error
  | progress
  | end_
deriving DecidableEq

section

variable (bucket : Text → Nat)

/-- `get_content_length_from_headers`. There is no check for a null pointer. -/
def content_length (message : Message) : Option Nat :=
  ((message.headers.get header_content_length).join).map fun value => (cstring.to_uint 32 value).getD 0

def content_type (message : Message) : Option Text := (message.headers.get header_content_type).join

/-- `parse_start_line`. The loop over empty lines is left to `parse`. -/
def parse_start_line (serde : Serde) (buf : Text) : Option (Element × Serde × Text) :=
  match lb_copy_line serde.line_buffer buf with
  | .too_long => none
  | .unfinished line => some (.continue_, { serde with line_buffer := line }, [])
  | .line text rest =>
    if cstring.of text = [] then some (.ok_more_elements, { serde with line_buffer := [] }, rest)
    else
      match message_from_line bucket (cstring.of text) with
      | none => some (.error, { serde with line_buffer := [] }, rest)
      | some message =>
        some (.ok_more_elements, { serde with phase := .headers, line_buffer := [], message := some message }, rest)

/-- `parse_headers`, with the decision whether there is a body. The line buffer keeps the
    end of the empty line. -/
def parse_headers (serde : Serde) (buf : Text) : Option (Element × Serde × Text) :=
  match lb_copy_line serde.line_buffer buf with
  | .too_long => none
  | .unfinished line => some (.continue_, { serde with line_buffer := line }, [])
  | .line text rest =>
    serde.message.bind fun message =>
      if cstring.of text = [] then
        (content_length message).map fun length =>
          if length = 0 then (.ok, { serde with line_buffer := [0] }, rest)
          else (.ok_more_elements, { serde with phase := .body, line_buffer := [0] }, rest)
      else
        match parse_header bucket message.headers (cstring.of text) with
        | none => some (.error, { serde with line_buffer := [] }, rest)
        | some headers =>
          some (.ok_more_elements, { serde with line_buffer := [], message := some { message with headers } }, rest)

/-- `parse_body`, with `set_message_body`. -/
def parse_body (serde : Serde) (buf : Text) : Option (Element × Serde × Text) :=
  serde.message.bind fun message =>
    (content_length message).map fun length =>
      if buf.length < length then (.continue_, serde, buf)
      else
        match content_type message with
        | none => (.error, serde, buf)
        | some type =>
          (.ok, { serde with message := some (body_set bucket message (buf.take length) type) },
            buf.drop length)

def parse_raw_data (serde : Serde) (buf : Text) : Option (Element × Serde × Text) :=
  match serde.phase with
  | .start_line => parse_start_line bucket serde buf
  | .headers => parse_headers bucket serde buf
  | .body => parse_body bucket serde buf
  | .done => none

/-- The loop in `parse`. Every round that is not the last takes an octet. -/
def parse_rounds : Nat → Serde → Text → Option (Element × Serde × Text)
  | 0, _, _ => none
  | rounds + 1, serde, buf =>
    (parse_raw_data bucket serde buf).bind fun (state, serde, rest) =>
      if state = .ok_more_elements then parse_rounds rounds serde rest else some (state, serde, rest)

def parse (serde : Serde) (buf : Text) : Option (State × Serde) :=
  if buf = [] then some (.progress, serde)
  else
    (parse_rounds bucket (buf.length + 1) serde buf).bind fun (state, serde, rest) =>
      match state with
      | .continue_ => some (.progress, { serde with residuum := some rest })
      | .ok => some (.end_, { serde with phase := .done, line_buffer := [], residuum := some rest })
      | .error => some (.error, {})
      | .ok_more_elements => none

def reset_serde (serde : Serde) : Serde :=
  if serde.phase = .done then { serde with phase := .start_line, message := none } else serde

def impl_add_raw (serde : Serde) (buf : Text) : Option (State × Serde) :=
  parse bucket { reset_serde serde with residuum := none } (serde.residuum.getD [] ++ buf)

/-- `get_next_message`, with the state of the parser if it was asked. -/
def get_next_message (serde : Serde) : Option (State × Option Message × Serde) :=
  if serde.phase = .done then some (.end_, serde.message, serde)
  else
    match serde.residuum with
    | none => some (.progress, none, serde)
    | some residuum =>
      (impl_add_raw bucket { serde with residuum := none } residuum).map fun (state, serde) =>
        (state, if state = .end_ then serde.message else none, serde)

def impl_pop_datum (serde : Serde) : Option (State × Option Message × Serde) :=
  (get_next_message bucket serde).map fun (state, message, serde) =>
    if message.isSome then (state, message, { serde with message := none, phase := .start_line })
    else (state, none, serde)

/-- Messages are popped until none is returned. It is `none` if a call fails. -/
def pop_all : Nat → Serde → Option (List Message × Serde)
  | 0, _ => none
  | pops + 1, serde =>
    (impl_pop_datum bucket serde).bind fun (state, message, serde) =>
      if state = .error then none
      else
        match message with
        | none => some ([], serde)
        | some message => (pop_all pops serde).map fun (messages, serde) => (message :: messages, serde)

/-- A chunk is added, and all messages are popped. -/
def feed (serde : Serde) (chunk : Text) : Option (List Message × Serde) :=
  (impl_add_raw bucket serde chunk).bind fun (state, serde) =>
    if state = .error then none else pop_all bucket ((serde.residuum.getD []).length + 2) serde

def feed_all : List Text → Serde → Option (List Message × Serde)
  | [], serde => some ([], serde)
  | chunk :: chunks, serde =>
    (feed bucket serde chunk).bind fun (messages, serde) =>
      (feed_all chunks serde).map fun (more, serde) => (messages ++ more, serde)

end

end openvocs.sip
