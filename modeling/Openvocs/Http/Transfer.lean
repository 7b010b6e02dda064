import Openvocs.Http.HeaderLine

namespace openvocs.http

open memory

def is_qd_char (item : Byte) : Bool :=
  if 128 ≤ item.toNat then true
  else if item = 92 then false
  else if 35 ≤ item.toNat ∧ item.toNat ≤ 126 then true
  else if is_whitespace item then true
  else [33, 35, 45, 91, 93, 126].contains item

/-- What may stand behind a backslash. -/
def is_paired (item : Byte) : Bool := is_whitespace item || !is_control item

/-- `http_is_quoted_pair`, for at least two octets. -/
def is_quoted_pair (m : Memory) (start : Nat) : Bool := m start = 92 && is_paired (m (start + 1))

/-- The loop of `http_is_quoted_string`. -/
def is_quoted_text (m : Memory) : Nat → Nat → Bool
  | 0, _ => true
  | 1, ptr => is_qd_char (m ptr)
  | size + 2, ptr =>
    if is_qd_char (m ptr) then is_quoted_text m (size + 1) (ptr + 1)
    else is_quoted_pair m ptr && is_quoted_text m size (ptr + 2)

def is_quoted_string (m : Memory) (start length : Nat) : Bool :=
  2 ≤ length && m start = 34 && m (start + length - 1) = 34 && is_quoted_text m (length - 2) (start + 1)

/-- In front of something, up to where the text stops; `none` where there is nothing else. -/
def skip_blanks (m : Memory) : Nat → Nat → Option Nat
  | 0, ptr => if is_whitespace (m ptr) then none else some ptr
  | size + 1, ptr => if is_whitespace (m ptr) then skip_blanks m size (ptr + 1) else some ptr

/-- Behind something, which is not to begin with white space. -/
def trim_back (m : Memory) (start : Nat) : Nat → Option Nat
  | 0 => if is_whitespace (m 0) then none else some 0
  | ptr + 1 =>
    if is_whitespace (m (ptr + 1)) then if ptr + 1 = start then none else trim_back m start ptr
    else some (ptr + 1)

/-- Behind something, wherever it ends. -/
def back_over (m : Memory) : Nat → Nat
  | 0 => 0
  | ptr + 1 => if is_whitespace (m (ptr + 1)) then back_over m ptr else ptr + 1

def semicolon : Byte := 59
def equals : Byte := 61
def comma : Byte := 44
def nul : Byte := 0

def is_parameter_value (m : Memory) (ptr len : Nat) : Bool :=
  is_token_string m ptr len || is_quoted_string m ptr len

/-- The value of a parameter, with what lies behind the next semicolon. It is `none` where the
grammar is not met. -/
def parameter_value (m : Memory) (stop ptr : Nat) : Option (Option Nat) :=
  match find m semicolon (stop - ptr) ptr with
  | none => if is_parameter_value m ptr (stop - ptr) then some none else none
  | some delimiter =>
    match trim_back m ptr (delimiter - 1) with
    | none => none
    | some last => if is_parameter_value m ptr (minus last ptr) then some (some (delimiter + 1)) else none

/-- One round of the loop over the parameters, from behind a semicolon. -/
def validate_parameter (m : Memory) (stop first : Nat) : Option (Option Nat) :=
  match skip_blanks m (stop - first) first with
  | none => none
  | some ptr =>
    match find m equals (stop - ptr) ptr with
    | none => none
    | some delimiter =>
      if delimiter = first then none
      else
        match trim_end m first (delimiter - 1) with
        | none => none
        | some last =>
          if !is_token_string m ptr (minus last ptr) then none
          else
            match skip_blanks m (stop - (delimiter + 1)) (delimiter + 1) with
            | none => none
            | some ptr => parameter_value m stop ptr

/-- The loop over the parameters, with a bound on its rounds. -/
def validate_parameters (m : Memory) (stop : Nat) : Nat → Nat → Bool
  | 0, _ => false
  | rounds + 1, first =>
    match validate_parameter m stop first with
    | none => false
    | some none => true
    | some (some next) => validate_parameters m stop rounds next

/-- `validate_tranfer_encoding_grammar`, as it is called: nobody asks it for the name alone. A
delimiter that was found is not compared with the length again. -/
def validate_tranfer_encoding_grammar (m : Memory) (start length : Nat) : Bool :=
  if length = 0 then false
  else
    match find m semicolon length start with
    | none => is_token_string m start length
    | some delimiter =>
      if delimiter = start then false
      else
        match trim_back m start (delimiter - 1) with
        | none => false
        | some ptr =>
          is_token_string m start (ptr - start) && validate_parameters m (start + length) length (delimiter + 1)

/-- A coding from `ptr` on, in front of `last`, with what lies behind the comma. -/
def coding_at (m : Memory) (ptr last : Nat) (next : Option Nat) : Option (Pointer × Option Nat) :=
  if last = ptr then none
  else if !validate_tranfer_encoding_grammar m ptr (minus last ptr) then none
  else some (⟨ptr, minus last ptr⟩, next)

/-- The element that a list begins with. -/
def list_element (m : Memory) (ptr size : Nat) : Option (Pointer × Option Nat) :=
  if size = 0 then none
  else
    match find m comma size ptr with
    | none => coding_at m ptr (back_over m (ptr + size)) none
    | some delimiter =>
      if delimiter = ptr then none
      else if delimiter - ptr + 1 = size then none
      else coding_at m ptr (back_over m (delimiter - 1)) (some (delimiter + 1))

/-- One round of the loop over the elements. A single octet of white space is skipped. -/
def transfer_element (m : Memory) (ptr size : Nat) : Option (Pointer × Option Nat) :=
  if size = 0 then none
  else if is_whitespace (m ptr) then list_element m (ptr + 1) (size - 1)
  else list_element m ptr size

/-- What was read, in front of what is read behind it. -/
def Parsed.prepend {α : Type} (front : List α) : Parsed (List α) → Parsed (List α)
  | .success behind => .success (front ++ behind)
  | other => other

/-- The loop over the elements of a value, for the room that is left in the array. -/
def transfer_elements (m : Memory) (stop : Nat) : Nat → Nat → Parsed (List Pointer)
  | 0, _ => .oob
  | room + 1, ptr =>
    match transfer_element m ptr (stop - ptr) with
    | none => .error
    | some (pointer, none) => .success [pointer]
    | some (pointer, some next) => (transfer_elements m stop room next).prepend [pointer]

/-- The loop over the headers. -/
def transfer_headers (m : Memory) : Nat → List Header → Parsed (List Pointer)
  | _, [] => .success []
  | room, header :: rest =>
    match transfer_elements m (header.value.start + header.value.length) room header.value.start with
    | .success pointers => (transfer_headers m (room - pointers.length) rest).prepend pointers
    | other => other

/-- The headers that `ov_http_header_get_next` returns one after the other. -/
def headers_named (m : Memory) (headers : List Header) (name : List Byte) : List Header :=
  headers.filter fun header =>
    header.name.start ≠ 0 ∧ header.name.length = name.length ∧
      (header.name.read m).map cstring.lower = name.map cstring.lower

/-- `OV_HTTP_KEY_TRANSFER_ENCODING`: `Transfer-Encoding`. -/
def key_transfer_encoding : List Byte :=
  [84, 114, 97, 110, 115, 102, 101, 114, 45, 69, 110, 99, 111, 100, 105, 110, 103]

/-- `OV_HTTP_KEY_CONTENT_LENGTH`: `Content-Length`. -/
def key_content_length : List Byte := [67, 111, 110, 116, 101, 110, 116, 45, 76, 101, 110, 103, 116, 104]

/-- The result of reading the codings, with the part of the array that is filled. -/
inductive Encodings where
  | absent
  | error
  | oob
  | success (array : List Pointer)
deriving DecidableEq

def parse_transfer_encodings (m : Memory) (headers : List Header) (array_size : Nat) : Encodings :=
  match headers_named m headers key_transfer_encoding with
  | [] => .absent
  | found =>
    match transfer_headers m array_size found with
    | .success array => .success array
    | .oob => .oob
    | .error | .progress => .error

def chunked : List Byte := [99, 104, 117, 110, 107, 101, 100]

/-- `strncasecmp` of `chunked` with a coding, for the length of the coding. -/
def compare_chunked (m : Memory) (coding : Pointer) : Bool :=
  (read m coding.start (min coding.length 8)).map cstring.lower =
    ((chunked ++ [nul]).take coding.length).map cstring.lower

/-- The loop over the array from its end, down to the second element. -/
def ends_chunked (m : Memory) : List Pointer → Bool
  | [] => true
  | coding :: rest => if coding.start = 0 then ends_chunked m rest else compare_chunked m coding

/-- `ov_http_message_config_init`, for the number of codings that are supported. -/
def transfer_max (max : Nat) : Nat := if max = 0 then 10 else max

/-- `parse_with_transfer`, up to the call of `parse_chunked`. -/
def parse_with_transfer (m : Memory) (headers : List Header) (max : Nat) : Bool :=
  match parse_transfer_encodings m headers max with
  | .success array =>
    let array := array ++ List.replicate (max - array.length) ⟨0, 0⟩
    ends_chunked m (array.drop 1).reverse && array.head?.any (·.start ≠ 0)
  | _ => false

/-- What `parse_body` returns: what `parse_chunked` returns, or its own result with the body and
the first octet behind it. -/
inductive Body where
  | chunked
  | read (result : Parsed (Pointer × Nat))
deriving DecidableEq

/-- The number that a header has for the length of the body. It is `none` where no CR follows. -/
def content_length (m : Memory) (buffer value : Pointer) : Option Nat :=
  let stop := buffer.start + buffer.length
  let text := memory.read m value.start (stop - value.start)
  let (number, rest) := (cstring.strtol text).getD (0, text)
  if m (stop - rest.length) ≠ cr then none else some (BitVec.ofInt 64 number).toNat

/-- `parse_body`, for a body at `next`. -/
def parse_body (m : Memory) (buffer : Pointer) (headers : List Header) (max next : Nat) : Body :=
  match headers_named m headers key_content_length, headers_named m headers key_transfer_encoding with
  | _ :: _, _ :: _ => .read .error
  | [], _ :: _ => if parse_with_transfer m headers (transfer_max max) then .chunked else .read .error
  | [header], [] =>
    match content_length m buffer header.value with
    | none => .read .error
    | some length =>
      if buffer.length < (next - buffer.start + length) % 2 ^ 64 then .read .progress
      else .read (.success (⟨next, length⟩, next + length))
  | _ :: _ :: _, [] => .read .error
  | [], [] => .read (.success (⟨0, 0⟩, next))

end openvocs.http
