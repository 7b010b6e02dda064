import Openvocs.Http.Head
import Openvocs.Lib.Checked

/-!
The reader again, on the octets that it was given. To look outside of them is undefined.
-/

namespace openvocs.http.inside

open checked (get slice place)

/-- The loops over white space, with the way from the start of the line. An octet is looked at
before what is left is compared. -/
def skip_whitespace : Nat → List Byte → Option (List Byte)
  | _, [] => none
  | way, c :: t => if is_whitespace c ∧ way < (c :: t).length then skip_whitespace (way + 1) t else some (c :: t)

/-- The inner loop of `ov_string_find`. -/
def compare : List Byte → List Byte → Option Bool
  | [], _ => some true
  | _ :: _, [] => none
  | d :: delim, c :: t => if c = d then compare delim t else some false

/-- `ov_string_find` with a number of octets that may be larger than what is left. -/
def string_find (delim : List Byte) : Nat → List Byte → Option (Option (List Byte))
  | 0, _ => some none
  | _ + 1, [] => none
  | size + 1, c :: t =>
    if delim.head? ≠ some c then string_find delim size t
    else if size + 1 < delim.length then some none
    else
      (compare delim (c :: t)).bind fun same => if same then some (some (c :: t)) else string_find delim size t

/-- `memchr` in all that is left. -/
def find (c : Byte) : List Byte → Option (List Byte)
  | [] => none
  | d :: t => if d = c then some (d :: t) else find c t

/-- The octets of `HTTP/`, as far as there are any. -/
def is_http_slash (word : List Byte) : Bool :=
  word.map cstring.lower = (http_slash.take word.length).map cstring.lower

def parse_version (buffer : List Byte) : Option (Parsed Version) :=
  if buffer.length = 0 then some .progress
  else
    (skip_whitespace 0 buffer).bind fun ptr =>
      (slice ptr 0 (if ptr.length < 5 then ptr.length else 5)).bind fun word =>
        if !is_http_slash word then some .error
        else if buffer.length < 6 then some .progress
        else (get ptr 5).bind fun major =>
          if !cstring.is_digit major then some .error
          else if buffer.length < 7 then some .progress
          else (get ptr 6).bind fun dot =>
            if dot ≠ 46 then some .error
            else if ptr.length < 8 then some .progress
            else (get ptr 7).bind fun minor =>
              if !cstring.is_digit minor then some .error else some (.success ⟨major - 48, minor - 48⟩)

section

-- all octets
variable (s : List Byte)

/-- The phrase of a status line. -/
def status_phrase (version : Version) (ptr : List Byte) : Option (Parsed (Status × Version × Nat)) :=
  let start := ptr.drop 13
  (string_find crlf (ptr.length - 13 + 1) start).bind fun last =>
    match last with
    | none => some .progress
    | some last =>
      let length := start.length - last.length
      if length < 1 then some .error
      else (slice start 0 length).bind fun phrase =>
        if !phrase.all is_reason_item then some .error
        else (slice ptr 9 3).map fun code =>
          .success (⟨cstring.value code, ⟨place s start, length⟩⟩, version, place s last + 2)

/-- The part of `ov_http_pointer_parse_status_line` behind the version. -/
def status_code (version : Version) (ptr : List Byte) : Option (Parsed (Status × Version × Nat)) :=
  if ptr.length = 8 then some .progress
  else (get ptr 8).bind fun c =>
    if c ≠ space then some .error
    else if ptr.length = 9 then some .progress
    else (slice ptr 9 (if ptr.length - 9 < 3 then ptr.length - 9 else 3)).bind fun digits =>
      if !digits.all cstring.is_digit then some .error
      else if ptr.length < 13 then some .progress
      else (get ptr 12).bind fun c =>
        if c ≠ space then some .error
        else if ptr.length = 13 then some .progress
        else status_phrase s version ptr

def parse_status_line : Option (Parsed (Status × Version × Nat)) :=
  (skip_whitespace 0 s).bind fun ptr =>
    (parse_version ptr).bind fun state =>
      match state with
      | .progress => some .progress
      | .success version => status_code s version ptr
      | .error | .oob => some .error

/-- The part of `ov_http_pointer_parse_request_line` behind the URI. -/
def request_version (method uri : Pointer) (ptr : List Byte) : Option (Parsed (Request × Nat)) :=
  if ptr.length < 1 then some .progress
  else (parse_version ptr).bind fun state =>
    match state with
    | .progress => some .progress
    | .success version =>
      if ptr.length < 10 then some .progress
      else (get ptr 8).bind fun c =>
        if c ≠ cr then some .error
        else (get ptr 9).bind fun c =>
          if c ≠ lf then some .error else some (.success (⟨method, uri, version⟩, place s ptr + 10))
    | .error | .oob => some .error

variable (inet_pton : uri.Family → List Byte → Bool)

/-- The part behind the method. -/
def request_uri (lineend : Option (List Byte)) (method : Pointer) (ptr : List Byte) :
    Option (Parsed (Request × Nat)) :=
  if ptr.length < 1 then some .progress
  else
    match find space ptr with
    | none =>
      if path_max < ptr.length then some .error
      else if lineend.isSome then some .error
      else some .progress
    | some last =>
      let length := ptr.length - last.length
      if path_max < length then some .error
      else if lineend.any fun lineend => decide (last.length < lineend.length) then some .error
      else if !uri.ov_uri_string_is_valid inet_pton (ptr.take length) then some .error
      else request_version s method ⟨place s ptr, length⟩ last.tail

def parse_request_line (max_method_name : Nat) : Option (Parsed (Request × Nat)) :=
  (string_find [cr] s.length s).bind fun lineend =>
    (skip_whitespace 0 s).bind fun ptr =>
      match find space ptr with
      | none =>
        if max_method_name ≠ 0 ∧ max_method_name ≤ ptr.length then some .error
        else if lineend.isSome then some .error
        else some .progress
      | some last =>
        let length := ptr.length - last.length
        if max_method_name ≠ 0 ∧ max_method_name < length then some .error
        else if lineend.any fun lineend => decide (last.length < lineend.length) then some .error
        else if length = 0 ∨ (ptr.take length).all is_token = false then some .error
        else request_uri s inet_pton lineend ⟨place s ptr, length⟩ last.tail

/-- The loop over folded lines. The size is reduced by two for every line end, whatever is in
front of it. -/
def fold_end : Nat → List Byte → Option (Option (List Byte))
  | size + 3, lineend =>
    (get lineend 2).bind fun c =>
      if is_whitespace c then
        (string_find crlf (size + 1) (lineend.drop 2)).bind fun next =>
          match next with
          | none => some none
          | some lineend => fold_end (size + 1) lineend
      else some (some lineend)
  | _, _ => some none

/-- The loop over white space at the end of a value, down from a place. -/
def trim_end (start : Nat) : Nat → Option (Option Nat)
  | 0 => (get s 0).bind fun c => if is_whitespace c then none else some (some 0)
  | ptr + 1 =>
    (get s (ptr + 1)).bind fun c =>
      if is_whitespace c then if ptr = start then some none else trim_end start ptr else some (some (ptr + 1))

/-- `http_is_linear_whitespace` for at least three octets. -/
def is_linear_whitespace (t : List Byte) : Option Bool :=
  (get t 0).bind fun c =>
    if c ≠ cr then some false
    else (get t 1).bind fun c =>
      if c ≠ lf then some false else (get t 2).map is_whitespace

def is_text : Nat → List Byte → Option Bool
  | _ + 1, [] => none
  | size + 3, c :: t =>
    (is_linear_whitespace (c :: t)).bind fun linear =>
      if linear then is_text size (t.drop 2) else if is_text_item c then is_text (size + 2) t else some false
  | size + 1, c :: t => if is_text_item c then is_text size t else some false
  | 0, _ => some true

/-- The part of `ov_http_pointer_parse_header_line` from the end of the line on. -/
def header_value (name : Pointer) (start lineend : List Byte) : Option (Parsed (Header × List Byte)) :=
  (trim_end s (place s start) (place s lineend - 1)).bind fun ptr =>
    match ptr with
    | none => some .error
    | some ptr =>
      let length := minus (ptr + 1) (place s start)
      (is_text length start).map fun text =>
        if text then .success (⟨name, ⟨place s start, length⟩⟩, lineend.drop 2) else .error

/-- The part behind the colon, with the way to there. -/
def header_start (max size : Nat) (name : Pointer) (way : Nat) (ptr : List Byte) :
    Option (Parsed (Header × List Byte)) :=
  (skip_whitespace way ptr).bind fun start =>
    (string_find crlf start.length start).bind fun lineend =>
      match lineend with
      | none => if max ≠ 0 ∧ max < size then some .error else some .progress
      | some lineend =>
        (fold_end start.length lineend).bind fun lineend =>
          match lineend with
          | none => some .progress
          | some lineend => header_value s name start lineend

/-- `ov_http_pointer_parse_header_line`, with what is behind the line. -/
def parse_header_line (max : Nat) (buffer : List Byte) : Option (Parsed (Header × List Byte)) :=
  (string_find [cr] buffer.length buffer).bind fun lineend =>
    if lineend.any fun lineend => decide (max ≠ 0 ∧ max < buffer.length - lineend.length) then some .error
    else (skip_whitespace 0 buffer).bind fun ptr =>
      match find 58 ptr with
      | none =>
        if lineend.isSome then some .error
        else if max ≠ 0 ∧ max < ptr.length then some .error
        else some .progress
      | some last =>
        let length := ptr.length - last.length
        if lineend.any fun lineend => decide (last.length < lineend.length) then some .error
        else if length = 0 ∨ (ptr.take length).all is_token = false then some .error
        else header_start s max buffer.length ⟨place s ptr, length⟩ (buffer.length - last.tail.length) last.tail

/-- `ov_http_pointer_parse_header` for an array of some length. -/
def parse_header (max : Nat) : Nat → List Byte → Option (Parsed (List Header × Nat))
  | 0, _ => some .oob
  | array_size + 1, ptr =>
    (parse_header_line s max ptr).bind fun state =>
      match state with
      | .success (header, next) => (parse_header max array_size next).map (Parsed.cons header)
      | .progress => some .progress
      | .error | .oob =>
        if ptr.length = 0 then some .progress
        else (get ptr 0).bind fun c =>
          if c ≠ cr then some .error
          else if 1 < ptr.length then
            (get ptr 1).bind fun c => if c ≠ lf then some .error else some (.success ([], place s ptr + 2))
          else some .progress

end

end openvocs.http.inside
