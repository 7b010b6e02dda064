import Openvocs.Json.Scan

/-!
What `ov_json_parser_decode` reads. The values are left out, except for the keys of an object, since
none may come twice. The scan is given up where a number begins.
-/

namespace openvocs.json.decoding

open calls
open scan (Scan fail)

/-- The white space in front of a token. -/
def skip_whitespace : List Byte → Int → Scan (List Byte × Int)
  | [], _ => .outside
  | c :: s, size =>
    if is_whitespace c then
      if exceeds 0 size then skip_whitespace s (size - 1) else fail
    else .done (c :: s, size)

/-- The search for the closing quote: how many octets stand in front of it. -/
def find_quote : Byte → Int → List Byte → Scan Nat
  | _, _, [] => .outside
  | prev, size, c :: s =>
    if exceeds 1 size then
      if c = quote ∧ prev ≠ backslash then .done 0
      else do
        let length ← find_quote c (size - 1) s
        .done (length + 1)
    else if c = quote then .done 0
    else fail

/-- `ov_json_match_string`: where the content starts, and how long it is. -/
def match_string (s : List Byte) (size : Int) : Scan (List Byte × Nat) :=
  if exceeds 1 size then do
    let (next, size) ← skip_whitespace s size
    if exceeds 1 size then do
      let (c, start) ← Call.head next
      if c = quote then do
        let length ← find_quote c (size - 1) start
        if length ≠ 0 ∧ validate_string (start.take length) false then .done (start, length) else fail
      else fail
    else fail
  else fail

/-- The search for the closing bracket: how many octets stand in front of it. -/
def find_close (opening closing : Byte) : Nat → Int → List Byte → Scan Nat
  | _, _, [] => .outside
  | child_open, size, c :: s =>
    if exceeds 1 size then
      if c = closing ∧ child_open = 0 then .done 0
      else do
        let child_open :=
          if c = opening then child_open + 1 else if c = closing then child_open - 1 else child_open
        let length ← find_close opening closing child_open (size - 1) s
        .done (length + 1)
    else if c = closing ∧ child_open = 0 then .done 0
    else fail

/-- `ov_json_match_array` and `ov_json_match_object`, which differ in the brackets. -/
def match_brackets (opening closing : Byte) (s : List Byte) (size : Int) : Scan (List Byte × Nat) :=
  if exceeds 1 size then do
    let (next, size) ← skip_whitespace s size
    let (c, start) ← Call.head next
    if c = opening then do
      let length ← find_close opening closing 0 (size - 1) start
      .done (start, length)
    else fail
  else fail

def match_array : List Byte → Int → Scan (List Byte × Nat) := match_brackets open_array close_array

def match_object : List Byte → Int → Scan (List Byte × Nat) := match_brackets open_object close_object

def string_decode (buffer : List Byte) (size : Int) : Scan Nat := do
  let (_, length) ← match_string buffer size
  .done (length + 2)

/-- One literal of `json_literal_decode`. -/
def word_decode (word : List Byte) (buffer : List Byte) (size : Int) : Scan Nat :=
  if exceeds (word.length - 1) size then do
    let _ ← scan.match_word word buffer
    .done word.length
  else fail

/-- The call of the function for a token with nothing inside. -/
def plain_decode (c : Byte) (ptr : List Byte) (size : Int) : Scan Nat :=
  if c = quote then string_decode ptr size
  else if c = 110 then word_decode null_word ptr size
  else if c = 102 then word_decode false_word ptr size
  else if c = 116 then word_decode true_word ptr size
  else if begins_number c then .stop .number
  else fail

section

-- the call for what is inside
variable (decode : List Byte → Int → Scan Nat)

/-- The loop of `json_array_decode`, with a bound on its rounds. -/
def array_items : Nat → List Byte → Int → Scan Unit
  | 0, _, _ => .endless
  | rounds + 1, content, content_size =>
    if exceeds 1 content_size then do
      let length ← decode content content_size
      let (content, content_size) ← scan.clear_whitespace (content.drop length) (content_size - length)
      if content_size = 1 then .done ()
      else do
        let (c, content) ← Call.head content
        if c = comma then do
          let (content, content_size) ← scan.clear_whitespace content (content_size - 1)
          array_items rounds content content_size
        else fail
    else .done ()

def array_decode (buffer : List Byte) (size : Int) : Scan Nat := do
  let (start, length) ← match_array buffer size
  let (content, content_size) ← scan.clear_whitespace start (length + 1)
  array_items decode buffer.length content content_size
  .done (offset buffer start + length + 1)

/-- The key of a member, and what is left with its size behind the key. -/
def object_name (keys : List (List Byte)) (content : List Byte) (content_size : Int) :
    Scan (List Byte × List Byte × Int) := do
  let (start, length) ← match_string content content_size
  let key := cstring.of (start.take length)
  if key ∈ keys then fail
  else .done (key, start.drop (length + 1), content_size - (offset content start + length))

/-- The colon behind a key, with the white space around. -/
def object_colon (content : List Byte) (content_size : Int) : Scan (List Byte × Int) := do
  let (content, content_size) ← scan.clear_whitespace content content_size
  let (c, content) ← Call.head content
  if c = colon then do
    let (content, content_size) ← scan.clear_whitespace content (content_size - 1)
    .done (content, content_size)
  else fail

/-- One round of the loop of `json_object_decode` up to the value: the key, and where the value
starts. -/
def object_key (keys : List (List Byte)) (content : List Byte) (content_size : Int) :
    Scan (List Byte × List Byte × Int) := do
  let (key, content, content_size) ← object_name keys content content_size
  let (content, content_size) ← object_colon content content_size
  .done (key, content, content_size)

/-- The loop of `json_object_decode`, with a bound on its rounds. -/
def object_members : Nat → List (List Byte) → List Byte → Int → Scan Unit
  | 0, _, _, _ => .endless
  | rounds + 1, keys, content, content_size =>
    if exceeds 1 content_size then do
      let (key, content, content_size) ← object_key keys content content_size
      let length ← decode content content_size
      let (content, content_size) ← scan.clear_whitespace (content.drop length) (content_size - length)
      let (c, content) ← Call.head content
      if c = close_object then .done ()
      else if c = comma then object_members rounds (keys ++ [key]) content (content_size - 1)
      else fail
    else do
      let (c, _) ← Call.head content
      if c = close_object then .done () else fail

def object_decode (buffer : List Byte) (size : Int) : Scan Nat := do
  let (start, length) ← match_object buffer size
  let (content, content_size) ← scan.clear_whitespace start (length + 1)
  object_members decode buffer.length [] content content_size
  .done (offset buffer start + length + 1)

/-- The call of the function for a token. -/
def token_decode (ptr : List Byte) (size : Int) : Scan Nat := do
  let (c, _) ← Call.head ptr
  if c = open_object then object_decode decode ptr size
  else if c = open_array then array_decode decode ptr size
  else plain_decode c ptr size

/-- The body of `ov_json_parser_decode`. -/
def value_decode (buffer : List Byte) (length : Int) : Scan Nat :=
  if exceeds 0 length then do
    let (ptr, size) ← scan.clear_whitespace buffer length
    let len ← token_decode decode ptr size
    .done (offset buffer ptr + len)
  else fail

end

/-- `ov_json_parser_decode`, with a bound on how deep it calls itself. -/
def decode : Nat → List Byte → Int → Scan Nat
  | 0 => fun _ _ => .endless
  | depth + 1 => value_decode (decode depth)

/-- `ov_json_parser_decode` of a whole buffer. -/
def parser_decode (buffer : List Byte) : Scan Nat := decode (buffer.length + 1) buffer buffer.length

end openvocs.json.decoding
