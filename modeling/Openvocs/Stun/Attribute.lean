import Openvocs.Base.Utf8
import Openvocs.Lib.CString

namespace openvocs.stun

open bytes

/-- The zeros that fill up a content to a multiple of four octets. -/
def padding (n : Nat) : Nat := if n % 4 ≠ 0 then 4 - n % 4 else 0

def attribute_get_type (buffer : List Byte) : BitVec 16 := (read16 buffer 0).getD 0

/-- `ov_stun_attribute_get_length`, `none` for its `-1`. -/
def attribute_get_length (buffer : List Byte) : Option Nat := (read16 buffer 2).map BitVec.toNat

/-- The octets of an attribute. The length field keeps the low 16 bits only. -/
def attribute_frame (type : BitVec 16) (content : List Byte) : List Byte :=
  be16 type ++ (be16 (BitVec.ofNat 16 content.length) ++
    (content ++ List.replicate (padding content.length) 0))

/-- `ov_stun_attribute_encode` with a content: what the buffer holds then, and the octets up to
`next`. -/
def attribute_encode (buffer : List Byte) (type : BitVec 16) (content : List Byte) :
    Option (List Byte × Nat) :=
  let size := 4 + content.length + padding content.length
  if buffer.length < size then none else some (attribute_frame type content ++ buffer.drop size, size)

@[simp] theorem length_attribute (type : BitVec 16) (content : List Byte) :
    (attribute_frame type content).length = 4 + content.length + padding content.length := by
  simp only [attribute_frame, List.length_append, length_be16, List.length_replicate]
  omega

theorem attribute_get_type_append (type : BitVec 16) (content rest : List Byte) :
    attribute_get_type (attribute_frame type content ++ rest) = type := by
  have hread : read16 (attribute_frame type content ++ rest) 0 = some type := by
    rw [read16_eq_some, attribute_frame, List.append_assoc]
    exact slice_mid [] (be16 type) _ rfl rfl
  simp [attribute_get_type, hread]

theorem attribute_get_length_append (type : BitVec 16) (content rest : List Byte) :
    attribute_get_length (attribute_frame type content ++ rest) = some (content.length % 2 ^ 16) := by
  have hread : read16 (attribute_frame type content ++ rest) 2 =
      some (BitVec.ofNat 16 content.length) := by
    rw [read16_eq_some, attribute_frame, List.append_assoc, List.append_assoc]
    exact slice_mid (be16 type) (be16 _) _ rfl rfl
  simp [attribute_get_length, hread]

theorem attribute_drop_take (type : BitVec 16) (content rest : List Byte) :
    ((attribute_frame type content ++ rest).drop 4).take content.length = content := by
  have hdrop : (attribute_frame type content ++ rest).drop 4 =
      content ++ (List.replicate (padding content.length) 0 ++ rest) := by
    simp [attribute_frame, be16]
  rw [hdrop, List.take_left]

theorem attribute_encode_eq {buffer : List Byte} (type : BitVec 16) {content : List Byte}
    (h : 4 + content.length + padding content.length ≤ buffer.length) :
    attribute_encode buffer type content =
      some (attribute_frame type content ++ buffer.drop (4 + content.length + padding content.length),
        4 + content.length + padding content.length) := by
  rw [attribute_encode]
  exact if_neg (by omega)

/-- `ov_stun_attributes_get_type` over the attribute frames at some offsets of a message. -/
def attributes_get_type (buffer : List Byte) (type : BitVec 16) : List Nat → Option Nat
  | [] => none
  | i :: attr =>
    if attribute_get_type (buffer.drop i) = type then some i
    else attributes_get_type buffer type attr

/-- What username, realm, nonce and software differ in. -/
structure TextAttribute where
  type : BitVec 16
  max : Nat
  content_is : List Byte → Bool

namespace TextAttribute

variable (a : TextAttribute)

def frame_is (buffer : List Byte) : Bool :=
  8 ≤ buffer.length && attribute_get_type buffer = a.type &&
    match attribute_get_length buffer with
    | none => false
    | some size => 1 ≤ size && size ≤ a.max && size + 4 ≤ buffer.length

def validate (content : List Byte) : Bool :=
  1 ≤ content.length && content.length ≤ a.max && a.content_is content

def encoding_length (content : List Byte) : Nat :=
  if content.length = 0 ∨ a.max < content.length then 0
  else content.length + 4 + padding content.length

def encode (buffer content : List Byte) : Option (List Byte × Nat) :=
  if a.max < content.length ∨ content.length = 0 then none
  else if buffer.length < a.encoding_length content then none
  else if !a.validate content then none
  else attribute_encode buffer a.type content

def decode (buffer : List Byte) : Option (List Byte) :=
  if buffer.length < 5 ∨ !a.frame_is buffer then none
  else
    match attribute_get_length buffer with
    | none => none
    | some size =>
      let content := (buffer.drop 4).take size
      if size = 0 ∨ !a.validate content then none else some content

end TextAttribute

/-- How many octets the check of a quoted text leaves out behind one that is not ASCII. The first
mask has every such octet in it. -/
def qdtext_skip (c : Byte) : Nat :=
  if c &&& 0xF0 ≠ 0 then 3 else if c &&& 0xE0 ≠ 0 then 2 else if c &&& 0xC0 ≠ 0 then 1 else 0

/-- The check of the ASCII octets in `ov_stun_grammar_is_qdtext`. -/
def qdtext_ascii : Nat → List Byte → Bool
  | _, [] => true
  | skip + 1, _ :: s => qdtext_ascii skip s
  | 0, c :: s =>
    if c.toNat ≤ 0x7F then
      c.toNat ≤ 0x7E && c ≠ 0x5C && c ≠ 0x22 && 0x21 ≤ c.toNat && qdtext_ascii 0 s
    else qdtext_ascii (qdtext_skip c) s

/-- `ov_stun_grammar_is_qdtext`. Where all is white space, the octet behind the text is looked at,
and nothing is left to be valid whatever it is. -/
def grammar_is_qdtext (s : List Byte) : Bool :=
  let text := s.dropWhile cstring.is_space
  !s.isEmpty && utf8.validate_sequence text && qdtext_ascii 0 text

/-- `ov_stun_grammar_is_quoted_pair` behind its backslash. -/
def grammar_is_quoted_pair (c : Byte) : Bool := c.toNat ≤ 0x7F && c ≠ 0x0A && c ≠ 0x0D

/-- The loop of `ov_stun_grammar_is_quoted_string_content`, with what is read of a text. -/
def quoted_string_loop : List Byte → List Byte → Bool
  | text, [] => text.isEmpty || grammar_is_qdtext text
  | text, c :: s =>
    if c = 0x5C then
      match s with
      | [] => false
      | d :: s =>
        grammar_is_quoted_pair d && (text.isEmpty || grammar_is_qdtext text) &&
          quoted_string_loop [] s
    else quoted_string_loop (text ++ [c]) s

def grammar_is_quoted_string_content (s : List Byte) : Bool :=
  !s.isEmpty && quoted_string_loop [] s

def username : TextAttribute := ⟨0x0006, 513, utf8.validate_sequence⟩
def realm : TextAttribute := ⟨0x0014, 763, grammar_is_quoted_string_content⟩
def nonce : TextAttribute := ⟨0x0015, 763, grammar_is_quoted_string_content⟩
def software : TextAttribute := ⟨0x8022, 763, utf8.validate_sequence⟩

end openvocs.stun
