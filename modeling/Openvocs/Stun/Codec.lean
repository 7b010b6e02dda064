import Openvocs.Stun.Attribute

open List Option

namespace openvocs.stun

open bytes

/-- The functions of one attribute, over the contents it has. -/
structure Codec (α : Type) where
  encoding_length : α → Nat
  encode : List Byte → α → Option (List Byte × Nat)
  frame_is : List Byte → Bool
  decode : List Byte → Option α

/-- A content written to a buffer of exactly the encoding length fills it, is recognised and is
read again. -/
def Codec.RoundTrip {α : Type} (c : Codec α) (x : α) : Prop :=
  ∀ buffer : List Byte, buffer.length = c.encoding_length x →
    ∃ out, c.encode buffer x = some (out, buffer.length) ∧ out.length = buffer.length ∧
      c.frame_is out = true ∧ c.decode out = some x

def TextAttribute.codec (a : TextAttribute) : Codec (List Byte) :=
  ⟨a.encoding_length, a.encode, a.frame_is, a.decode⟩

def frame_is_error_code (buffer : List Byte) : Bool :=
  8 ≤ buffer.length && attribute_get_type buffer = 0x0009 &&
    match attribute_get_length buffer with
    | none => false
    | some size => size ≤ 763 && 1 ≤ size && size + 8 ≤ buffer.length

def error_code_encoding_length (phrase : List Byte) : Nat :=
  if phrase.length < 1 ∨ 763 < phrase.length then 0
  else phrase.length + 8 + padding phrase.length

/-- The content of an error code: two zeros, the class, the number and the phrase. -/
def error_code_content (code : BitVec 16) (phrase : List Byte) : List Byte :=
  [0, 0, BitVec.ofNat 8 (code.toNat / 100) &&& 0x0f, BitVec.ofNat 8 (code.toNat % 100)] ++ phrase

def error_code_encode (buffer : List Byte) (code : BitVec 16) (phrase : List Byte) :
    Option (List Byte × Nat) :=
  if buffer.length < 8 ∨ phrase.length < 1 then none
  else if code.toNat < 300 ∨ 700 ≤ code.toNat then none
  else if 763 < phrase.length then none
  else if buffer.length < phrase.length + 8 then none
  else if !utf8.validate_sequence phrase then none
  else attribute_encode buffer 0x0009 (error_code_content code phrase)

def error_code_decode_code (buffer : List Byte) : BitVec 16 :=
  match read8 buffer 6, read8 buffer 7 with
  | some a, some b => BitVec.ofNat 16 ((a &&& 0x0f).toNat * 100 + b.toNat)
  | _, _ => 0

def error_code_decode_phrase (buffer : List Byte) : Option (List Byte) :=
  if buffer.length < 9 ∨ attribute_get_type buffer ≠ 0x0009 then none
  else (attribute_get_length buffer).map fun size => (buffer.drop 8).take (size - 4)

def error_code : Codec (BitVec 16 × List Byte) where
  encoding_length x := error_code_encoding_length x.2
  encode buffer x := error_code_encode buffer x.1 x.2
  frame_is := frame_is_error_code
  decode buffer := (error_code_decode_phrase buffer).map fun phrase => (error_code_decode_code buffer, phrase)

def frame_is_unknown_attributes (buffer : List Byte) : Bool :=
  8 ≤ buffer.length && attribute_get_type buffer = 0x000A &&
    match attribute_get_length buffer with
    | none => false
    | some size => size + 4 ≤ buffer.length

/-- What `ov_stun_unknown_attributes_encode` requires. -/
def unknown_attributes_encoding_length (array : List (BitVec 16)) : Nat :=
  array.length * 2 + 4 + padding (array.length * 2 + 4)

def unknown_attributes_encode (buffer : List Byte) (array : List (BitVec 16)) :
    Option (List Byte × Nat) :=
  if array.length < 1 then none
  else if buffer.length < unknown_attributes_encoding_length array then none
  else attribute_encode buffer 0x000A (array.flatMap be16)

/-- The pointers of `ov_stun_unknown_attributes_decode` from an offset on, read by
`ov_stun_unknown_attributes_decode_pointer`. -/
def unknown_attributes_pointers (buffer : List Byte) : Nat → Nat → Option (List (BitVec 16))
  | _, 0 => some []
  | i, n + 1 =>
    (read16 buffer i).bind fun type =>
      (unknown_attributes_pointers buffer (i + 2) n).map (type :: ·)

def unknown_attributes_decode (buffer : List Byte) : Option (List (BitVec 16)) :=
  if !frame_is_unknown_attributes buffer then none
  else
    match attribute_get_length buffer with
    | none => none
    | some size => unknown_attributes_pointers buffer 4 ((size + 1) / 2)

def unknown_attributes : Codec (List (BitVec 16)) :=
  ⟨unknown_attributes_encoding_length, unknown_attributes_encode, frame_is_unknown_attributes,
    unknown_attributes_decode⟩

/-- A socket address, the port and an address of four octets in host byte order. -/
inductive Address
  | ipv4 (port : BitVec 16) (ip : BitVec 32)
  | ipv6 (port : BitVec 16) (ip : List Byte)
deriving DecidableEq

/-- An address of version 6 has 16 octets. -/
def Address.WellFormed : Address → Prop
  | .ipv4 _ _ => True
  | .ipv6 _ ip => ip.length = 16

def frame_is_xor_mapped_address (buffer : List Byte) : Bool :=
  12 ≤ buffer.length && attribute_get_type buffer = 0x0020 &&
    match read8 buffer 5 with
    | none => false
    | some family =>
      if family = 1 then attribute_get_length buffer = some 8
      else if family = 2 then attribute_get_length buffer = some 20
      else false

def xor_mapped_address_encoding_length : Address → Nat
  | .ipv4 _ _ => 12
  | .ipv6 _ _ => 24

/-- The octets of an address with the magic cookie and the transaction id of the header. -/
def xor_header (head ip : List Byte) : List Byte := List.zipWith (· ^^^ ·) ip ((head.drop 4).take 16)

/-- The octets of the attribute, from its length, family, port and address on the wire. -/
def xor_mapped_address_frame (size : BitVec 16) (family : Byte) (port : BitVec 16) (ip : List Byte) :
    List Byte :=
  be16 0x0020 ++ (be16 size ++ ([0, family] ++ (be16 port ++ ip)))

def xor_mapped_address_encode (head buffer : List Byte) : Address → Option (List Byte × Nat)
  | .ipv4 port ip =>
    if buffer.length < 12 then none
    else
      some (xor_mapped_address_frame 8 1 (port ^^^ 0x2112) (be32 (ip ^^^ 0x2112A442)) ++
        buffer.drop 12, 12)
  | .ipv6 port ip =>
    if buffer.length < 12 then none
    else if buffer.length < 24 then none
    else
      some (xor_mapped_address_frame 20 2 (port ^^^ 0x2112) (xor_header head ip) ++
        buffer.drop 24, 24)

def xor_mapped_address_decode (head buffer : List Byte) : Option Address :=
  if !frame_is_xor_mapped_address buffer then none
  else
    match read8 buffer 5 with
    | none => none
    | some family =>
      if family = 1 then
        (read16 buffer 6).bind fun port =>
          (read32 buffer 8).map fun ip => .ipv4 (port ^^^ 0x2112) (ip ^^^ 0x2112A442)
      else if family = 2 then
        (read16 buffer 6).map fun port => .ipv6 (port ^^^ 0x2112) (xor_header head (slice buffer 8 16))
      else none

def xor_mapped_address (head : List Byte) : Codec Address :=
  ⟨xor_mapped_address_encoding_length, xor_mapped_address_encode head, frame_is_xor_mapped_address,
    xor_mapped_address_decode head⟩

theorem padding_add_four (n : Nat) : padding (n + 4) = padding n := by
  simp [padding]

theorem padding_lt (n : Nat) : padding n < 4 := by
  simp only [padding]
  split <;> omega

theorem attribute_encode_exact {buffer : List Byte} (type : BitVec 16) {content : List Byte}
    (h : buffer.length = 4 + content.length + padding content.length) :
    attribute_encode buffer type content = some (attribute_frame type content, buffer.length) := by
  rw [attribute_encode_eq type h.ge, ← h, drop_length, List.append_nil]

theorem get_type_frame (type : BitVec 16) (content : List Byte) :
    attribute_get_type (attribute_frame type content) = type := by
  simpa using attribute_get_type_append type content []

theorem get_length_frame (type : BitVec 16) (content : List Byte) :
    attribute_get_length (attribute_frame type content) = some (content.length % 2 ^ 16) := by
  simpa using attribute_get_length_append type content []

theorem TextAttribute.round_trip (a : TextAttribute) (hmax : a.max < 2 ^ 16) {content : List Byte}
    (h : a.validate content = true) : a.codec.RoundTrip content := by
  have hvalid := h
  simp only [TextAttribute.validate, Bool.and_eq_true, decide_eq_true_eq] at h
  obtain ⟨⟨hpos, hle⟩, -⟩ := h
  intro buffer hbuffer
  have hnot : ¬ (content.length = 0 ∨ a.max < content.length) := by omega
  have hnot' : ¬ (a.max < content.length ∨ content.length = 0) := by omega
  simp only [codec, encoding_length, if_neg hnot] at hbuffer
  have hsize : buffer.length = 4 + content.length + padding content.length := by omega
  have hmod : content.length % 2 ^ 16 = content.length := Nat.mod_eq_of_lt (by omega)
  have hframe : a.frame_is (attribute_frame a.type content) = true := by
    have height : 8 ≤ 4 + content.length + padding content.length := by
      simp only [padding]
      split <;> omega
    simp only [frame_is, length_attribute, get_type_frame, get_length_frame, hmod, Bool.and_eq_true,
      decide_eq_true_eq, and_true]
    omega
  refine ⟨attribute_frame a.type content, ?_, by rw [length_attribute, hsize], hframe, ?_⟩
  · simp only [codec, encode, if_neg hnot', encoding_length, if_neg hnot, hvalid,
      attribute_encode_exact a.type hsize, Bool.not_true, Bool.false_eq_true, if_false]
    rw [if_neg (by omega)]
  have htake := attribute_drop_take a.type content []
  rw [List.append_nil] at htake
  simp only [codec, decode, hframe, length_attribute, get_length_frame, hmod, htake, hvalid,
    Bool.not_true, Bool.false_eq_true, or_false]
  rw [if_neg (by omega), if_neg (by omega)]

theorem not_error_code_round_trip (code : BitVec 16) (phrase : List Byte) :
    ¬ error_code.RoundTrip (code, phrase) := by
  intro h
  obtain ⟨out, hencode, hlength, hframe, -⟩ := h (List.replicate (error_code_encoding_length phrase) 0)
    (by simp [error_code])
  simp only [error_code, length_replicate] at hencode hlength hframe
  rw [error_code_encode] at hencode
  split at hencode
  · simp at hencode
  rename_i hpos
  split at hencode
  · simp at hencode
  split at hencode
  · simp at hencode
  rename_i hmax
  split at hencode
  · simp at hencode
  split at hencode
  · simp at hencode
  have hcontent : (error_code_content code phrase).length = phrase.length + 4 := by simp [error_code_content]
  have hsize : error_code_encoding_length phrase = phrase.length + 8 + padding phrase.length := by
    rw [error_code_encoding_length, if_neg (by omega)]
  have hpad := padding_lt phrase.length
  rw [attribute_encode_exact] at hencode
  · simp only [some.injEq, Prod.mk.injEq] at hencode
    have hmod : (phrase.length + 4) % 2 ^ 16 = phrase.length + 4 := Nat.mod_eq_of_lt (by omega)
    rw [← hencode.1] at hframe
    simp only [frame_is_error_code, get_length_frame, hcontent, hmod, length_attribute,
      padding_add_four, Bool.and_eq_true, decide_eq_true_eq] at hframe
    omega
  rw [length_replicate, hsize, hcontent, padding_add_four]
  omega

theorem length_flatMap_be16 (array : List (BitVec 16)) : (array.flatMap be16).length = array.length * 2 := by
  induction array with
  | nil => rfl
  | cons type array ih =>
    simp only [flatMap_cons, length_append, length_be16, ih, length_cons]
    omega

theorem unknown_attributes_pointers_eq (before after : List Byte) (array : List (BitVec 16)) :
    unknown_attributes_pointers (before ++ (array.flatMap be16 ++ after)) before.length array.length =
      some array := by
  induction array generalizing before with
  | nil => rfl
  | cons type array ih =>
    have hread : read16 (before ++ ((type :: array).flatMap be16 ++ after)) before.length = some type := by
      rw [read16_eq_some, flatMap_cons, append_assoc]
      exact slice_mid before (be16 type) _ rfl rfl
    have hrest := ih (before ++ be16 type)
    rw [length_append, length_be16, append_assoc, ← append_assoc (be16 type)] at hrest
    rw [length_cons, unknown_attributes_pointers, hread, bind_some, flatMap_cons, hrest]
    rfl

theorem unknown_attributes_pointers_length {buffer : List Byte} {i n : Nat}
    {array : List (BitVec 16)} (h : unknown_attributes_pointers buffer i n = some array) :
    array.length = n := by
  induction n generalizing i array with
  | zero =>
    rw [unknown_attributes_pointers, some_inj] at h
    simp [← h]
  | succ n ih =>
    simp only [unknown_attributes_pointers, bind_eq_some_iff, map_eq_some_iff] at h
    obtain ⟨type, -, rest, hrest, rfl⟩ := h
    simp [ih hrest]

theorem unknown_attributes_round_trip_iff {array : List (BitVec 16)} (hpos : array ≠ []) :
    unknown_attributes.RoundTrip array ↔ array.length < 2 ^ 15 := by
  have hlength : 1 ≤ array.length := length_pos_of_ne_nil hpos
  have hsize : unknown_attributes_encoding_length array =
      4 + (array.flatMap be16).length + padding (array.flatMap be16).length := by
    rw [unknown_attributes_encoding_length, length_flatMap_be16, padding_add_four]
    omega
  have hencode : ∀ buffer : List Byte, buffer.length = unknown_attributes_encoding_length array →
      unknown_attributes_encode buffer array =
        some (attribute_frame 0x000A (array.flatMap be16), buffer.length) := by
    intro buffer hbuffer
    rw [unknown_attributes_encode, if_neg (by omega), if_neg (by omega)]
    exact attribute_encode_exact _ (hbuffer.trans hsize)
  constructor
  · intro h
    obtain ⟨out, hout, -, -, hdecode⟩ := h (List.replicate (unknown_attributes_encoding_length array) 0)
      (length_replicate ..)
    have hout' := hout
    simp only [unknown_attributes] at hout' hdecode
    rw [hencode _ (length_replicate ..)] at hout'
    simp only [some.injEq, Prod.mk.injEq] at hout'
    rw [← hout'.1, unknown_attributes_decode, get_length_frame, length_flatMap_be16] at hdecode
    split at hdecode
    · simp at hdecode
    have hread := unknown_attributes_pointers_length hdecode
    omega
  intro h buffer hbuffer
  have hmod : array.length * 2 % 2 ^ 16 = array.length * 2 := Nat.mod_eq_of_lt (by omega)
  have hframe : frame_is_unknown_attributes (attribute_frame 0x000A (array.flatMap be16)) = true := by
    have height : 8 ≤ 4 + array.length * 2 + padding (array.length * 2) := by
      simp only [padding]
      split <;> omega
    simp only [frame_is_unknown_attributes, length_attribute, get_type_frame, get_length_frame,
      length_flatMap_be16, hmod, Bool.and_eq_true, decide_eq_true_eq, and_true]
    omega
  refine ⟨_, hencode buffer hbuffer, ?_, hframe, ?_⟩
  · rw [length_attribute, ← hsize]
    exact hbuffer.symm
  have hpointers := unknown_attributes_pointers_eq
    (be16 0x000A ++ be16 (BitVec.ofNat 16 (array.flatMap be16).length))
    (List.replicate (padding (array.flatMap be16).length) 0) array
  rw [append_assoc] at hpointers
  have hhalf : (array.length * 2 + 1) / 2 = array.length := by omega
  simp only [unknown_attributes, unknown_attributes_decode, hframe, Bool.not_true,
    Bool.false_eq_true, if_false, get_length_frame, length_flatMap_be16, hmod, hhalf]
  rw [length_flatMap_be16] at hpointers
  rw [attribute_frame, length_flatMap_be16]
  exact hpointers

theorem xor_xor_cancel {w : Nat} (x y : BitVec w) : x ^^^ y ^^^ y = x := by
  rw [BitVec.xor_assoc, BitVec.xor_self, BitVec.xor_zero]

theorem zipWith_xor_cancel {ip mask : List Byte} (h : ip.length ≤ mask.length) :
    List.zipWith (· ^^^ ·) (List.zipWith (· ^^^ ·) ip mask) mask = ip := by
  induction ip generalizing mask with
  | nil => simp
  | cons x ip ih =>
    cases mask with
    | nil => simp at h
    | cons y mask =>
      simp only [zipWith_cons_cons, xor_xor_cancel]
      rw [ih (by simpa using h)]

theorem xor_header_xor_header {head ip : List Byte} (hhead : 20 ≤ head.length) (hip : ip.length = 16) :
    xor_header head (xor_header head ip) = ip := by
  apply zipWith_xor_cancel
  simp only [length_take, length_drop]
  omega

section

variable (size : BitVec 16) (family : Byte) (port : BitVec 16) (ip : List Byte)

theorem length_xor_mapped_address_frame :
    (xor_mapped_address_frame size family port ip).length = 8 + ip.length := by
  simp only [xor_mapped_address_frame, length_append, length_be16, length_cons, length_nil]
  omega

theorem get_type_xor_mapped_address_frame :
    attribute_get_type (xor_mapped_address_frame size family port ip) = 0x0020 := by
  have hread : read16 (xor_mapped_address_frame size family port ip) 0 = some 0x0020 :=
    read16_eq_some.mpr rfl
  simp [attribute_get_type, hread]

theorem get_length_xor_mapped_address_frame :
    attribute_get_length (xor_mapped_address_frame size family port ip) = some size.toNat := by
  have hread : read16 (xor_mapped_address_frame size family port ip) 2 = some size :=
    read16_eq_some.mpr rfl
  simp [attribute_get_length, hread]

theorem read8_xor_mapped_address_frame :
    read8 (xor_mapped_address_frame size family port ip) 5 = some family :=
  read8_eq_some.mpr rfl

theorem read16_xor_mapped_address_frame :
    read16 (xor_mapped_address_frame size family port ip) 6 = some port :=
  read16_eq_some.mpr rfl

theorem slice_xor_mapped_address_frame :
    slice (xor_mapped_address_frame size family port ip) 8 ip.length = ip := by
  have hsplit : xor_mapped_address_frame size family port ip =
      (be16 0x0020 ++ (be16 size ++ ([0, family] ++ be16 port))) ++ (ip ++ []) := by
    simp [xor_mapped_address_frame]
  rw [hsplit]
  exact slice_mid _ ip [] rfl rfl

end

theorem xor_mapped_address_round_trip {head : List Byte} (hhead : 20 ≤ head.length) {address : Address}
    (h : address.WellFormed) : (xor_mapped_address head).RoundTrip address := by
  intro buffer hbuffer
  cases address with
  | ipv4 port ip =>
    simp only [xor_mapped_address, xor_mapped_address_encoding_length] at hbuffer
    have hdrop : buffer.drop 12 = [] := drop_eq_nil_of_le (by omega)
    have hip := slice_xor_mapped_address_frame 8 1 (port ^^^ 0x2112) (be32 (ip ^^^ 0x2112A442))
    rw [length_be32, ← read32_eq_some] at hip
    have hframe : frame_is_xor_mapped_address
        (xor_mapped_address_frame 8 1 (port ^^^ 0x2112) (be32 (ip ^^^ 0x2112A442))) = true := by
      simp [frame_is_xor_mapped_address, length_xor_mapped_address_frame,
        get_type_xor_mapped_address_frame, get_length_xor_mapped_address_frame,
        read8_xor_mapped_address_frame]
    refine ⟨xor_mapped_address_frame 8 1 (port ^^^ 0x2112) (be32 (ip ^^^ 0x2112A442)), ?_, ?_, hframe, ?_⟩
    · simp only [xor_mapped_address, xor_mapped_address_encode]
      rw [if_neg (by omega), hdrop, List.append_nil, hbuffer]
    · rw [length_xor_mapped_address_frame, length_be32, hbuffer]
    simp only [xor_mapped_address, xor_mapped_address_decode, hframe, read8_xor_mapped_address_frame,
      read16_xor_mapped_address_frame, hip, xor_xor_cancel, Bool.not_true, Bool.false_eq_true,
      if_false, if_true, bind_some, map_some]
  | ipv6 port ip =>
    simp only [xor_mapped_address, xor_mapped_address_encoding_length] at hbuffer
    have hlength : (xor_header head ip).length = 16 := by
      have hip : ip.length = 16 := h
      simp only [xor_header, length_zipWith, length_take, length_drop]
      omega
    have hdrop : buffer.drop 24 = [] := drop_eq_nil_of_le (by omega)
    have hip := slice_xor_mapped_address_frame 20 2 (port ^^^ 0x2112) (xor_header head ip)
    rw [hlength] at hip
    have hframe : frame_is_xor_mapped_address
        (xor_mapped_address_frame 20 2 (port ^^^ 0x2112) (xor_header head ip)) = true := by
      simp [frame_is_xor_mapped_address, length_xor_mapped_address_frame, hlength,
        get_type_xor_mapped_address_frame, get_length_xor_mapped_address_frame,
        read8_xor_mapped_address_frame]
    refine ⟨xor_mapped_address_frame 20 2 (port ^^^ 0x2112) (xor_header head ip), ?_, ?_, hframe, ?_⟩
    · simp only [xor_mapped_address, xor_mapped_address_encode]
      rw [if_neg (by omega), if_neg (by omega), hdrop, List.append_nil, hbuffer]
    · rw [length_xor_mapped_address_frame, hlength, hbuffer]
    have hne : ¬ (2 : Byte) = 1 := by decide
    simp only [xor_mapped_address, xor_mapped_address_decode, hframe, read8_xor_mapped_address_frame,
      read16_xor_mapped_address_frame, hip, xor_xor_cancel, xor_header_xor_header hhead h,
      Bool.not_true, Bool.false_eq_true, if_false, if_true, if_neg hne, map_some]

/-- An attribute with its content. -/
inductive AttributeValue
  | username (content : List Byte)
  | realm (content : List Byte)
  | nonce (content : List Byte)
  | software (content : List Byte)
  | error_code (code : BitVec 16) (phrase : List Byte)
  | unknown_attributes (array : List (BitVec 16))
  | xor_mapped_address (address : Address)

namespace AttributeValue

/-- What an encoder is there for. -/
def Supported : AttributeValue → Prop
  | username content => stun.username.validate content = true
  | realm content => stun.realm.validate content = true
  | nonce content => stun.nonce.validate content = true
  | software content => stun.software.validate content = true
  | error_code code phrase => 300 ≤ code.toNat ∧ code.toNat ≤ 699 ∧ phrase.length ≤ 763
  | unknown_attributes array => array ≠ []
  | xor_mapped_address address => address.WellFormed

def RoundTrip (head : List Byte) : AttributeValue → Prop
  | username content => stun.username.codec.RoundTrip content
  | realm content => stun.realm.codec.RoundTrip content
  | nonce content => stun.nonce.codec.RoundTrip content
  | software content => stun.software.codec.RoundTrip content
  | error_code code phrase => stun.error_code.RoundTrip (code, phrase)
  | unknown_attributes array => stun.unknown_attributes.RoundTrip array
  | xor_mapped_address address => (stun.xor_mapped_address head).RoundTrip address

/-- No error code, and no more unknown attributes than the length field can count. -/
def Fits : AttributeValue → Prop
  | error_code _ _ => False
  | unknown_attributes array => array.length < 2 ^ 15
  | _ => True

/-- Attributes come back exactly when they fit. -/
theorem attribute_round_trip_iff {head : List Byte} (hhead : 20 ≤ head.length) {v : AttributeValue}
    (h : v.Supported) : v.RoundTrip head ↔ v.Fits := by
  cases v with
  | username content => exact iff_of_true (stun.username.round_trip (by decide) h) trivial
  | realm content => exact iff_of_true (stun.realm.round_trip (by decide) h) trivial
  | nonce content => exact iff_of_true (stun.nonce.round_trip (by decide) h) trivial
  | software content => exact iff_of_true (stun.software.round_trip (by decide) h) trivial
  | error_code code phrase => exact iff_of_false (not_error_code_round_trip code phrase) id
  | unknown_attributes array => exact unknown_attributes_round_trip_iff h
  | xor_mapped_address address => exact iff_of_true (xor_mapped_address_round_trip hhead h) trivial

theorem round_trip_name : (username [0x61, 0x62, 0x63]).RoundTrip (List.replicate 20 0) :=
  (attribute_round_trip_iff (by decide) (v := username [0x61, 0x62, 0x63]) rfl).mpr trivial

/-- "420 x" is written to twelve octets, and the frame of twelve octets is not recognised. -/
theorem error_code_not_recognised :
    (∃ out, stun.error_code.encode (List.replicate 12 0) (420, [0x78]) = some (out, 12) ∧
      stun.error_code.frame_is out = false) ∧
    ¬ (error_code 420 [0x78]).RoundTrip (List.replicate 20 0) :=
  ⟨⟨_, rfl, rfl⟩, not_error_code_round_trip 420 [0x78]⟩

end AttributeValue

end openvocs.stun
