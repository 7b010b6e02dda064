import Openvocs.Stun.Codec
import Openvocs.Stun.Frame

namespace openvocs.stun

open bytes TextAttribute

/-- What `ov_stun_generate_binding_request` is called with. -/
structure BindingRequest where
  transaction_id : List Byte
  software : Option (List Byte)
  username : Option (List Byte)
  realm : Option (List Byte)
  nonce : Option (List Byte)
  key : Option (List Byte)
  integrity : Bool
  fingerprint : Bool
deriving DecidableEq

/-- The length of an attribute that may be left out. -/
def optional_length (a : TextAttribute) : Option (List Byte) → Option Nat
  | none => some 0
  | some content => if a.encoding_length content = 0 then none else some (a.encoding_length content)

/-- An attribute that may be left out is written at a pointer. -/
def optional_encode (a : TextAttribute) (content : Option (List Byte)) (at_ptr : List Byte × Nat) :
    Option (List Byte × Nat) :=
  match content with
  | none => some at_ptr
  | some content =>
    (a.encode (at_ptr.1.drop at_ptr.2) content).map fun (tail, size) =>
      (at_ptr.1.take at_ptr.2 ++ tail, at_ptr.2 + size)

/-- The octets that a request needs. -/
def BindingRequest.required (r : BindingRequest) : Option Nat := do
  if r.software.any fun content => !stun.software.validate content then none
  let software_length ← optional_length stun.software r.software
  if r.integrity && !r.key.any fun key => 1 ≤ key.length then none
  let username_length ← optional_length stun.username r.username
  let realm_length ← optional_length stun.realm r.realm
  let nonce_length ← optional_length stun.nonce r.nonce
  some (20 + software_length + (if r.integrity then 24 else 0) + (if r.fingerprint then 8 else 0) +
    username_length + realm_length + nonce_length)

variable (hmac : List Byte → List Byte → Vector Byte 20) (crc32 : List Byte → BitVec 32)

/-- The header that `ov_stun_generate_binding_request` writes into the octets it has cleared. -/
def write_header (buffer : List Byte) (length : Nat) (id : List Byte) : Option (List Byte) := do
  let buffer ← frame_set_request buffer
  let buffer ← frame_set_method buffer 0x001
  let buffer ← frame_set_magic_cookie buffer
  let buffer ← frame_set_length buffer length
  frame_set_transaction_id buffer id

/-- The integrity attribute is added at a pointer when it is asked for. -/
def optional_integrity (r : BindingRequest) (at_ptr : List Byte × Nat) : Option (List Byte × Nat) :=
  if r.integrity then
    match r.key with
    | none => none
    | some key => add_message_integrity hmac at_ptr.1 at_ptr.2 key
  else some at_ptr

/-- The fingerprint is added at a pointer when it is asked for. -/
def optional_fingerprint (r : BindingRequest) (at_ptr : List Byte × Nat) : Option (List Byte × Nat) :=
  if r.fingerprint then add_fingerprint crc32 at_ptr.1 at_ptr.2 else some at_ptr

def generate_binding_request (r : BindingRequest) (buffer : List Byte) : Option (List Byte × Nat) := do
  if buffer.length < 20 then none
  let required ← r.required
  if buffer.length < required then none
  let buffer ← write_header (List.replicate required 0 ++ buffer.drop required) (required - 20)
    r.transaction_id
  let at_ptr ← optional_encode username r.username (buffer, 20)
  let at_ptr ← optional_encode realm r.realm at_ptr
  let at_ptr ← optional_encode nonce r.nonce at_ptr
  let at_ptr ← optional_encode software r.software at_ptr
  let at_ptr ← optional_integrity hmac r at_ptr
  optional_fingerprint crc32 r at_ptr

/-- The header of a message of some type. -/
def message_header (type : BitVec 16) (id : List Byte) (length : Nat) : List Byte :=
  be16 type ++ (be16 (BitVec.ofNat 16 length) ++ ([0x21, 0x12, 0xA4, 0x42] ++ id))

/-- The header of a binding request. -/
def header (id : List Byte) (length : Nat) : List Byte :=
  [0, 1] ++ (be16 (BitVec.ofNat 16 length) ++ ([0x21, 0x12, 0xA4, 0x42] ++ id))

theorem header_eq (id : List Byte) (length : Nat) : header id length = message_header 0x0001 id length := rfl

/-- The octets of a row of attributes. -/
def octets (attributes : List (BitVec 16 × List Byte)) : List Byte :=
  attributes.flatMap fun a => attribute_frame a.1 a.2

/-- A text attribute in a row, when it is there. -/
def TextAttribute.row (a : TextAttribute) (content : Option (List Byte)) :
    List (BitVec 16 × List Byte) :=
  content.toList.map fun content => (a.type, content)

namespace BindingRequest

variable (r : BindingRequest)

def text_attributes : List (BitVec 16 × List Byte) :=
  stun.username.row r.username ++
    (stun.realm.row r.realm ++ (stun.nonce.row r.nonce ++ stun.software.row r.software))

/-- The integrity attribute over a header with the length up to its end. -/
def integrity_attributes : List (BitVec 16 × List Byte) :=
  if r.integrity then
    [(0x0008, (hmac (r.key.getD []) (header r.transaction_id ((octets r.text_attributes).length + 24) ++
      octets r.text_attributes)).toList)]
  else []

/-- All but the fingerprint. -/
def covered_attributes : List (BitVec 16 × List Byte) := r.text_attributes ++ r.integrity_attributes hmac

def fingerprint_attributes : List (BitVec 16 × List Byte) :=
  if r.fingerprint then
    [(0x8028, be32 (crc32 (header r.transaction_id ((octets (r.covered_attributes hmac)).length + 8) ++
      octets (r.covered_attributes hmac)) ^^^ 0x5354554e))]
  else []

def attributes : List (BitVec 16 × List Byte) :=
  r.covered_attributes hmac ++ r.fingerprint_attributes hmac crc32

/-- The whole request. -/
def message : List Byte :=
  header r.transaction_id (octets (r.attributes hmac crc32)).length ++ octets (r.attributes hmac crc32)

/-- The arguments that the encoders accept. -/
structure Accepted : Prop where
  transaction_id : r.transaction_id.length = 12
  username : ∀ content ∈ r.username, stun.username.validate content = true
  realm : ∀ content ∈ r.realm, stun.realm.validate content = true
  nonce : ∀ content ∈ r.nonce, stun.nonce.validate content = true
  software : ∀ content ∈ r.software, stun.software.validate content = true
  key : r.integrity = true → ∃ key, r.key = some key ∧ key ≠ []

end BindingRequest

variable {id : List Byte}

@[simp] theorem length_message_header (type : BitVec 16) (h : id.length = 12) (length : Nat) :
    (message_header type id length).length = 20 := by
  simp [message_header, h]

@[simp] theorem length_header (h : id.length = 12) (length : Nat) : (header id length).length = 20 :=
  length_message_header 0x0001 h length

@[simp] theorem octets_append (as bs : List (BitVec 16 × List Byte)) :
    octets (as ++ bs) = octets as ++ octets bs := by
  simp [octets]

@[simp] theorem octets_nil : octets [] = [] := rfl

@[simp] theorem octets_singleton (type : BitVec 16) (content : List Byte) :
    octets [(type, content)] = attribute_frame type content := by
  simp [octets]

theorem write_mid {before old after new : List Byte} {i : Nat} (hi : before.length = i)
    (hnew : new.length = old.length) :
    write (before ++ (old ++ after)) i new = before ++ (new ++ after) := by
  subst hi
  rw [write, List.take_left, ← List.drop_drop, List.drop_left, hnew, List.drop_left]

theorem frame_set_length_message_header (type : BitVec 16) (h : id.length = 12)
    (length other : Nat) (rest : List Byte) :
    frame_set_length (message_header type id length ++ rest) other = some (message_header type id other ++ rest) := by
  have hsize : ¬ (message_header type id length ++ rest).length < 20 := by
    rw [List.length_append, length_message_header type h]
    omega
  rw [frame_set_length, if_neg hsize, message_header, message_header]
  simp only [List.append_assoc]
  exact congrArg some (write_mid (by rfl) (by rfl))

theorem frame_set_length_header (h : id.length = 12) (length other : Nat) (rest : List Byte) :
    frame_set_length (header id length ++ rest) other = some (header id other ++ rest) :=
  frame_set_length_message_header 0x0001 h length other rest

theorem frame_get_length_message_header (type : BitVec 16) (id : List Byte) (length : Nat) (rest : List Byte) :
    frame_get_length (message_header type id length ++ rest) = some (length % 2 ^ 16) := by
  have hread : read16 (message_header type id length ++ rest) 2 = some (BitVec.ofNat 16 length) := by
    rw [read16_eq_some, message_header]
    simp only [List.append_assoc]
    exact slice_mid (be16 type) (be16 _) _ rfl rfl
  simp [frame_get_length, hread]

theorem frame_set_transaction_id_message (type : BitVec 16) {id other : List Byte} (hother : other.length = 12)
    (hid : id.length = 12) (length : Nat) (rest : List Byte) :
    frame_set_transaction_id (message_header type other length ++ rest) id =
      some (message_header type id length ++ rest) := by
  have hsize : ¬ (message_header type other length ++ rest).length < 20 := by
    rw [List.length_append, length_message_header type hother]
    omega
  have hsplit (id : List Byte) : message_header type id length ++ rest =
      (be16 type ++ (be16 (BitVec.ofNat 16 length) ++ [0x21, 0x12, 0xA4, 0x42])) ++ (id ++ rest) := by
    simp [message_header]
  rw [frame_set_transaction_id, if_neg hsize, hsplit, hsplit]
  exact congrArg some (write_mid (by rfl) (hid.trans hother.symm))

variable {a : TextAttribute}

theorem TextAttribute.encoding_length_eq {content : List Byte} (h : a.validate content = true) :
    a.encoding_length content = 4 + content.length + padding content.length ∧ 0 < content.length ∧
      content.length ≤ a.max := by
  simp only [validate, Bool.and_eq_true, decide_eq_true_eq] at h
  rw [encoding_length, if_neg (by omega)]
  omega

theorem optional_length_eq {content : Option (List Byte)} (h : ∀ c ∈ content, a.validate c = true) :
    optional_length a content = some (octets (a.row content)).length := by
  cases content with
  | none => rfl
  | some content =>
    obtain ⟨hsize, hpos, -⟩ := encoding_length_eq (h content rfl)
    rw [optional_length, hsize, if_neg (by omega)]
    simp [row]

theorem optional_encode_eq {content : Option (List Byte)}
    (h : ∀ c ∈ content, a.validate c = true) (before tail : List Byte)
    (htail : (octets (a.row content)).length ≤ tail.length) :
    optional_encode a content (before ++ tail, before.length) =
      some ((before ++ octets (a.row content)) ++ tail.drop (octets (a.row content)).length,
        (before ++ octets (a.row content)).length) := by
  cases content with
  | none => simp [optional_encode, row]
  | some content =>
    obtain ⟨hsize, hpos, hmax⟩ := encoding_length_eq (h content rfl)
    have hrow : octets (a.row (some content)) = attribute_frame a.type content := by simp [row]
    rw [hrow, length_attribute] at htail
    have hencode : a.encode tail content =
        some (attribute_frame a.type content ++ tail.drop (4 + content.length + padding content.length),
          4 + content.length + padding content.length) := by
      rw [TextAttribute.encode, if_neg (by omega), hsize, if_neg (by omega), h content rfl]
      exact attribute_encode_eq a.type htail
    rw [hrow]
    simp [optional_encode, hencode, length_attribute]

variable (message_type : BitVec 16)

theorem write_checksum (hid : id.length = 12) (length other : Nat)
    (body tail : List Byte) (type : BitVec 16) {n : Nat} (hpad : padding n = 0)
    (htail : 4 + n ≤ tail.length) :
    ∃ patched, frame_set_length (write (message_header message_type id length ++ body ++ tail) (20 + body.length)
          (be16 type ++ be16 (BitVec.ofNat 16 n))) other = some patched ∧
      patched.take (20 + body.length) = message_header message_type id other ++ body ∧
      ∀ content : List Byte, content.length = n →
        write patched (20 + body.length + 4) content =
          message_header message_type id other ++ (body ++ attribute_frame type content) ++ tail.drop (4 + n) := by
  obtain ⟨start, old, rest, rfl, hstart, hold⟩ :
      ∃ start old rest, tail = start ++ (old ++ rest) ∧ start.length = 4 ∧ old.length = n := by
    refine ⟨tail.take 4, (tail.drop 4).take n, (tail.drop 4).drop n, ?_, ?_, ?_⟩
    · rw [List.take_append_drop, List.take_append_drop]
    · rw [List.length_take]
      omega
    rw [List.length_take, List.length_drop]
    omega
  have hlength : (message_header message_type id length ++ body).length = 20 + body.length := by
    rw [List.length_append, length_message_header message_type hid]
  have hlength' : (message_header message_type id other ++ body).length = 20 + body.length := by
    rw [List.length_append, length_message_header message_type hid]
  have hdrop : List.drop (4 + n) (start ++ (old ++ rest)) = rest := by
    rw [← List.drop_drop, ← hstart, List.drop_left, ← hold, List.drop_left]
  rw [write_mid hlength (by rw [hstart]; rfl), List.append_assoc, frame_set_length_message_header message_type hid]
  refine ⟨_, rfl, ?_, ?_⟩
  · rw [← List.append_assoc]
    exact List.take_left' hlength'
  intro content hcontent
  have hframe : attribute_frame type content =
      be16 type ++ be16 (BitVec.ofNat 16 n) ++ content := by
    simp [attribute_frame, hcontent, hpad]
  rw [hdrop, hframe, ← List.append_assoc, ← List.append_assoc]
  rw [write_mid (by rw [List.length_append, hlength']; rfl) (hcontent.trans hold.symm)]
  simp

theorem add_message_integrity_message {id key : List Byte} (hid : id.length = 12)
    (hkey : key ≠ []) (length : Nat) (body tail : List Byte) (hbody : body.length % 4 = 0) (htail : 24 ≤ tail.length) :
    add_message_integrity hmac (message_header message_type id length ++ body ++ tail) (20 + body.length) key =
      some (message_header message_type id (body.length + 24) ++ (body ++ attribute_frame 0x0008
          (hmac key (message_header message_type id (body.length + 24) ++ body)).toList) ++ tail.drop 24,
        20 + body.length + 24) := by
  have hpos : 0 < key.length := List.length_pos_of_ne_nil hkey
  have hlength : (message_header message_type id length ++ body ++ tail).length = 20 + body.length + tail.length := by
    rw [List.length_append, List.length_append, length_message_header message_type hid]
  have hnum : 20 + body.length + 24 - 20 = body.length + 24 := by omega
  obtain ⟨patched, hset, htake, hwrite⟩ := write_checksum message_type hid length (body.length + 24) body tail
    0x0008 (n := 20) rfl htail
  rw [add_message_integrity, hlength, if_neg (by omega), if_neg (by omega), if_neg (by omega), hnum]
  show Option.map _ (frame_set_length (write _ _ (be16 0x0008 ++ be16 (BitVec.ofNat 16 20))) _) = _
  rw [hset, Option.map_some, htake, hwrite _ (Vector.length_toList ..)]

theorem add_fingerprint_message (hid : id.length = 12) (length : Nat)
    (body tail : List Byte) (hbody : body.length % 4 = 0) (htail : 8 ≤ tail.length) :
    add_fingerprint crc32 (message_header message_type id length ++ body ++ tail) (20 + body.length) =
      some (message_header message_type id (body.length + 8) ++ (body ++ attribute_frame 0x8028
          (be32 (crc32 (message_header message_type id (body.length + 8) ++ body) ^^^ 0x5354554e))) ++ tail.drop 8,
        20 + body.length + 8) := by
  have hlength : (message_header message_type id length ++ body ++ tail).length = 20 + body.length + tail.length := by
    rw [List.length_append, List.length_append, length_message_header message_type hid]
  have hnum : 20 + body.length + 8 - 20 = body.length + 8 := by omega
  obtain ⟨patched, hset, htake, hwrite⟩ := write_checksum message_type hid length (body.length + 8) body tail
    0x8028 (n := 4) rfl htail
  rw [add_fingerprint, hlength, if_neg (by omega), if_neg (by omega), if_neg (by omega), if_neg (by omega), hnum]
  show Option.map _ (frame_set_length (write _ _ (be16 0x8028 ++ be16 (BitVec.ofNat 16 4))) _) = _
  rw [hset, Option.map_some, htake, hwrite _ (length_be32 _)]

theorem add_message_integrity_eq {id key : List Byte} (hid : id.length = 12) (hkey : key ≠ [])
    (length : Nat) (body tail : List Byte) (hbody : body.length % 4 = 0) (htail : 24 ≤ tail.length) :
    add_message_integrity hmac (header id length ++ body ++ tail) (20 + body.length) key =
      some (header id (body.length + 24) ++ (body ++ attribute_frame 0x0008
          (hmac key (header id (body.length + 24) ++ body)).toList) ++ tail.drop 24,
        20 + body.length + 24) :=
  add_message_integrity_message hmac 0x0001 hid hkey length body tail hbody htail

theorem add_fingerprint_eq (hid : id.length = 12) (length : Nat)
    (body tail : List Byte) (hbody : body.length % 4 = 0) (htail : 8 ≤ tail.length) :
    add_fingerprint crc32 (header id length ++ body ++ tail) (20 + body.length) =
      some (header id (body.length + 8) ++ (body ++ attribute_frame 0x8028
          (be32 (crc32 (header id (body.length + 8) ++ body) ^^^ 0x5354554e))) ++ tail.drop 8,
        20 + body.length + 8) :=
  add_fingerprint_message crc32 0x0001 hid length body tail hbody htail

theorem write_header_eq (hid : id.length = 12) (length : Nat) (rest : List Byte) :
    write_header (List.replicate 20 0 ++ rest) length id = some (header id length ++ rest) := by
  have hsize (l : List Byte) (hl : 20 ≤ l.length) : ¬ l.length < 20 := by omega
  have hrequest : frame_set_request (List.replicate 20 0 ++ rest) = some (List.replicate 20 0 ++ rest) := by
    rw [frame_set_request, if_neg (hsize _ (by simp))]
    rfl
  have hmethod : frame_set_method (List.replicate 20 0 ++ rest) 0x001 =
      some ([0, 1] ++ ([0, 0] ++ (List.replicate 4 0 ++ (List.replicate 12 0 ++ rest)))) := by
    rw [frame_set_method, if_neg (by simp)]
    rfl
  have hcookie : frame_set_magic_cookie
      ([0, 1] ++ ([0, 0] ++ (List.replicate 4 0 ++ (List.replicate 12 0 ++ rest)))) =
        some ([0, 1] ++ ([0, 0] ++ ([0x21, 0x12, 0xA4, 0x42] ++ (List.replicate 12 0 ++ rest)))) := by
    rw [frame_set_magic_cookie, if_neg (hsize _ (by simp))]
    rfl
  have hheader : [0, 1] ++ ([0, 0] ++ ([0x21, 0x12, 0xA4, 0x42] ++ (List.replicate 12 0 ++ rest))) =
      header (List.replicate 12 0) 0 ++ rest := rfl
  have hid' : frame_set_transaction_id (header (List.replicate 12 0) length ++ rest) id =
      some (header id length ++ rest) :=
    frame_set_transaction_id_message 0x0001 (List.length_replicate ..) hid length rest
  simp only [write_header, hrequest, hmethod, hcookie, hheader, frame_set_length_header (List.length_replicate ..),
    hid', Option.bind_eq_bind, Option.bind_some]

variable {r : BindingRequest}

theorem BindingRequest.length_message (h : r.Accepted) :
    (r.message hmac crc32).length = 20 + (octets (r.attributes hmac crc32)).length := by
  rw [message, List.length_append, length_header h.transaction_id]

theorem BindingRequest.required_eq (h : r.Accepted) : r.required = some (r.message hmac crc32).length := by
  have hsoftware : (r.software.any fun content => !stun.software.validate content) = false := by
    cases hcontent : r.software with
    | none => rfl
    | some content => simp [h.software content hcontent]
  have hkey : (r.integrity && !r.key.any fun key => 1 ≤ key.length) = false := by
    cases hintegrity : r.integrity with
    | false => rfl
    | true =>
      obtain ⟨key, hkey, hne⟩ := h.key hintegrity
      have := List.length_pos_of_ne_nil hne
      simp [hkey]
      omega
  have hintegrity : (octets (r.integrity_attributes hmac)).length = if r.integrity then 24 else 0 := by
    rw [integrity_attributes]
    split <;> simp [show padding 20 = 0 from rfl]
  have hfingerprint : (octets (r.fingerprint_attributes hmac crc32)).length =
      if r.fingerprint then 8 else 0 := by
    rw [fingerprint_attributes]
    split <;> simp [show padding 4 = 0 from rfl]
  rw [required, hsoftware, hkey, optional_length_eq h.software, optional_length_eq h.username,
    optional_length_eq h.realm, optional_length_eq h.nonce, length_message hmac crc32 h]
  simp only [Bool.false_eq_true, if_false, Option.bind_eq_bind, Option.bind_some, attributes,
    covered_attributes, text_attributes, octets_append, List.length_append, hintegrity, hfingerprint]
  congr 1
  omega

theorem octets_mod_four (as : List (BitVec 16 × List Byte)) : (octets as).length % 4 = 0 := by
  induction as with
  | nil => rfl
  | cons a as ih =>
    have hframe : (attribute_frame a.1 a.2).length % 4 = 0 := by
      rw [length_attribute, padding]
      split <;> omega
    have hcons : octets (a :: as) = attribute_frame a.1 a.2 ++ octets as := rfl
    rw [hcons, List.length_append]
    omega

theorem text_steps (h : r.Accepted) (length : Nat) (tail : List Byte)
    (htail : (octets r.text_attributes).length ≤ tail.length) :
    ∃ first second third,
      optional_encode username r.username (header r.transaction_id length ++ tail, 20) = some first ∧
      optional_encode realm r.realm first = some second ∧
      optional_encode nonce r.nonce second = some third ∧
      optional_encode software r.software third =
        some (header r.transaction_id length ++ octets r.text_attributes ++
            tail.drop (octets r.text_attributes).length,
          20 + (octets r.text_attributes).length) := by
  simp only [BindingRequest.text_attributes, octets_append, List.length_append] at htail ⊢
  have hfirst := optional_encode_eq h.username (header r.transaction_id length) tail (by omega)
  have hsecond := optional_encode_eq h.realm (header r.transaction_id length ++ octets (username.row r.username))
    (tail.drop (octets (username.row r.username)).length) (by rw [List.length_drop]; omega)
  have hthird := optional_encode_eq h.nonce (header r.transaction_id length ++
      octets (username.row r.username) ++ octets (realm.row r.realm))
    ((tail.drop (octets (username.row r.username)).length).drop (octets (realm.row r.realm)).length)
    (by rw [List.length_drop, List.length_drop]; omega)
  have hfourth := optional_encode_eq h.software (header r.transaction_id length ++
      octets (username.row r.username) ++ octets (realm.row r.realm) ++ octets (nonce.row r.nonce))
    (((tail.drop (octets (username.row r.username)).length).drop (octets (realm.row r.realm)).length).drop
      (octets (nonce.row r.nonce)).length)
    (by rw [List.length_drop, List.length_drop, List.length_drop]; omega)
  rw [length_header h.transaction_id] at hfirst
  refine ⟨_, _, _, hfirst, hsecond, hthird, hfourth.trans ?_⟩
  simp [length_header h.transaction_id, Nat.add_assoc]

theorem integrity_step (h : r.Accepted) (length : Nat) (tail : List Byte)
    (htail : (octets (r.integrity_attributes hmac)).length ≤ tail.length) :
    optional_integrity hmac r (header r.transaction_id length ++ octets r.text_attributes ++ tail,
        20 + (octets r.text_attributes).length) =
      some (header r.transaction_id (if r.integrity then (octets (r.covered_attributes hmac)).length else length) ++
          octets (r.covered_attributes hmac) ++ tail.drop (octets (r.integrity_attributes hmac)).length,
        20 + (octets (r.covered_attributes hmac)).length) := by
  rw [optional_integrity]
  cases hintegrity : r.integrity with
  | false => simp [BindingRequest.covered_attributes, BindingRequest.integrity_attributes, hintegrity]
  | true =>
    obtain ⟨key, hkey, hne⟩ := h.key hintegrity
    have hrow : r.integrity_attributes hmac = [(0x0008, (hmac key
        (header r.transaction_id ((octets r.text_attributes).length + 24) ++
          octets r.text_attributes)).toList)] := by
      simp [BindingRequest.integrity_attributes, hintegrity, hkey]
    have hsize : (octets (r.integrity_attributes hmac)).length = 24 := by simp [hrow, show padding 20 = 0 from rfl]
    have hadd := add_message_integrity_eq hmac h.transaction_id hne length (octets r.text_attributes)
      tail (octets_mod_four _) (by omega)
    simp only [if_true, hkey, hadd, BindingRequest.covered_attributes, octets_append, hsize, List.length_append]
    rw [hrow, octets_singleton]
    rfl

theorem fingerprint_step (h : r.Accepted) (length : Nat) (tail : List Byte)
    (htail : (octets (r.fingerprint_attributes hmac crc32)).length ≤ tail.length) :
    optional_fingerprint crc32 r (header r.transaction_id length ++ octets (r.covered_attributes hmac) ++ tail,
        20 + (octets (r.covered_attributes hmac)).length) =
      some (header r.transaction_id
          (if r.fingerprint then (octets (r.attributes hmac crc32)).length else length) ++
          octets (r.attributes hmac crc32) ++ tail.drop (octets (r.fingerprint_attributes hmac crc32)).length,
        20 + (octets (r.attributes hmac crc32)).length) := by
  rw [optional_fingerprint]
  cases hfingerprint : r.fingerprint with
  | false => simp [BindingRequest.attributes, BindingRequest.fingerprint_attributes, hfingerprint]
  | true =>
    have hrow : r.fingerprint_attributes hmac crc32 = [(0x8028, be32 (crc32
        (header r.transaction_id ((octets (r.covered_attributes hmac)).length + 8) ++
          octets (r.covered_attributes hmac)) ^^^ 0x5354554e))] := by
      simp only [BindingRequest.fingerprint_attributes, hfingerprint, if_true]
    have hsize : (octets (r.fingerprint_attributes hmac crc32)).length = 8 := by
      simp [hrow, show padding 4 = 0 from rfl]
    have hadd := add_fingerprint_eq crc32 h.transaction_id length (octets (r.covered_attributes hmac))
      tail (octets_mod_four _) (by omega)
    simp only [if_true, hadd, BindingRequest.attributes, octets_append, hsize, List.length_append]
    rw [hrow, octets_singleton]
    rfl

theorem generate_binding_request_eq (h : r.Accepted) {buffer : List Byte}
    (hbuffer : (r.message hmac crc32).length ≤ buffer.length) :
    generate_binding_request hmac crc32 r buffer =
      some (r.message hmac crc32 ++ buffer.drop (r.message hmac crc32).length, (r.message hmac crc32).length) := by
  have hlength := r.length_message hmac crc32 h
  have hzeros : List.replicate (r.message hmac crc32).length (0 : Byte) ++
      buffer.drop (r.message hmac crc32).length =
        List.replicate 20 0 ++ (List.replicate (octets (r.attributes hmac crc32)).length 0 ++
          buffer.drop (r.message hmac crc32).length) := by
    rw [← List.append_assoc, List.replicate_append_replicate, ← hlength]
  have hbody : (r.message hmac crc32).length - 20 = (octets (r.attributes hmac crc32)).length := by omega
  have hsizes : (octets (r.attributes hmac crc32)).length = (octets r.text_attributes).length +
      (octets (r.integrity_attributes hmac)).length +
        (octets (r.fingerprint_attributes hmac crc32)).length := by
    simp only [BindingRequest.attributes, BindingRequest.covered_attributes, octets_append, List.length_append]
  generalize hrest : buffer.drop (r.message hmac crc32).length = rest at hzeros ⊢
  obtain ⟨first, second, third, hfirst, hsecond, hthird, htext⟩ := text_steps h
    (octets (r.attributes hmac crc32)).length
    (List.replicate (octets (r.attributes hmac crc32)).length 0 ++ rest)
    (by simp only [List.length_append, List.length_replicate]; omega)
  have hintegrity := integrity_step hmac h (octets (r.attributes hmac crc32)).length
    ((List.replicate (octets (r.attributes hmac crc32)).length 0 ++ rest).drop
      (octets r.text_attributes).length)
    (by simp only [List.length_drop, List.length_append, List.length_replicate]; omega)
  have hfingerprint := fingerprint_step hmac crc32 h
    (if r.integrity then (octets (r.covered_attributes hmac)).length
      else (octets (r.attributes hmac crc32)).length)
    (((List.replicate (octets (r.attributes hmac crc32)).length 0 ++ rest).drop
      (octets r.text_attributes).length).drop (octets (r.integrity_attributes hmac)).length)
    (by simp only [List.length_drop, List.length_append, List.length_replicate]; omega)
  have hdrop : (((List.replicate (octets (r.attributes hmac crc32)).length (0 : Byte) ++ rest).drop
      (octets r.text_attributes).length).drop (octets (r.integrity_attributes hmac)).length).drop
        (octets (r.fingerprint_attributes hmac crc32)).length = rest := by
    rw [List.drop_drop, List.drop_drop]
    apply List.drop_left'
    rw [List.length_replicate]
    omega
  -- without a checksum behind it the length of the whole is in the header from the start
  have hfield : (if r.fingerprint then (octets (r.attributes hmac crc32)).length
      else if r.integrity then (octets (r.covered_attributes hmac)).length
      else (octets (r.attributes hmac crc32)).length) = (octets (r.attributes hmac crc32)).length := by
    cases hfinger : r.fingerprint with
    | true => rfl
    | false =>
      have hnone : r.attributes hmac crc32 = r.covered_attributes hmac := by
        simp [BindingRequest.attributes, BindingRequest.fingerprint_attributes, hfinger]
      rw [hnone]
      split <;> simp
  rw [hdrop, hfield] at hfingerprint
  rw [generate_binding_request, if_neg (by omega), r.required_eq hmac crc32 h]
  simp only [Option.bind_eq_bind, Option.bind_some]
  rw [if_neg (by omega), hrest, hzeros, hbody, write_header_eq h.transaction_id]
  simp only [Option.bind_some, hfirst, hsecond, hthird, htext, hintegrity, hfingerprint, hlength]
  rfl

end openvocs.stun
