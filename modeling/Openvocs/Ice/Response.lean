import Openvocs.Stun.Verify

namespace openvocs.ice.response

open bytes stun

/-- `ov_stun_attributes_get_type` over an array that ends at its first null pointer. -/
def attribute_of (buffer : List Byte) (attr : List (Option Nat)) (type : BitVec 16) : Option Nat :=
  attributes_get_type buffer type (attr.takeWhile Option.isSome).reduceOption

def frame_is_priority (buffer : List Byte) : Bool :=
  8 ≤ buffer.length && attribute_get_type buffer = 0x0024 && attribute_get_length buffer = some 4

/-- The tiebreaker in an attribute of some type. The length is the one that is handed over with the
pointer. -/
def tiebreaker_decode (type : BitVec 16) (buffer : List Byte) (length : Nat) : Option (BitVec 64) :=
  if length < 12 ∨ attribute_get_type buffer ≠ type ∨ attribute_get_length buffer ≠ some 8 then none
  else some (BitVec.ofNat 64 (number (slice buffer 4 8)))

def ice_controlled_decode : List Byte → Nat → Option (BitVec 64) := tiebreaker_decode 0x8029

def ice_controlling_decode : List Byte → Nat → Option (BitVec 64) := tiebreaker_decode 0x802A

/-- What a request is compared with of a pair. -/
structure Pair where
  /-- The gathering of the local candidate is `OV_ICE_GATHERING_SUCCESS`. -/
  gathered : Bool
  remote_addr : List Byte
  remote_port : BitVec 16

/-- The sender of a request. -/
structure Remote where
  host : List Byte
  port : BitVec 16
  sa : Address
  sa_well_formed : sa.WellFormed

/-- What is read of a session and of the stream of a base. -/
structure Session where
  uuid : List Byte
  pass : List Byte
  controlling : Bool
  tiebreaker : BitVec 64
  pairs : List Pair

section

variable (hmac : List Byte → List Byte → Vector Byte 20) (crc32 : List Byte → BitVec 32)

/-- There is no role conflict. The length that goes with the attribute of a controlled peer is counted
from the other attribute, and is the whole length or more when there is no other. -/
def roles_agree (s : Session) (buffer : List Byte) (attr_controlling attr_controlled : Option Nat) : Bool :=
  if s.controlling then
    match attr_controlling with
    | none => true
    | some i => (ice_controlling_decode (buffer.drop i) (buffer.length - i)).any (s.tiebreaker < ·)
  else
    match attr_controlled with
    | none => true
    | some i =>
      let length := buffer.length - attr_controlling.getD 0
      (ice_controlled_decode (buffer.drop i) length).any (· ≤ s.tiebreaker)

/-- The checks of `io_process_stun_request`: the password that the request was authenticated with,
when it is answered with success. -/
def accepted (s : Session) (buffer : List Byte) (attr : List (Option Nat)) : Option (List Byte) := do
  let attr_username ← attribute_of buffer attr 0x0006
  let _ ← attribute_of buffer attr 0x0008
  let attr_priority ← attribute_of buffer attr 0x0024
  let attr_controlling := attribute_of buffer attr 0x802A
  let attr_controlled := attribute_of buffer attr 0x8029
  guard (attr_controlling.isSome ∨ attr_controlled.isSome)
  guard (frame_is_priority (buffer.drop attr_priority))
  -- the length that is handed over is too large, but the attribute lies in the message
  let name ← username.decode (buffer.drop attr_username)
  guard (0x3A ∈ name)
  let ufrag := name.takeWhile (· ≠ 0x3A)
  guard (ufrag ≠ [] ∧ s.uuid ≠ [] ∧ ufrag = s.uuid)
  guard (check_message_integrity hmac buffer attr (some s.pass) true).1
  guard (roles_agree s buffer attr_controlling attr_controlled)
  return s.pass

def frame_set_success_response (buffer : List Byte) : Option (List Byte) :=
  if buffer.length < 20 then none
  else some ((buffer.modify 0 (· ||| 0x01)).modify 1 (· &&& 0xEF))

def frame_get_transaction_id (buffer : List Byte) : Option (List Byte) :=
  if buffer.length < 20 then none else some (slice buffer 8 12)

def attribute_set_length (buffer : List Byte) (length : Nat) : Option (List Byte) :=
  if buffer.length < 4 then none else some (write buffer 2 (be16 (BitVec.ofNat 16 length)))

def udp_payload_octets : Nat := 2048

/-- The response without its fingerprint, and where that begins. -/
def success_response (remote : Remote) (request pass : List Byte) : Option (List Byte × Nat) := do
  let response ← frame_set_success_response (List.replicate udp_payload_octets 0)
  let response ← frame_set_magic_cookie response
  let response ← frame_set_method response 0x001
  let response ← (frame_get_transaction_id request).bind (frame_set_transaction_id response)
  let (content, size) ← xor_mapped_address_encode response (response.drop 20) remote.sa
  let response ← frame_set_length (response.take 20 ++ content) size
  add_message_integrity hmac response (20 + size) pass

/-- The loop over the pairs, with what is sent to each of them. It ends when a fingerprint has no
room. -/
def answer_pairs (response : List Byte) (response_length : Nat) : List Pair → List (Pair × List Byte)
  | [] => []
  | pair :: pairs =>
    match (attribute_set_length response (response_length - 20)).bind (add_fingerprint crc32 · response_length) with
    | none => []
    | some (response, _) =>
      (pair, response.take (response_length + 8)) :: answer_pairs response (response_length + 8) pairs

/-- The pairs that a request belongs to. -/
def matching_pairs (s : Session) (remote : Remote) : List Pair :=
  s.pairs.filter fun pair => pair.gathered && pair.remote_addr = remote.host && pair.remote_port = remote.port

/-- `io_process_stun_request`: the success responses that are sent. The pairs are taken from the end of
their list; without any there is the one of a new candidate, unless that fails. -/
def process_stun_request (s : Session) (remote : Remote) (buffer : List Byte) (attr : List (Option Nat))
    (created : Option Pair) : List (Pair × List Byte) :=
  match (accepted hmac s buffer attr).bind (success_response hmac remote buffer) with
  | none => []
  | some (response, response_length) =>
    match matching_pairs s remote with
    | [] => answer_pairs crc32 response response_length created.toList
    | pair :: pairs => answer_pairs crc32 response response_length (pair :: pairs).reverse

def stun_attr_frames : Nat := 50

/-- The types of the attributes that a datagram is sliced into. -/
def attribute_types (datagram : List Byte) : Option (List (BitVec 16)) :=
  (frame_slice datagram stun_attr_frames).map fun attr =>
    attr.reduceOption.map fun i => attribute_get_type (datagram.drop i)

/-- A datagram is a valid frame with one mapped address, one integrity attribute and, at its end, one
fingerprint, and every series of checks with the password passes. -/
structure WellFormed (pass datagram : List Byte) : Prop where
  valid : frame_is_valid datagram = true
  attributes : ∃ types, attribute_types datagram = some types ∧ types.count 0x0020 = 1 ∧ types.count 0x0008 = 1 ∧
    types.count 0x8028 = 1 ∧ types.getLast? = some 0x8028
  checked : ∀ attr, frame_slice datagram stun_attr_frames = some attr →
    ∀ checks, checks_pass hmac crc32 (some pass) true true checks datagram attr = true

end

end openvocs.ice.response
