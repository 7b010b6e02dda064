import Openvocs.Lib.CString

/-!
Where the code leaves its memory there is no text.
-/

namespace openvocs.candidate

open cstring

inductive Transport
  | error
  | tcp
  | udp
  | tls
  | dtls
  | local_socket
deriving DecidableEq

/-- `ov_ice_candidate_type` without its invalid value. -/
inductive CandidateType
  | host
  | server_reflexive
  | peer_reflexive
  | relayed
deriving DecidableEq

/-- The part of `ov_ice_candidate` that has a text. Strings end before their NUL. -/
structure Candidate where
  type : Option CandidateType := none
  transport : Transport := .error
  foundation : List Byte := []
  component_id : BitVec 16 := 0
  priority : BitVec 32 := 0
  addr : List Byte := []
  port : BitVec 16 := 0
  raddr : List Byte := []
  rport : BitVec 16 := 0
  ext : List (List Byte × List Byte) := []
deriving DecidableEq

def space : Byte := 32
def word_typ : List Byte := [116, 121, 112]
def word_raddr : List Byte := [114, 97, 100, 100, 114]
def word_rport : List Byte := [114, 112, 111, 114, 116]
def word_udp : List Byte := [117, 100, 112]
def word_tcp : List Byte := [116, 99, 112]

def CandidateType.word : CandidateType → List Byte
  | .host => [104, 111, 115, 116]
  | .server_reflexive => [115, 114, 102, 108, 120]
  | .peer_reflexive => [112, 114, 102, 108, 120]
  | .relayed => [114, 101, 108, 97, 121]

/-- `ov_ice_candidate_type_to_string`, as `%s` writes its result. -/
def type_to_string : Option CandidateType → List Byte
  | none => [40, 110, 117, 108, 108, 41]
  | some type => type.word

/-- `ov_ice_candidate_type_from_string`: the start of a word is enough. -/
def type_from_string (string : List Byte) : Option CandidateType :=
  if string.isPrefixOf CandidateType.host.word then some .host
  else if string.isPrefixOf CandidateType.peer_reflexive.word then some .peer_reflexive
  else if string.isPrefixOf CandidateType.server_reflexive.word then some .server_reflexive
  else if string.isPrefixOf CandidateType.relayed.word then some .relayed
  else none

/-- The word for a transport in `ov_ice_candidate_to_string`. -/
def Transport.word : Transport → Option (List Byte)
  | .udp => some word_udp
  | .dtls => some word_udp
  | .tcp => some word_tcp
  | .tls => some word_tcp
  | _ => none

/-- The transport that the word stands for. -/
def Transport.spoken : Transport → Transport
  | .dtls => .udp
  | .tls => .tcp
  | transport => transport

def to_lower (c : Byte) : Byte := if 65 ≤ c.toNat ∧ c.toNat ≤ 90 then c + 32 else c

/-- `ov_socket_transport_from_string`: the first name that starts with the string. -/
def transport_from_string (string : List Byte) : Transport :=
  let string := string.map to_lower
  if string.isPrefixOf word_tcp then .tcp
  else if string.isPrefixOf word_udp then .udp
  else if string.isPrefixOf [116, 108, 115] then .tls
  else if string.isPrefixOf [100, 116, 108, 115] then .dtls
  else if string.isPrefixOf [108, 111, 99, 97, 108] then .local_socket
  else .error

/-- An `int` as `%i` writes it. -/
def int_text (n : BitVec 32) : List Byte :=
  if n.toNat < 2 ^ 31 then decimal n.toNat else 45 :: decimal (2 ^ 32 - n.toNat)

/-- The fields that are always there. -/
def Candidate.main_part (c : Candidate) (transport : List Byte) : List Byte :=
  c.foundation ++ space :: (decimal c.component_id.toNat ++ space :: (transport ++ space ::
    (int_text c.priority ++ space :: (c.addr ++ space :: (decimal c.port.toNat ++ space ::
      (word_typ ++ space :: type_to_string c.type))))))

/-- The related address, when there is one. -/
def related_part (raddr : List Byte) (rport : BitVec 16) : List (List Byte) :=
  if raddr = [] then []
  else [space :: (word_raddr ++ space :: (raddr ++ space :: (word_rport ++ space :: decimal rport.toNat)))]

def extension_part (e : List Byte × List Byte) : List Byte := space :: (e.1 ++ space :: e.2)

/-- What is written one after the other. -/
def Candidate.parts (c : Candidate) (transport : List Byte) : List (List Byte) :=
  c.main_part transport :: (related_part c.raddr c.rport ++ c.ext.map extension_part)

/-- One round over a buffer of some size. -/
inductive Round
  | done (text : List Byte)
  | reallocate
  | overflow
deriving DecidableEq

/-- The parts behind what is used of the buffer. `snprintf` gets the room that is left, which is a
huge one when more is used than there is, but its result is compared with the whole size. -/
def write_parts (size : Nat) : List (List Byte) → Nat → List Byte → Round
  | [], _, text => .done text
  | part :: parts, used, text =>
    if size < used then .overflow
    else
      let text := if used < size then text ++ part.take (size - used - 1) else text
      if part.length = 0 ∨ size ≤ part.length then .reallocate
      else write_parts size parts (used + part.length) text

/-- The end of `ov_ice_candidate_to_string`. -/
inductive Written
  | text (text : List Byte)
  | null
  | overflow
deriving DecidableEq

/-- The rounds over growing buffers. -/
def write_rounds (parts : List (List Byte)) : Nat → Nat → Written
  | 0, _ => .null
  | rounds + 1, size =>
    match write_parts size parts 0 [] with
    | .done text => .text text
    | .overflow => .overflow
    | .reallocate => write_rounds parts rounds (size + 512)

/-- `ov_ice_candidate_to_string`. The counter is at 100 in the fiftieth round that asks for more. -/
def to_string (c : Candidate) : Written :=
  match c.transport.word with
  | none => .null
  | some transport => write_rounds (c.parts transport) 50 512

/-- `strchr` and `memchr` for the next space: what is before it and what is behind it. -/
def split_space (s : List Byte) : Option (List Byte × List Byte) :=
  match s.dropWhile (· ≠ space) with
  | [] => none
  | _ :: rest => some (s.takeWhile (· ≠ space), rest)

/-- `ov_ice_string_is_ice_char`, with `isalnum` of the C locale. -/
def is_ice_char (c : Byte) : Bool :=
  (65 ≤ c.toNat && c.toNat ≤ 90) || (97 ≤ c.toNat && c.toNat ≤ 122) || is_digit c || c = 43 || c = 47

def is_foundation (s : List Byte) : Bool := 1 ≤ s.length && s.length ≤ 32 && s.all is_ice_char

/-- `ov_ice_string_is_component_id` and `ov_ice_string_is_priority` with their lengths. -/
def is_digits (max : Nat) (s : List Byte) : Bool := 1 ≤ s.length && s.length ≤ max && s.all is_digit

def sdp_is_token (s : List Byte) : Bool :=
  !s.isEmpty && s.all fun c =>
    (0x5E ≤ c.toNat && c.toNat ≤ 0x7E) || (0x41 ≤ c.toNat && c.toNat ≤ 0x5A) ||
      (0x30 ≤ c.toNat && c.toNat ≤ 0x39) || (0x2D ≤ c.toNat && c.toNat ≤ 0x2E) ||
      (0x2A ≤ c.toNat && c.toNat ≤ 0x2B) || (0x23 ≤ c.toNat && c.toNat ≤ 0x27) || c.toNat = 0x21

/-- `ov_sdp_is_address`. Octets from 0x80 on are negative and too small. -/
def sdp_is_address (s : List Byte) : Bool :=
  !s.isEmpty && s.all fun c => 0x21 ≤ c.toNat && c.toNat < 0x7f

/-- `ov_ice_string_is_connection_port`: the number is read in the whole text that begins with the
word. -/
def is_connection_port (s : List Byte) (length : Nat) : Bool :=
  1 ≤ length && length ≤ 5 &&
    match strtol s with
    | none => false
    | some (number, next) => 1 ≤ number && number ≤ 65535 && next.length + length = s.length

/-- The loop over the extensions. A name with no space behind it makes the code read through a null
pointer. -/
def parse_extensions : Nat → List Byte → Option (List (List Byte × List Byte))
  | 0, _ => none
  | rounds + 1, s =>
    match split_space s with
    | none => none
    | some (key, s) =>
      match split_space s with
      | some (val, s) =>
        if val.length < 1 ∨ key.length < 1 then none
        else (parse_extensions rounds s).map ((key, val) :: ·)
      | none => if s.length < 1 ∨ key.length < 1 then none else some [(key, s)]

/-- All that may stand behind the type and a related address. -/
def parse_rest (s : List Byte) : Option (List (List Byte × List Byte)) :=
  if (split_space s).isSome then parse_extensions s.length s
  else if s = [] then some []
  else none

/-- What stands behind the word for a related address: the address, its port and the extensions. -/
def parse_related (s : List Byte) : Option (List Byte × BitVec 16 × List (List Byte × List Byte)) :=
  match split_space s with
  | none => none
  | some (raddr, s) =>
    if !sdp_is_address raddr || !word_rport.isPrefixOf s then none
    else
      match split_space s with
      | none => none
      | some (word, s) =>
        let (number, s) := (split_space s).getD (s, [])
        if word.length ≠ 5 ∨ number.length < 1 then none
        else
          match to_uint 64 number, parse_rest s with
          | some rport, some ext => some (raddr, BitVec.ofNat 16 rport, ext)
          | _, _ => none

/-- What stands behind the type: the related address, its port and the extensions. -/
def parse_tail (s : List Byte) : Option (List Byte × BitVec 16 × List (List Byte × List Byte)) :=
  match split_space s with
  | some (_, rest) =>
    if word_raddr.isPrefixOf s then parse_related rest
    else (parse_rest s).map fun ext => ([], 0, ext)
  | none => (parse_rest s).map fun ext => ([], 0, ext)

/-- The type and what stands behind it. -/
def parse_type (s : List Byte) :
    Option (CandidateType × List Byte × BitVec 16 × List (List Byte × List Byte)) :=
  match split_space s with
  | none => if 2048 < s.length then none else (type_from_string s).map fun type => (type, [], 0, [])
  | some (type, tail) =>
    if 2048 < type.length then none
    else (type_from_string type).bind fun type => (parse_tail tail).map fun tail => (type, tail)

/-- The next word, if it is as it should be, and what stands behind it. -/
def accept (ok : List Byte → Bool) (s : List Byte) : Option (List Byte × List Byte) :=
  (split_space s).filter fun found => ok found.1

/-- `ov_ice_candidate_parse` into a new candidate. The numbers are written as 64 bits over what
stands behind their fields; nothing of that is set yet, so the fields keep the low bits. -/
def parse (s : List Byte) : Option Candidate := do
  let (foundation, s) ← accept is_foundation s
  let (component_id, s) ← accept (is_digits 5) s
  let component_id ← to_uint 64 component_id
  let (transport, s) ← accept sdp_is_token s
  let (priority, s) ← accept (is_digits 10) s
  let priority ← to_uint 64 priority
  let (addr, s) ← accept sdp_is_address s
  let (port, s) ← accept (fun port => is_connection_port s port.length) s
  let port ← to_uint 64 port
  let (_, s) ← accept (fun typ => typ.isPrefixOf word_typ) s
  let (type, raddr, rport, ext) ← parse_type s
  some
    { type := some type
      transport := transport_from_string transport
      foundation := foundation
      component_id := BitVec.ofNat 16 component_id
      priority := BitVec.ofNat 32 priority
      addr := addr
      port := BitVec.ofNat 16 port
      raddr := raddr
      rport := rport
      ext := ext }

end openvocs.candidate
