import Openvocs.Ice.CandidateSearches

open List

namespace openvocs.candidate

open cstring

/-- Digits for a number in a range. -/
def IsNumberIn (low high : Nat) (word : List Byte) (n : Nat) : Prop :=
  IsNumber word ∧ value word = n ∧ low ≤ n ∧ n ≤ high

/-- The transport with a name, in letters of either case. -/
def transport_named (name : List Byte) : Transport :=
  let name := name.map to_lower
  if name = word_tcp then .tcp
  else if name = word_udp then .udp
  else if name = [116, 108, 115] then .tls
  else if name = [100, 116, 108, 115] then .dtls
  else if name = [108, 111, 99, 97, 108] then .local_socket
  else .error

/-- The words for a related address. -/
def IsRelated (words : List (List Byte)) (raddr : List Byte) (rport : BitVec 16) : Prop :=
  (words = [] ∧ raddr = [] ∧ rport = 0) ∨
    ∃ number, words = [word_raddr, raddr, word_rport, number] ∧ sdp_is_address raddr = true ∧
      IsNumberIn 0 65535 number rport.toNat

/-- The words for extensions, none of them empty. -/
def IsExtensions (words : List (List Byte)) (ext : List (List Byte × List Byte)) : Prop :=
  words = ext.flatMap (fun e => [e.1, e.2]) ∧ ∀ e ∈ ext, e.1 ≠ [] ∧ e.2 ≠ []

/-- The text of a candidate: words with single spaces between them. -/
def Grammatical (s : List Byte) (c : Candidate) : Prop :=
  ∃ component_id transport priority port type related ext,
    s.splitOn space = c.foundation :: component_id :: transport :: priority :: c.addr :: port :: word_typ ::
      CandidateType.word type :: (related ++ ext) ∧
    is_foundation c.foundation = true ∧ IsNumberIn 1 256 component_id c.component_id.toNat ∧
    (sdp_is_token transport = true ∧ c.transport = transport_named transport) ∧
    IsNumberIn 1 (2 ^ 31 - 1) priority c.priority.toNat ∧ sdp_is_address c.addr = true ∧
    IsNumberIn 0 65535 port c.port.toNat ∧ c.type = some type ∧
    IsRelated related c.raddr c.rport ∧ IsExtensions ext c.ext

variable {s word rest : List Byte}

variable {ext : List (List Byte × List Byte)}

variable {raddr : List Byte} {rport : BitVec 16}

section rest

variable {words related others : List (List Byte)}

end rest

end openvocs.candidate
