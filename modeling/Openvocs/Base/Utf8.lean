import Openvocs.Lib.Bytes

namespace openvocs.utf8

/-- An octet `10xxxxxx` behind the first one of a character. -/
def is_tail (c : Byte) : Bool := c >>> 6 = 2

/-- The whole string is a sequence of characters, as `ov_utf8_last_valid` walks over them. -/
def is_sequence : List Byte → Bool
  | [] => true
  | a :: s =>
    if a.toNat ≤ 0x7f then is_sequence s
    else if a.toNat < 0xC2 then false
    else if a.toNat ≤ 0xDF then
      match s with
      | b :: s => is_tail b && is_sequence s
      | _ => false
    else if a.toNat < 0xF0 then
      match s with
      | b :: c :: s =>
        !(a.toNat = 0xE0 && b.toNat < 0xA0) && !(a.toNat = 0xED && 0x9F < b.toNat) &&
          is_tail b && is_tail c && is_sequence s
      | _ => false
    else if a.toNat ≤ 0xF4 then
      match s with
      | b :: c :: d :: s =>
        !(a.toNat = 0xF0 && b.toNat < 0x90) && !(a.toNat = 0xF4 && 0x8F < b.toNat) &&
          is_tail b && is_tail c && is_tail d && is_sequence s
      | _ => false
    else false

def validate_sequence (s : List Byte) : Bool := !s.isEmpty && is_sequence s

end openvocs.utf8
