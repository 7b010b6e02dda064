import Openvocs.Stun.Attribute

namespace openvocs.stun

open bytes

/-- Octets are written at an offset. -/
def write (buffer : List Byte) (i : Nat) (octets : List Byte) : List Byte :=
  buffer.take i ++ (octets ++ buffer.drop (i + octets.length))

/-- `ov_stun_frame_get_length`, `none` for its `-1`. -/
def frame_get_length (buffer : List Byte) : Option Nat := (read16 buffer 2).map BitVec.toNat

def frame_set_length (buffer : List Byte) (length : Nat) : Option (List Byte) :=
  if buffer.length < 20 then none else some (write buffer 2 (be16 (BitVec.ofNat 16 length)))

def frame_set_transaction_id (buffer id : List Byte) : Option (List Byte) :=
  if buffer.length < 20 then none else some (write buffer 8 id)

def frame_set_magic_cookie (buffer : List Byte) : Option (List Byte) :=
  if buffer.length < 20 then none else some (write buffer 4 [0x21, 0x12, 0xA4, 0x42])

def frame_set_request (buffer : List Byte) : Option (List Byte) :=
  if buffer.length < 20 then none
  else some ((buffer.modify 0 (· &&& 0x3E)).modify 1 (· &&& 0xEF))

def frame_set_method (buffer : List Byte) (type : BitVec 16) : Option (List Byte) :=
  if buffer.length < 20 ∨ 0xfff < type.toNat then none
  else
    let buffer := (buffer.modify 1 (· &&& 0x10)).modify 0 (· &&& 0x01)
    if type.toNat ≤ 0x0f then some (buffer.modify 1 (· ||| type.setWidth 8))
    else
      let buffer := buffer.modify 1 (· ||| (type &&& 0x0F).setWidth 8)
      let buffer := buffer.modify 1 (· ||| ((type <<< 1) &&& 0xE0).setWidth 8)
      -- the shift to the left is one of an int
      some (buffer.modify 0 (· ||| (((type.setWidth 32 <<< 2) >>> 8) &&& 0x3E).setWidth 8))

def frame_is_valid (buffer : List Byte) : Bool :=
  20 ≤ buffer.length && buffer.length % 4 = 0 &&
    match buffer with
    | b0 :: _ :: _ :: b3 :: b4 :: b5 :: b6 :: b7 :: _ =>
      b0 &&& 0x80 = 0 && b0 &&& 0x40 = 0 && b3 &&& 0x01 = 0 && b3 &&& 0x02 = 0 &&
        b4 = 0x21 && b5 = 0x12 && b6 = 0xA4 && b7 = 0x42 &&
        (frame_get_length buffer).map (20 + ·) = some buffer.length
    | _ => false

/-- The loop of `ov_stun_frame_slice`: the offsets of the attributes in the octets that are left,
as long as there are places in the array. -/
def slice_loop (buffer : List Byte) : Nat → Nat → Nat → Option (List Nat)
  | _, _, 0 => some []
  | 0, _, _ + 1 => none
  | places + 1, ptr, left + 1 =>
    if left + 1 < 4 then none
    else
      match read16 buffer (ptr + 2) with
      | none => none
      | some len =>
        let len := len.toNat + padding len.toNat
        if left + 1 < 4 + len then none
        else (slice_loop buffer places (ptr + (4 + len)) (left + 1 - (4 + len))).map (ptr :: ·)

/-- `ov_stun_frame_slice` into an array that is cleared, as its callers clear it. The last place
of the array is never used. -/
def frame_slice (buffer : List Byte) (array_size : Nat) : Option (List (Option Nat)) :=
  if buffer.length < 20 ∨ array_size < 1 then none
  else if frame_get_length buffer ≠ some (buffer.length - 20) then none
  else
    (slice_loop buffer (array_size - 1) 20 (buffer.length - 20)).map fun offsets =>
      offsets.map some ++ List.replicate (array_size - offsets.length) none

def frame_is_message_integrity (buffer : List Byte) : Bool :=
  24 ≤ buffer.length && attribute_get_type buffer = 0x0008 && attribute_get_length buffer = some 20

def frame_is_fingerprint (buffer : List Byte) : Bool :=
  8 ≤ buffer.length && attribute_get_type buffer = 0x8028 && attribute_get_length buffer = some 4

/-- A test for the frame at a place of the array. -/
def frame_at (is : List Byte → Bool) (buffer : List Byte) (attr : Option Nat) : Bool :=
  match attr with
  | none => false
  | some i => is (buffer.drop i)

section

variable (hmac : List Byte → List Byte → Vector Byte 20)

def add_message_integrity (buffer : List Byte) (start : Nat) (key : List Byte) :
    Option (List Byte × Nat) :=
  if buffer.length < 44 ∨ key.length < 1 then none
  else if buffer.length < start + 24 then none
  else if start % 4 ≠ 0 then none
  else
    let buffer := write buffer start (be16 0x0008 ++ be16 20)
    (frame_set_length buffer (start + 24 - 20)).map fun buffer =>
      (write buffer (start + 4) (hmac key (buffer.take start)).toList, start + 24)

/-- The loop of `ov_stun_check_message_integrity`: behind the first integrity attribute all others
are removed but a fingerprint that follows it at once. -/
def integrity_loop (buffer : List Byte) : Option Nat → List (Option Nat) → Option Nat × List (Option Nat)
  | integrity, [] => (integrity, [])
  | integrity, attr :: rest =>
    let attr := if integrity.isSome then none else attr
    if frame_at frame_is_message_integrity buffer attr then
      match rest with
      | [] => (attr, [attr])
      | follower :: rest =>
        if frame_at frame_is_fingerprint buffer follower then
          let (integrity, rest) := integrity_loop buffer attr rest
          (integrity, attr :: follower :: rest)
        else
          let (integrity, rest) := integrity_loop buffer attr (follower :: rest)
          (integrity, attr :: rest)
    else
      let (integrity, rest) := integrity_loop buffer integrity rest
      (integrity, attr :: rest)

/-- `ov_stun_check_message_integrity`: the result, the buffer and the array. The length field is
not reset when the checksum is another one. -/
def check_message_integrity (buffer : List Byte) (attr : List (Option Nat)) (key : Option (List Byte))
    (must_be_set : Bool) : Bool × List Byte × List (Option Nat) :=
  if buffer.length < 44 ∨ attr.length < 1 then (false, buffer, attr)
  else
    let (integrity, attr) := integrity_loop buffer none attr
    match integrity with
    | none => (!must_be_set, buffer, attr)
    | some integrity =>
      match key with
      | none => (false, buffer, attr)
      | some key =>
        if key.length < 1 then (false, buffer, attr)
        else
          match frame_get_length buffer, frame_set_length buffer (integrity + 4) with
          | some original_length, some patched =>
            if (hmac key (patched.take integrity)).toList ≠ slice patched (integrity + 4) 20 then
              (false, patched, attr)
            else
              match frame_set_length patched original_length with
              | some buffer => (true, buffer, attr)
              | none => (false, patched, attr)
          | _, _ => (false, buffer, attr)

end

section

variable (crc32 : List Byte → BitVec 32)

def add_fingerprint (buffer : List Byte) (start : Nat) : Option (List Byte × Nat) :=
  if buffer.length = 0 then none
  else if buffer.length < start + 8 then none
  else if start + 8 < 28 then none
  else if start % 4 ≠ 0 then none
  else
    let buffer := write buffer start (be16 0x8028 ++ be16 4)
    (frame_set_length buffer (start + 8 - 20)).map fun buffer =>
      (write buffer (start + 4) (be32 (crc32 (buffer.take start) ^^^ 0x5354554e)), start + 8)

/-- The loop of `ov_stun_check_fingerprint`. -/
def fingerprint_loop (buffer : List Byte) : Option Nat → List (Option Nat) → Option Nat × List (Option Nat)
  | finger, [] => (finger, [])
  | finger, attr :: rest =>
    let attr := if finger.isSome then none else attr
    let finger := if frame_at frame_is_fingerprint buffer attr then attr else finger
    let (finger, rest) := fingerprint_loop buffer finger rest
    (finger, attr :: rest)

/-- `ov_stun_check_fingerprint`. The length field is not reset. -/
def check_fingerprint (buffer : List Byte) (attr : List (Option Nat)) (must_be_set : Bool) :
    Bool × List Byte × List (Option Nat) :=
  if buffer.length < 20 ∨ attr.length < 1 then (false, buffer, attr)
  else
    let (finger, attr) := fingerprint_loop buffer none attr
    match finger with
    | none => (!must_be_set, buffer, attr)
    | some finger =>
      match frame_set_length buffer (finger - 12) with
      | none => (false, buffer, attr)
      | some buffer =>
        ((read32 buffer (finger + 4)).any (crc32 (buffer.take finger) ^^^ 0x5354554e = ·), buffer, attr)

end

end openvocs.stun
