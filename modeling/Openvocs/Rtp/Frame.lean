import Openvocs.Lib.Bytes

namespace openvocs.rtp

open bytes

theorem none_fits : ∀ octets ∈ (none : Option (List Byte)), octets.length = 0 := by simp

/-- A pointer with the number of octets it leads to. A null pointer is `none`. -/
structure Part where
  length : Nat := 0
  data : Option (List Byte) := none
  fits : ∀ octets ∈ data, octets.length = length := by first | exact none_fits | simp

namespace Part

/-- The octets that are copied from the pointer. -/
def octets (p : Part) : List Byte := p.data.getD []

def of (octets : List Byte) : Part where
  length := octets.length
  data := some octets

/-- The same pointer with `n` octets less. -/
def shorten (p : Part) (n : Nat) : Part where
  length := p.length - n
  data := p.data.map (List.take (p.length - n))
  fits := by
    intro shorter h
    obtain ⟨octets, hoctets, rfl⟩ := Option.map_eq_some_iff.mp h
    simp [p.fits octets hoctets]

end Part

/-- The header extension. -/
structure Extension extends Part where
  type : BitVec 16 := 0
  allocated_bytes : Nat := 0

/-- `ov_rtp_frame_expansion`. The field `csrc_count` is the length of `csrc_ids`. -/
structure Expansion where
  version : Nat
  padding_bit : Bool
  extension_bit : Bool
  marker_bit : Bool
  payload_type : Byte
  sequence_number : BitVec 16
  timestamp : BitVec 32
  ssrc : BitVec 32
  csrc_ids : List (BitVec 32)
  payload : Part
  padding : Part
  extension : Extension

structure Frame where
  expanded : Expansion
  bytes : List Byte

namespace Expansion

variable (e : Expansion)

/-- The first octet: version, padding bit, extension bit and number of CSRCs. -/
def first_octet : Byte :=
  BitVec.ofNat 8 (e.version <<< 6) ||| (BitVec.ofNat 8 e.csrc_ids.length &&& 0x0F) |||
    (if e.padding_bit then 0x20 else 0) ||| (if e.extension_bit then 0x10 else 0)

/-- The second octet: marker bit and payload type. -/
def second_octet : Byte :=
  (if e.marker_bit then 0x80 else 0) ||| (e.payload_type &&& 0x7F)

/-- The octets up to the end of the CSRCs. -/
def header_octets : List Byte :=
  [e.first_octet, e.second_octet] ++ (be16 e.sequence_number ++ (be32 e.timestamp ++
    (be32 e.ssrc ++ e.csrc_ids.flatMap be32)))

def extension_octets : List Byte :=
  if e.extension_bit then
    be16 e.extension.type ++ (be16 (BitVec.ofNat 16 (e.extension.length / 4)) ++ e.extension.octets)
  else []

def padding_octets : List Byte :=
  e.padding.octets ++ if e.padding_bit then [BitVec.ofNat 8 (e.padding.length + 1)] else []

/-- What `ov_rtp_frame_encode` writes, one part after the other. -/
def written : List Byte :=
  e.header_octets ++ (e.extension_octets ++ (e.payload.octets ++ e.padding_octets))

/-- The length that `ov_rtp_frame_encode` computes beforehand. -/
def encoded_length : Nat :=
  12 + 4 * e.csrc_ids.length + (if e.extension_bit then 4 + e.extension.length else 0) +
    e.payload.length + e.padding.length + (if e.padding_bit then 1 else 0)

end Expansion

/-- `ov_rtp_frame_encode`. Whatever is not written remains zero. The frame from
    the cache, if there is one, does not matter. -/
def encode (e : Expansion) : Option Frame :=
  if 15 < e.csrc_ids.length then none
  -- uint16_t extension_len_4octets
  else if 4 * (e.extension.length / 4 % 2 ^ 16) ≠ e.extension.length then none
  else if 0xff < e.padding.length then none
  else if e.extension_bit ∧ e.extension.data.isSome ∧ e.extension.length = 0 then none
  else if 0 < e.payload.length ∧ ¬ e.payload.data.isSome then none
  else if 0 < e.padding.length ∧ ¬ (e.padding_bit ∧ e.padding.data.isSome) then none
  else
    let part : Part := if e.extension_bit then e.extension.toPart else {}
    let extension : Extension := { e.extension with toPart := if part.data.isSome then part else {}, allocated_bytes := 0 }
    some
      { expanded := { e with extension }
        bytes := e.written ++ List.replicate (e.encoded_length - e.written.length) 0 }

/-- The extension of a frame from `rtp_frame_get_new`: a frame that comes from the
    cache brings its old pointer along, unless that was allocated. -/
def rtp_frame_get_new (cached : Option Frame) : Extension :=
  match cached with
  | none => {}
  | some frame => if 0 < frame.expanded.extension.allocated_bytes then {} else frame.expanded.extension

/-- The type and the length of the header extension. -/
def decode_extension (input : List Byte) (extension_bit : Bool) (current : Nat) : Option (BitVec 16 × Nat) :=
  if extension_bit then
    (read16 input current).bind fun type =>
      (read16 input (current + 2)).map fun length => (type, 4 * length.toNat)
  else some (0, 0)

/-- The end of `ov_rtp_frame_decode`: the padding is cut off the payload. -/
def decode_padding (input : List Byte) (e : Expansion) : Option (Option Frame) :=
  if e.padding_bit then
    (read8 input (input.length - 1)).bind fun byte =>
      if byte = 0 then some none
      else if e.payload.length < byte.toNat then some none
      else
        let padding := Part.of (slice input (input.length - byte.toNat) (byte.toNat - 1))
        some (some ⟨{ e with padding, payload := e.payload.shorten byte.toNat }, input⟩)
  else some (some ⟨e, input⟩)

/-- Sets the extension, and whatever is behind it as payload. An extension
    without octets leaves the pointer as it is. -/
def set_parts (input : List Byte) (current : Nat) (type : BitVec 16) (length : Nat) (e : Expansion) : Expansion :=
  let part := if 0 < length then Part.of (slice input current length) else e.extension.toPart
  let payload := if current + length < input.length then
    Part.of (slice input (current + length) (input.length - (current + length))) else {}
  { e with payload, extension := { e.extension with toPart := part, type } }

/-- `ov_rtp_frame_decode` behind the fixed header and the CSRCs. -/
def decode_parts (input : List Byte) (e : Expansion) : Option (Option Frame) :=
  (decode_extension input e.extension_bit (12 + 4 * e.csrc_ids.length)).bind fun (type, length) =>
    let current := 12 + 4 * e.csrc_ids.length + (if e.extension_bit then 4 else 0)
    if input.length < current + length then some none
    else decode_padding input (set_parts input current type length e)

/-- The expansion of the fixed header and the CSRCs. -/
def header_expansion (cached : Option Frame) (first second : Byte) (sequence_number : BitVec 16)
    (timestamp ssrc : BitVec 32) (csrc_ids : List (BitVec 32)) : Expansion :=
  let old := rtp_frame_get_new cached
  { version := (first >>> 6 &&& 3).toNat
    padding_bit := decide (first &&& 0x20 ≠ 0)
    extension_bit := decide (first &&& 0x10 ≠ 0)
    marker_bit := decide (second &&& 0x80 ≠ 0)
    payload_type := second &&& 0x7f
    sequence_number, timestamp, ssrc, csrc_ids
    payload := {}
    padding := {}
    extension := { toPart := old.shorten old.length, allocated_bytes := old.allocated_bytes } }

/-- `ov_rtp_frame_decode`. The outer `Option` is `none` when an octet outside of
    the input is read, the inner one when the input is refused. -/
def decode (cached : Option Frame) (input : List Byte) : Option (Option Frame) :=
  if input.length = 0 then some none
  else
    (read8 input 0).bind fun first =>
      let csrc_count := (first &&& 0x0f).toNat
      let extension_bit := decide (first &&& 0x10 ≠ 0)
      if 0x0e < csrc_count then some none
      else if input.length < 12 + 4 * csrc_count + (if extension_bit then 4 else 0) then some none
      else
        (read8 input 1).bind fun second =>
        (read16 input 2).bind fun sequence_number =>
        (read32 input 4).bind fun timestamp =>
        (read32 input 8).bind fun ssrc =>
        (read32s input 12 csrc_count).bind fun csrc_ids =>
          decode_parts input (header_expansion cached first second sequence_number timestamp ssrc csrc_ids)

end openvocs.rtp
