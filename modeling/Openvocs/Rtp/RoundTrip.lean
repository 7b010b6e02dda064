import Openvocs.Rtp.Frame

open List Option

namespace openvocs.rtp

open bytes Expansion

/-- What the round trip has to bring back. -/
structure SameContent (e e' : Expansion) : Prop where
  version : e'.version = e.version
  padding_bit : e'.padding_bit = e.padding_bit
  extension_bit : e'.extension_bit = e.extension_bit
  marker_bit : e'.marker_bit = e.marker_bit
  payload_type : e'.payload_type = e.payload_type
  sequence_number : e'.sequence_number = e.sequence_number
  timestamp : e'.timestamp = e.timestamp
  ssrc : e'.ssrc = e.ssrc
  csrc_ids : e'.csrc_ids = e.csrc_ids
  extension_type : e'.extension.type = e.extension.type
  extension : e'.extension.octets = e.extension.octets
  payload : e'.payload.octets = e.payload.octets
  padding : e'.padding.octets = e.padding.octets

section

variable (e : Expansion)

theorem Part.length_octets {p : Part} (h : p.length ≠ 0 → p.data.isSome) : p.octets.length = p.length := by
  unfold Part.octets
  cases hdata : p.data with
  | some octets => exact p.fits octets hdata
  | none =>
    by_contra hlength
    simpa [hdata] using h (fun hzero => hlength hzero.symm)

theorem first_octet_fields (hversion : e.version ≤ 3) (hcount : e.csrc_ids.length ≤ 15) :
    (e.first_octet >>> 6 &&& 3).toNat = e.version ∧
      decide (e.first_octet &&& 0x20 ≠ 0) = e.padding_bit ∧
      decide (e.first_octet &&& 0x10 ≠ 0) = e.extension_bit ∧
      (e.first_octet &&& 0x0f).toNat = e.csrc_ids.length := by
  have hall : ∀ version < 4, ∀ count < 16, ∀ padding extension : Bool,
      let octet : Byte := BitVec.ofNat 8 (version <<< 6) ||| (BitVec.ofNat 8 count &&& 0x0F) |||
        (if padding then 0x20 else 0) ||| (if extension then 0x10 else 0)
      (octet >>> 6 &&& 3).toNat = version ∧ decide (octet &&& 0x20 ≠ 0) = padding ∧
        decide (octet &&& 0x10 ≠ 0) = extension ∧ (octet &&& 0x0f).toNat = count := by
    decide +kernel
  exact hall e.version (by omega) e.csrc_ids.length (by omega) e.padding_bit e.extension_bit

theorem second_octet_fields (htype : e.payload_type.toNat ≤ 127) :
    decide (e.second_octet &&& 0x80 ≠ 0) = e.marker_bit ∧ e.second_octet &&& 0x7f = e.payload_type := by
  have hall : ∀ marker : Bool, ∀ type : Byte, type.toNat ≤ 127 →
      let octet : Byte := (if marker then 0x80 else 0) ||| (type &&& 0x7F)
      decide (octet &&& 0x80 ≠ 0) = marker ∧ octet &&& 0x7f = type := by
    decide +kernel
  exact hall e.marker_bit e.payload_type htype

theorem length_header_octets : e.header_octets.length = 12 + 4 * e.csrc_ids.length := by
  simp only [header_octets, length_append, length_cons, length_nil, length_be16, length_be32, length_flatMap_be32]
  omega

/-- When `ov_rtp_frame_encode` makes a frame. -/
structure Accepted (e : Expansion) : Prop where
  csrc_count : e.csrc_ids.length ≤ 15
  extension_length : 4 * (e.extension.length / 4 % 2 ^ 16) = e.extension.length
  padding_length : e.padding.length ≤ 255
  extension_data : e.extension_bit = true → e.extension.data.isSome → e.extension.length ≠ 0
  payload_data : e.payload.length ≠ 0 → e.payload.data.isSome
  padding_data : e.padding.length ≠ 0 → e.padding_bit = true ∧ e.padding.data.isSome

theorem encode_isSome_iff : (encode e).isSome ↔ Accepted e := by
  unfold encode
  constructor
  · intro h
    split at h
    · simp at h
    split at h
    · simp at h
    split at h
    · simp at h
    split at h
    · simp at h
    split at h
    · simp at h
    split at h
    · simp at h
    rename_i hcount hlength hpadding hextension hpayload hdata
    clear h
    constructor <;> grind
  intro h
  obtain ⟨hcount, hlength, hpadding, hextension, hpayload, hdata⟩ := h
  rw [if_neg (by omega), if_neg (by simpa using hlength), if_neg (by omega), if_neg (by grind),
    if_neg (by grind), if_neg (by grind)]
  rfl

theorem length_written (h : Accepted e) (hextension : e.extension.length ≠ 0 → e.extension.data.isSome) :
    e.written.length = e.encoded_length := by
  have hext := Part.length_octets hextension
  have hpayload := Part.length_octets h.payload_data
  have hpadding := Part.length_octets (fun hne => (h.padding_data hne).2)
  simp only [Expansion.written, length_append, length_header_octets, extension_octets,
    padding_octets, hpayload, hpadding, encoded_length]
  cases e.extension_bit <;> cases e.padding_bit <;> simp [hext] <;> omega

theorem encode_bytes {frame : Frame} (h : encode e = some frame)
    (hextension : e.extension.length ≠ 0 → e.extension.data.isSome) : frame.bytes = e.written := by
  have haccepted : Accepted e := (encode_isSome_iff e).mp (by simp [h])
  have hbytes : frame.bytes = e.written ++ List.replicate (e.encoded_length - e.written.length) 0 := by
    unfold encode at h
    repeat' split at h
    all_goals first
      | (simp at h; done)
      | (cases h; rfl)
  rw [hbytes, length_written e haccepted hextension]
  simp

end

/-- The expansion behind the fixed header, with the pointer from the cache. -/
def decoded_header (cached : Option Frame) (e : Expansion) : Expansion :=
  let old := rtp_frame_get_new cached
  { e with
    payload := {}
    padding := {}
    extension := { toPart := old.shorten old.length, allocated_bytes := old.allocated_bytes } }

variable (cached : Option Frame)

theorem decode_header_octets (e : Expansion) (rest : List Byte)
    (hversion : e.version ≤ 3) (htype : e.payload_type.toNat ≤ 127) (hcount : e.csrc_ids.length ≤ 14)
    (hrest : (if e.extension_bit then 4 else 0) ≤ rest.length) :
    decode cached (e.header_octets ++ rest) = decode_parts (e.header_octets ++ rest) (decoded_header cached e) := by
  obtain ⟨hfversion, hfpadding, hfextension, hfcount⟩ := first_octet_fields e hversion (by omega)
  obtain ⟨hsmarker, hstype⟩ := second_octet_fields e htype
  generalize hinput : e.header_octets ++ rest = input
  have hlength : input.length = 12 + 4 * e.csrc_ids.length + rest.length := by
    rw [← hinput, length_append, length_header_octets]
  have hfirst : read8 input 0 = some e.first_octet := by
    subst hinput
    rfl
  have hsecond : read8 input 1 = some e.second_octet := by
    subst hinput
    rfl
  have hsequence : read16 input 2 = some e.sequence_number := by
    rw [read16_eq_some, ← hinput]
    rfl
  have htimestamp : read32 input 4 = some e.timestamp := by
    rw [read32_eq_some, ← hinput]
    rfl
  have hssrc : read32 input 8 = some e.ssrc := by
    rw [read32_eq_some, ← hinput]
    rfl
  have hcsrc : read32s input 12 e.csrc_ids.length = some e.csrc_ids := by
    refine read32s_eq_some.mpr ⟨rfl, ?_⟩
    have hdrop : input.drop 12 = e.csrc_ids.flatMap be32 ++ rest := by
      rw [← hinput]
      simp [header_octets, be16, be32]
    rw [slice, hdrop]
    exact take_left' (length_flatMap_be32 _)
  unfold decode
  rw [if_neg (by omega), hfirst, bind_some]
  simp only [hfcount, hfextension]
  rw [if_neg (by omega), if_neg (by omega)]
  simp only [hsecond, hsequence, htimestamp, hssrc, hcsrc, bind_some, header_expansion, hfversion,
    hfpadding, hfextension, hsmarker, hstype]
  rfl

variable {e : Expansion}

theorem decode_extension_octets {before : List Byte} {current : Nat} (hbefore : before.length = current)
    (rest : List Byte) (hwords : e.extension.length / 4 < 2 ^ 16) (hmultiple : 4 * (e.extension.length / 4) = e.extension.length) :
    decode_extension (before ++ (e.extension_octets ++ rest)) e.extension_bit current =
      some (if e.extension_bit then (e.extension.type, e.extension.length) else (0, 0)) := by
  unfold decode_extension extension_octets
  cases e.extension_bit with
  | false => rfl
  | true =>
    have htype : read16 (before ++ (be16 e.extension.type ++ (be16 (BitVec.ofNat 16 (e.extension.length / 4)) ++
        e.extension.octets) ++ rest)) current = some e.extension.type := by
      rw [read16_eq_some, append_assoc]
      exact slice_mid _ _ _ hbefore rfl
    have hlength : read16 (before ++ (be16 e.extension.type ++ (be16 (BitVec.ofNat 16 (e.extension.length / 4)) ++
        e.extension.octets) ++ rest)) (current + 2) = some (BitVec.ofNat 16 (e.extension.length / 4)) := by
      rw [read16_eq_some, append_assoc, append_assoc, ← append_assoc before]
      exact slice_mid _ _ _ (by simp [hbefore]) rfl
    have hvalue : 4 * (BitVec.ofNat 16 (e.extension.length / 4)).toNat = e.extension.length := by
      rw [BitVec.toNat_ofNat, Nat.mod_eq_of_lt hwords, hmultiple]
    simp only [if_true, htype, hlength, bind_some, map_some, hvalue]

/-- The expansion before the padding is cut off, for a frame with these octets
    behind its extension. -/
def decoded_parts (cached : Option Frame) (e : Expansion) (rest : List Byte) : Expansion :=
  let h := decoded_header cached e
  { h with
    payload := if 0 < rest.length then Part.of rest else {}
    extension := if e.extension_bit then
      { h.extension with
        toPart := if 0 < e.extension.length then Part.of e.extension.octets else h.extension.toPart
        type := e.extension.type }
      else h.extension }

theorem decode_parts_octets (e : Expansion) (rest : List Byte)
    (hwords : e.extension.length / 4 < 2 ^ 16) (hmultiple : 4 * (e.extension.length / 4) = e.extension.length)
    (hoctets : e.extension.octets.length = e.extension.length) :
    decode_parts (e.header_octets ++ (e.extension_octets ++ rest)) (decoded_header cached e) =
      decode_padding (e.header_octets ++ (e.extension_octets ++ rest)) (decoded_parts cached e rest) := by
  have hheader := length_header_octets e
  have hread := decode_extension_octets hheader rest hwords hmultiple
  have hlength : (e.header_octets ++ (e.extension_octets ++ rest)).length =
      12 + 4 * e.csrc_ids.length + e.extension_octets.length + rest.length := by
    simp only [length_append, hheader]
    omega
  have hrest : slice (e.header_octets ++ (e.extension_octets ++ rest))
      (12 + 4 * e.csrc_ids.length + e.extension_octets.length) rest.length = rest := by
    have hmid := slice_mid (e.header_octets ++ e.extension_octets) rest []
      (i := 12 + 4 * e.csrc_ids.length + e.extension_octets.length) (by simp [hheader]) rfl
    simpa using hmid
  have hpart : e.extension_bit = true → slice (e.header_octets ++ (e.extension_octets ++ rest))
      (12 + 4 * e.csrc_ids.length + 4) e.extension.length = e.extension.octets := by
    intro hbit
    have hmid := slice_mid (e.header_octets ++ (be16 e.extension.type ++
      be16 (BitVec.ofNat 16 (e.extension.length / 4)))) e.extension.octets rest
      (i := 12 + 4 * e.csrc_ids.length + 4) (by simp [hheader]) hoctets
    simpa [extension_octets, hbit] using hmid
  have hext : e.extension_octets.length = if e.extension_bit then 4 + e.extension.length else 0 := by
    unfold extension_octets
    cases e.extension_bit <;> simp [hoctets]
    omega
  generalize hinput : e.header_octets ++ (e.extension_octets ++ rest) = input at *
  unfold decode_parts
  rw [show (decoded_header cached e).extension_bit = e.extension_bit from rfl,
    show (decoded_header cached e).csrc_ids = e.csrc_ids from rfl, hread, bind_some]
  cases hbit : e.extension_bit with
  | false =>
    simp only [hbit, Bool.false_eq_true, if_false] at hext ⊢
    rw [hext, Nat.add_zero] at hrest hlength
    rw [if_neg (by omega)]
    simp only [set_parts, decoded_parts, hbit, hlength, Nat.add_zero, Nat.lt_irrefl, if_false, hrest,
      Nat.add_sub_cancel_left, Bool.false_eq_true, Nat.lt_add_right_iff_pos]
    rfl
  | true =>
    simp only [hbit, if_true] at hext ⊢
    rw [hext, ← Nat.add_assoc] at hrest hlength
    rw [if_neg (by omega)]
    simp [set_parts, decoded_parts, hbit, hlength, hrest, hpart hbit]

theorem octets_if_of (rest : List Byte) : (if 0 < rest.length then Part.of rest else {} : Part).octets = rest := by
  split
  · rfl
  rename_i h
  have hempty : rest = [] := length_eq_zero_iff.mp (by omega)
  rw [hempty]
  rfl

theorem octets_shorten (p : Part) (n : Nat) : (p.shorten n).octets = p.octets.take (p.length - n) := by
  cases h : p.data <;> simp [Part.octets, Part.shorten, h]

theorem decode_padding_octets (h : Accepted e) (before : List Byte) (e' : Expansion)
    (hbit : e'.padding_bit = e.padding_bit) (hpadding : e'.padding = {})
    (hpayload : e'.payload =
      if 0 < (e.payload.octets ++ e.padding_octets).length then Part.of (e.payload.octets ++ e.padding_octets) else {}) :
    (e.padding.length = 255 → decode_padding (before ++ (e.payload.octets ++ e.padding_octets)) e' = some none) ∧
      (e.padding.length ≠ 255 → ∃ payload padding,
        decode_padding (before ++ (e.payload.octets ++ e.padding_octets)) e' =
          some (some ⟨{ e' with payload, padding }, before ++ (e.payload.octets ++ e.padding_octets)⟩) ∧
        payload.octets = e.payload.octets ∧ padding.octets = e.padding.octets) := by
  have hlength := Part.length_octets (fun hne => (h.padding_data hne).2)
  unfold decode_padding
  cases hpad : e.padding_bit with
  | false =>
    rw [if_neg (by simp [hbit, hpad])]
    have hzero : e.padding.length = 0 := by
      by_contra hne
      have hset := (h.padding_data hne).1
      rw [hpad] at hset
      exact Bool.false_ne_true hset
    have hnone : e.padding.octets = [] := length_eq_zero_iff.mp (by omega)
    refine ⟨fun hfull => by omega, fun _ => ⟨e'.payload, e'.padding, rfl, ?_, ?_⟩⟩
    · rw [hpayload, octets_if_of]
      simp [padding_octets, hpad, hnone]
    rw [hpadding, hnone]
    rfl
  | true =>
    have hoctets : e.padding_octets = e.padding.octets ++ [BitVec.ofNat 8 (e.padding.length + 1)] := by
      simp [padding_octets, hpad]
    have hpart : e'.payload = Part.of (e.payload.octets ++ e.padding_octets) := by
      rw [hpayload, if_pos (by simp only [hoctets, length_append, length_cons]; omega)]
    have hinput : (before ++ (e.payload.octets ++ e.padding_octets)).length =
        before.length + e.payload.octets.length + e.padding.length + 1 := by
      simp only [hoctets, length_append, hlength, length_cons, length_nil]
      omega
    have hlast : read8 (before ++ (e.payload.octets ++ e.padding_octets))
        ((before ++ (e.payload.octets ++ e.padding_octets)).length - 1) =
          some (BitVec.ofNat 8 (e.padding.length + 1)) := by
      have hmid := slice_mid (before ++ (e.payload.octets ++ e.padding.octets))
        [BitVec.ofNat 8 (e.padding.length + 1)] []
        (i := before.length + e.payload.octets.length + e.padding.length)
        (by simp only [length_append, hlength]; omega) rfl
      rw [read8_eq_some, hinput, Nat.add_sub_cancel, hoctets]
      simpa using hmid
    rw [if_pos (hbit.trans hpad), hlast, bind_some]
    constructor
    · intro hfull
      simp [hfull]
    intro hfull
    have hsmall : e.padding.length + 1 < 2 ^ 8 := by
      have hle := h.padding_length
      omega
    have hvalue : (BitVec.ofNat 8 (e.padding.length + 1)).toNat = e.padding.length + 1 := by
      rw [BitVec.toNat_ofNat, Nat.mod_eq_of_lt hsmall]
    have hne : BitVec.ofNat 8 (e.padding.length + 1) ≠ 0 := by
      intro hzero
      have htoNat := congrArg BitVec.toNat hzero
      rw [hvalue] at htoNat
      simp at htoNat
    have hpartlength : e'.payload.length = e.payload.octets.length + (e.padding.length + 1) := by
      rw [hpart]
      simp [Part.of, hoctets, hlength]
    rw [if_neg hne, hvalue, if_neg (by omega)]
    refine ⟨_, _, rfl, ?_, ?_⟩
    · rw [octets_shorten, hpartlength, Nat.add_sub_cancel, hpart]
      simp [Part.of, Part.octets]
    have hmid := slice_mid (before ++ e.payload.octets) e.padding.octets
      [BitVec.ofNat 8 (e.padding.length + 1)]
      (i := before.length + e.payload.octets.length) (by simp) hlength
    rw [Nat.add_sub_cancel, hinput, show before.length + e.payload.octets.length + e.padding.length + 1 -
      (e.padding.length + 1) = before.length + e.payload.octets.length by omega]
    simpa [Part.of, Part.octets, hoctets] using hmid

theorem decode_fifteen_csrcs (e : Expansion) (rest : List Byte) (hversion : e.version ≤ 3)
    (hcount : e.csrc_ids.length = 15) : decode cached (e.header_octets ++ rest) = some none := by
  obtain ⟨-, -, -, hfcount⟩ := first_octet_fields e hversion (by omega)
  have hfirst : read8 (e.header_octets ++ rest) 0 = some e.first_octet := rfl
  have hlength : (e.header_octets ++ rest).length ≠ 0 := by
    rw [length_append, length_header_octets]
    omega
  unfold decode
  rw [if_neg hlength, hfirst, bind_some]
  simp only [hfcount, hcount]
  rfl

theorem Part.octets_eq_nil {p : Part} (h : p.length = 0) : p.octets = [] := by
  unfold Part.octets
  cases hdata : p.data with
  | none => rfl
  | some octets => exact length_eq_zero_iff.mp ((p.fits octets hdata).trans h)

theorem decoded_extension_iff (e : Expansion) (rest : List Byte)
    (hoctets : e.extension.octets.length = e.extension.length) :
    ((decoded_parts cached e rest).extension.type = e.extension.type ∧
        (decoded_parts cached e rest).extension.octets = e.extension.octets) ↔
      (e.extension_bit = false → e.extension.type = 0 ∧ e.extension.length = 0) := by
  have hold : (decoded_header cached e).extension.octets = [] := by
    apply Part.octets_eq_nil
    exact Nat.sub_self _
  cases hbit : e.extension_bit with
  | true =>
    have hpart : (if 0 < e.extension.length then Part.of e.extension.octets
        else (decoded_header cached e).extension.toPart).octets = e.extension.octets := by
      split
      · rfl
      · rw [hold, Part.octets_eq_nil (by omega)]
    simp [decoded_parts, hbit, hpart]
  | false =>
    have htype : (decoded_parts cached e rest).extension.type = 0 := by
      simp only [decoded_parts, hbit]
      rfl
    have hpart : (decoded_parts cached e rest).extension.octets = [] := by
      simp only [decoded_parts, hbit]
      exact hold
    rw [htype, hpart, ← hoctets]
    constructor
    · intro h _
      rw [← h.2]
      exact ⟨h.1.symm, rfl⟩
    intro h
    obtain ⟨h0, hlength⟩ := h rfl
    exact ⟨h0.symm, (length_eq_zero_iff.mp hlength).symm⟩

/-- Encoding and decoding brings back every field of an accepted expansion, except
    with 15 CSRCs, with 255 octets of padding, or with an extension but no
    extension bit. -/
theorem decode_encode_iff (e : Expansion) (hversion : e.version ≤ 3) (htype : e.payload_type.toNat ≤ 127)
    (hdata : e.extension.length ≠ 0 → e.extension.data.isSome) (frame : Frame) (hencode : encode e = some frame)
    (cached : Option Frame) :
    (∃ f, decode cached frame.bytes = some (some f) ∧ SameContent e f.expanded) ↔
      e.csrc_ids.length ≠ 15 ∧ e.padding.length ≠ 255 ∧
        (e.extension_bit = false → e.extension.type = 0 ∧ e.extension.length = 0) := by
  have haccepted : Accepted e := (encode_isSome_iff e).mp (by simp [hencode])
  have hoctets := Part.length_octets hdata
  have hmultiple : 4 * (e.extension.length / 4) = e.extension.length := by
    have hlength := haccepted.extension_length
    omega
  have hwords : e.extension.length / 4 < 2 ^ 16 := by
    have hlength := haccepted.extension_length
    omega
  rw [encode_bytes e hencode hdata, Expansion.written]
  by_cases hcount : e.csrc_ids.length = 15
  · rw [decode_fifteen_csrcs cached e _ hversion hcount]
    simp [hcount]
  have hlimit := haccepted.csrc_count
  have hroom : (if e.extension_bit then 4 else 0) ≤
      (e.extension_octets ++ (e.payload.octets ++ e.padding_octets)).length := by
    unfold extension_octets
    cases e.extension_bit <;> simp
    omega
  rw [decode_header_octets cached e _ hversion htype (by omega) hroom,
    decode_parts_octets cached e _ hwords hmultiple hoctets, ← append_assoc]
  obtain ⟨hfull, hcut⟩ := decode_padding_octets haccepted (e.header_octets ++ e.extension_octets)
    (decoded_parts cached e (e.payload.octets ++ e.padding_octets)) rfl rfl rfl
  by_cases hpadding : e.padding.length = 255
  · rw [hfull hpadding]
    simp [hpadding]
  obtain ⟨payload, padding, hdecode, hpayload, hpad⟩ := hcut hpadding
  rw [hdecode, ← decoded_extension_iff cached e (e.payload.octets ++ e.padding_octets) hoctets]
  constructor
  · rintro ⟨f, hf, hsame⟩
    cases hf
    exact ⟨hcount, hpadding, hsame.extension_type, hsame.extension⟩
  · rintro ⟨-, -, hexttype, hext⟩
    refine ⟨_, rfl, ?_⟩
    exact ⟨rfl, rfl, rfl, rfl, rfl, rfl, rfl, rfl, rfl, hexttype, hext, hpayload, hpad⟩

def plain_expansion : Expansion where
  version := 2
  padding_bit := false
  extension_bit := false
  marker_bit := false
  payload_type := 0
  sequence_number := 1
  timestamp := 2
  ssrc := 3
  csrc_ids := []
  payload := {}
  padding := {}
  extension := {}

def full_expansion : Expansion :=
  { plain_expansion with
    padding_bit := true
    extension_bit := true
    csrc_ids := [7]
    payload := Part.of [1, 2, 3]
    padding := Part.of [0, 0]
    extension := { Part.of [4, 5, 6, 7] with type := 9 } }

theorem decode_encode_iff_full_expansion : ∃ frame, encode full_expansion = some frame ∧
      ∃ f, decode none frame.bytes = some (some f) ∧ SameContent full_expansion f.expanded := by
  have hsome : (encode full_expansion).isSome := by decide +kernel
  obtain ⟨frame, hframe⟩ := isSome_iff_exists.mp hsome
  have hround := decode_encode_iff full_expansion (by decide) (by decide) (fun _ => rfl) frame hframe none
  exact ⟨frame, hframe, hround.mpr ⟨by decide, by decide, by decide⟩⟩

/-- The encoder takes 15 CSRCs, the decoder does not. -/
theorem fifteen_csrcs_refused :
    ∃ frame, encode { plain_expansion with csrc_ids := List.replicate 15 0 } = some frame ∧
      decode none frame.bytes = some none := by
  have hany : (encode { plain_expansion with csrc_ids := List.replicate 15 0 }).any
      (fun frame => (decode none frame.bytes).any Option.isNone) = true := by
    decide +kernel
  obtain ⟨frame, hframe, hdecode⟩ := (Option.any_eq_true _ _).mp hany
  obtain ⟨result, hresult, hnone⟩ := (Option.any_eq_true _ _).mp hdecode
  rw [isNone_iff_eq_none.mp hnone] at hresult
  exact ⟨frame, hframe, hresult⟩

theorem first_octet_of_fields {first : Byte} (hversion : e.version = (first >>> 6 &&& 3).toNat)
    (hpadding : e.padding_bit = decide (first &&& 0x20 ≠ 0)) (hextension : e.extension_bit = decide (first &&& 0x10 ≠ 0))
    (hcount : e.csrc_ids.length = (first &&& 0x0f).toNat) : e.first_octet = first := by
  have hall : ∀ b : Byte, BitVec.ofNat 8 ((b >>> 6 &&& 3).toNat <<< 6) |||
      (BitVec.ofNat 8 (b &&& 0x0f).toNat &&& 0x0F) ||| (if decide (b &&& 0x20 ≠ 0) then 0x20 else 0) |||
      (if decide (b &&& 0x10 ≠ 0) then 0x10 else 0) = b := by
    decide +kernel
  rw [Expansion.first_octet, hversion, hpadding, hextension, hcount]
  exact hall first

theorem second_octet_of_fields {second : Byte} (hmarker : e.marker_bit = decide (second &&& 0x80 ≠ 0))
    (htype : e.payload_type = second &&& 0x7f) : e.second_octet = second := by
  have hall : ∀ b : Byte, (if decide (b &&& 0x80 ≠ 0) then 0x80 else 0) ||| (b &&& 0x7f &&& 0x7F) = b := by
    decide +kernel
  rw [Expansion.second_octet, hmarker, htype]
  exact hall second

variable {input : List Byte}

theorem decode_padding_spec (current : Nat) (hcurrent : current ≤ input.length)
    (hpayload : e.payload = if current < input.length then Part.of (slice input current (input.length - current)) else {})
    (hpadding : e.padding = {}) (hinput : 0 < input.length) :
    (decode_padding input e).isSome ∧ ∀ f, decode_padding input e = some (some f) →
      (∃ payload padding, f = ⟨{ e with payload, padding }, input⟩) ∧
        f.expanded.payload.octets ++ f.expanded.padding_octets = slice input current (input.length - current) ∧
        (f.expanded.payload.length ≠ 0 → f.expanded.payload.data.isSome) ∧
        f.expanded.padding.length ≤ 254 ∧
        (f.expanded.padding.length ≠ 0 → f.expanded.padding_bit = true ∧ f.expanded.padding.data.isSome) := by
  have hoctets : e.payload.octets = slice input current (input.length - current) := by
    rw [hpayload]
    split
    · rfl
    rw [show input.length - current = 0 by omega]
    rfl
  have hlength : e.payload.length = input.length - current := by
    rw [hpayload]
    split
    · exact length_slice (by omega)
    · exact (Nat.sub_eq_zero_of_le (by omega)).symm
  have hdata : e.payload.length ≠ 0 → e.payload.data.isSome := by
    rw [hpayload]
    split
    · exact fun _ => rfl
    · exact fun hne => absurd rfl hne
  unfold decode_padding
  split
  · rename_i hbit
    obtain ⟨byte, hbyte⟩ := read8_isSome (l := input) (i := input.length - 1) (by omega)
    rw [hbyte, bind_some]
    split
    · simp
    split
    · simp
    rename_i hzero hlong
    refine ⟨rfl, fun f hf => ?_⟩
    cases hf
    have hpos : 0 < byte.toNat := by
      apply Nat.pos_of_ne_zero
      intro hbytezero
      apply hzero
      exact BitVec.eq_of_toNat_eq hbytezero
    have hfit : byte.toNat < 2 ^ 8 := byte.isLt
    have hcut : (slice input (input.length - byte.toNat) (byte.toNat - 1)).length = byte.toNat - 1 :=
      length_slice (by omega)
    refine ⟨⟨_, _, rfl⟩, ?_, ?_, ?_, fun _ => ⟨hbit, rfl⟩⟩
    · have hlast : slice input (input.length - 1) 1 = [byte] := read8_eq_some.mp hbyte
      have hnumber : BitVec.ofNat 8 (byte.toNat - 1 + 1) = byte := by
        rw [Nat.sub_add_cancel hpos, BitVec.ofNat_toNat, BitVec.setWidth_eq]
      have hshort : (e.payload.shorten byte.toNat).octets =
          slice input current (input.length - byte.toNat - current) := by
        rw [octets_shorten, hoctets, hlength, slice, slice, take_take]
        congr 1
        omega
      simp only [padding_octets, hbit, if_true, hshort, Part.of, hcut, hnumber]
      rw [← hlast, Part.octets, getD_some]
      have hpad := slice_append_slice input (input.length - byte.toNat) (byte.toNat - 1) 1
      rw [show input.length - byte.toNat + (byte.toNat - 1) = input.length - 1 by omega] at hpad
      have hall := slice_append_slice input current (input.length - byte.toNat - current) (byte.toNat - 1 + 1)
      rw [show current + (input.length - byte.toNat - current) = input.length - byte.toNat by omega] at hall
      rw [hpad, hall]
      congr 1
      omega
    · intro hne
      obtain ⟨octets, hsome⟩ := isSome_iff_exists.mp (hdata (by omega))
      simp [Part.shorten, hsome]
    simp only [Part.of, hcut]
    omega
  · rename_i hbit
    refine ⟨rfl, fun f hf => ?_⟩
    cases hf
    refine ⟨⟨_, _, rfl⟩, ?_, hdata, ?_, ?_⟩
    · simp [padding_octets, hbit, hpadding, Part.octets, ← hoctets]
    · simp [hpadding]
    · simp [hpadding]

theorem decode_extension_spec {current : Nat} {bit : Bool}
    (hlength : current + (if bit then 4 else 0) ≤ input.length) :
    ∃ type length, decode_extension input bit current = some (type, 4 * length) ∧ length < 2 ^ 16 ∧
      (if bit then be16 type ++ be16 (BitVec.ofNat 16 length) else []) =
        slice input current (if bit then 4 else 0) ∧
      (bit = true → read16 input (current + 2) = some (BitVec.ofNat 16 length)) ∧
      (bit = false → type = 0 ∧ length = 0) := by
  unfold decode_extension
  cases bit with
  | false => exact ⟨0, 0, rfl, by omega, rfl, by simp, by simp⟩
  | true =>
    simp only [if_true] at hlength ⊢
    obtain ⟨type, htype⟩ := read16_isSome (l := input) (i := current) (by omega)
    obtain ⟨words, hwords⟩ := read16_isSome (l := input) (i := current + 2) (by omega)
    refine ⟨type, words.toNat, by simp [htype, hwords], words.isLt, ?_, ?_, by simp⟩
    · rw [BitVec.ofNat_toNat, BitVec.setWidth_eq, ← read16_eq_some.mp htype, ← read16_eq_some.mp hwords]
      exact slice_append_slice input current 2 2
    intro _
    rw [BitVec.ofNat_toNat, BitVec.setWidth_eq, hwords]

theorem decode_parts_spec {h : Expansion}
    (hlength : 12 + 4 * h.csrc_ids.length + (if h.extension_bit then 4 else 0) ≤ input.length)
    (hpadding : h.padding = {}) (hold : h.extension.length = 0) :
    (decode_parts input h).isSome ∧ ∀ f, decode_parts input h = some (some f) →
      (∃ payload padding extension, f = ⟨{ h with payload, padding, extension }, input⟩) ∧
        f.expanded.extension_octets ++ (f.expanded.payload.octets ++ f.expanded.padding_octets) =
          slice input (12 + 4 * h.csrc_ids.length) (input.length - (12 + 4 * h.csrc_ids.length)) ∧
        (f.expanded.payload.length ≠ 0 → f.expanded.payload.data.isSome) ∧
        f.expanded.padding.length ≤ 254 ∧
        (f.expanded.padding.length ≠ 0 → f.expanded.padding_bit = true ∧ f.expanded.padding.data.isSome) ∧
        4 * (f.expanded.extension.length / 4 % 2 ^ 16) = f.expanded.extension.length ∧
        (f.expanded.extension.length ≠ 0 → f.expanded.extension.data.isSome) ∧
        ((h.extension_bit = true → f.expanded.extension.data.isSome → f.expanded.extension.length ≠ 0) ↔
          ¬ (h.extension.data.isSome ∧ h.extension_bit = true ∧
            read16 input (12 + 4 * h.csrc_ids.length + 2) = some 0)) := by
  obtain ⟨type, length, hread, hfit, hwords, hword, hunset⟩ := decode_extension_spec hlength
  unfold decode_parts
  rw [hread, bind_some]
  dsimp only
  generalize hcurrent : 12 + 4 * h.csrc_ids.length = current at *
  generalize hsize : (if h.extension_bit then 4 else 0) = size at *
  split
  · simp
  rename_i hshort
  have hextlength : (set_parts input (current + size) type (4 * length) h).extension.length = 4 * length := by
    unfold set_parts
    split
    · exact length_slice (by omega)
    dsimp only
    omega
  have hextoctets : (set_parts input (current + size) type (4 * length) h).extension.octets =
      slice input (current + size) (4 * length) := by
    unfold set_parts
    split
    · rfl
    rw [show 4 * length = 0 by omega]
    exact Part.octets_eq_nil hold
  obtain ⟨hsome, hspec⟩ := decode_padding_spec (current + size + 4 * length)
    (e := set_parts input (current + size) type (4 * length) h) (by omega) rfl hpadding (by omega)
  refine ⟨hsome, fun f hf => ?_⟩
  obtain ⟨⟨payload, padding, rfl⟩, hrest, hdata, hlimit, hpad⟩ := hspec f hf
  refine ⟨⟨payload, padding, _, rfl⟩, ?_, hdata, hlimit, hpad, ?_, ?_, ?_⟩
  · have hfront : (set_parts input (current + size) type (4 * length) h).extension_octets =
        slice input current (size + 4 * length) := by
      rw [← slice_append_slice, ← hwords, ← hextoctets]
      unfold extension_octets
      show (if h.extension_bit then _ else _) = _
      cases hbit : h.extension_bit with
      | false =>
        rw [hextoctets, (hunset hbit).2]
        rfl
      | true =>
        simp only [if_true, hextlength, append_assoc]
        rw [Nat.mul_div_cancel_left _ (by omega)]
        rfl
    show (set_parts input (current + size) type (4 * length) h).extension_octets ++ _ = _
    rw [hfront, hrest, Nat.add_assoc, slice_append_slice]
    congr 1
    omega
  · show 4 * ((set_parts input (current + size) type (4 * length) h).extension.length / 4 % 2 ^ 16) = _
    rw [hextlength]
    omega
  · show (set_parts input (current + size) type (4 * length) h).extension.length ≠ 0 → _
    rw [hextlength]
    intro hne
    simp only [set_parts, if_pos (Nat.pos_of_ne_zero hne)]
    rfl
  show (h.extension_bit = true → (set_parts input (current + size) type (4 * length) h).extension.data.isSome →
    (set_parts input (current + size) type (4 * length) h).extension.length ≠ 0) ↔ _
  rw [hextlength]
  cases hbit : h.extension_bit with
  | false => simp
  | true =>
    by_cases hzero : length = 0
    · subst hzero
      simp [set_parts, hword hbit]
    have hne : read16 input (current + 2) ≠ some 0 := by
      rw [hword hbit]
      intro hsame
      have htoNat := congrArg BitVec.toNat (some.inj hsame)
      rw [BitVec.toNat_ofNat, Nat.mod_eq_of_lt hfit] at htoNat
      exact hzero htoNat
    constructor
    · exact fun _ hstale => hne hstale.2.2
    · exact fun _ _ _ => by omega

/-- The extension bit is set, but the extension has no octets. -/
def header_only_extension (input : List Byte) : Prop :=
  ∃ first, read8 input 0 = some first ∧ first &&& 0x10 ≠ 0 ∧
    read16 input (12 + 4 * (first &&& 0x0f).toNat + 2) = some 0

theorem header_octets_of_reads {first second : Byte}
    {sequence_number : BitVec 16} {timestamp ssrc : BitVec 32} {csrc_ids : List (BitVec 32)}
    (hfirst : read8 input 0 = some first) (hsecond : read8 input 1 = some second)
    (hsequence : read16 input 2 = some sequence_number) (htimestamp : read32 input 4 = some timestamp)
    (hssrc : read32 input 8 = some ssrc) (hcsrc : read32s input 12 (first &&& 0x0f).toNat = some csrc_ids) :
    (header_expansion cached first second sequence_number timestamp ssrc csrc_ids).header_octets =
      slice input 0 (12 + 4 * csrc_ids.length) := by
  obtain ⟨hids, hslice⟩ := read32s_eq_some.mp hcsrc
  have hone := first_octet_of_fields (e := header_expansion cached first second sequence_number timestamp ssrc csrc_ids)
    rfl rfl rfl hids
  have htwo := second_octet_of_fields (e := header_expansion cached first second sequence_number timestamp ssrc csrc_ids)
    rfl rfl
  rw [header_octets, hone, htwo]
  show [first, second] ++ (be16 sequence_number ++ (be32 timestamp ++ (be32 ssrc ++ csrc_ids.flatMap be32))) = _
  rw [← hslice, ← read32_eq_some.mp hssrc, ← read32_eq_some.mp htimestamp, ← read16_eq_some.mp hsequence,
    show [first, second] = [first] ++ [second] from rfl, ← read8_eq_some.mp hfirst, ← read8_eq_some.mp hsecond,
    slice_append_slice input 8 4, slice_append_slice input 4 4, slice_append_slice input 2 2,
    slice_append_slice input 0 1 1, slice_append_slice input 0 2, hids]
  congr 1
  omega

theorem decode_spec (input : List Byte) :
    (decode cached input).isSome ∧ ∀ f, decode cached input = some (some f) →
      f.expanded.written = input ∧
        (f.expanded.extension.length ≠ 0 → f.expanded.extension.data.isSome) ∧
        (Accepted f.expanded ↔ ¬ ((rtp_frame_get_new cached).data.isSome ∧ header_only_extension input)) := by
  unfold decode
  by_cases hempty : input.length = 0
  · simp [hempty]
  obtain ⟨first, hfirst⟩ := read8_isSome (l := input) (i := 0) (by omega)
  rw [if_neg hempty, hfirst, bind_some]
  dsimp only
  by_cases hcount : 0x0e < (first &&& 0x0f).toNat
  · rw [if_pos hcount]
    simp
  by_cases hlength : input.length < 12 + 4 * (first &&& 0x0f).toNat + (if decide (first &&& 0x10 ≠ 0) then 4 else 0)
  · rw [if_neg hcount, if_pos hlength]
    simp
  rw [if_neg hcount, if_neg hlength]
  obtain ⟨second, hsecond⟩ := read8_isSome (l := input) (i := 1) (by omega)
  obtain ⟨sequence_number, hsequence⟩ := read16_isSome (l := input) (i := 2) (by omega)
  obtain ⟨timestamp, htimestamp⟩ := read32_isSome (l := input) (i := 4) (by omega)
  obtain ⟨ssrc, hssrc⟩ := read32_isSome (l := input) (i := 8) (by omega)
  obtain ⟨csrc_ids, hcsrc⟩ := read32s_isSome (l := input) (i := 12) (n := (first &&& 0x0f).toNat) (by omega)
  obtain ⟨hids, hidslice⟩ := read32s_eq_some.mp hcsrc
  simp only [hsecond, hsequence, htimestamp, hssrc, hcsrc, bind_some]
  generalize hheader : header_expansion cached first second sequence_number timestamp ssrc csrc_ids = h
  have hcsrcids : h.csrc_ids = csrc_ids := by rw [← hheader]; rfl
  have hbit : h.extension_bit = decide (first &&& 0x10 ≠ 0) := by rw [← hheader]; rfl
  have holdlength : h.extension.length = 0 := by
    rw [← hheader]
    exact Nat.sub_self _
  have holddata : h.extension.data.isSome = (rtp_frame_get_new cached).data.isSome := by
    rw [← hheader]
    exact isSome_map
  have hroom : 12 + 4 * h.csrc_ids.length + (if h.extension_bit then 4 else 0) ≤ input.length := by
    rw [hcsrcids, hids, hbit]
    omega
  obtain ⟨hsome, hspec⟩ := decode_parts_spec hroom (by rw [← hheader]; rfl) holdlength
  refine ⟨hsome, fun f hf => ?_⟩
  obtain ⟨⟨payload, padding, extension, rfl⟩, hrest, hpayload, hlimit, hpadding, hext, hextdata, hstale⟩ := hspec f hf
  refine ⟨?_, hextdata, ?_⟩
  · have hfront := header_octets_of_reads cached hfirst hsecond hsequence htimestamp hssrc hcsrc
    rw [hheader] at hfront
    show h.header_octets ++ _ = _
    rw [hrest, hfront, hcsrcids]
    have hwhole := slice_append_slice input 0 (12 + 4 * csrc_ids.length) (input.length - (12 + 4 * csrc_ids.length))
    rw [Nat.zero_add] at hwhole
    rw [hwhole]
    exact slice_all (by omega)
  rw [hbit, holddata, hcsrcids, hids] at hstale
  have hheaderonly : header_only_extension input ↔
      (decide (first &&& 0x10 ≠ 0) = true ∧ read16 input (12 + 4 * (first &&& 0x0f).toNat + 2) = some 0) := by
    simp [header_only_extension, hfirst]
  rw [hheaderonly, ← hstale]
  constructor
  · intro haccepted hset
    exact haccepted.extension_data (hbit.trans hset)
  intro hset
  have hcount' : h.csrc_ids.length ≤ 15 := by
    rw [hcsrcids, hids]
    omega
  exact ⟨hcount', hext, Nat.le_succ_of_le hlimit, fun hbit' => hset (hbit.symm.trans hbit'), hpayload, hpadding⟩

/-- The decoder reads only octets of its input. What it accepts is encoded to the
    same octets again, unless the frame comes from the cache with the extension
    pointer of its last use and the input has an extension without octets. -/
theorem encode_decode_iff (cached : Option Frame) (input : List Byte) :
    (decode cached input).isSome ∧ ∀ f, decode cached input = some (some f) →
      ((∃ g, encode f.expanded = some g ∧ g.bytes = input) ↔
        ¬ ((rtp_frame_get_new cached).data.isSome ∧ header_only_extension input)) := by
  obtain ⟨hsome, hspec⟩ := decode_spec cached input
  refine ⟨hsome, fun f hf => ?_⟩
  obtain ⟨hwritten, hdata, haccepted⟩ := hspec f hf
  rw [← haccepted, ← encode_isSome_iff]
  constructor
  · rintro ⟨g, hg, -⟩
    simp [hg]
  · intro hencode
    obtain ⟨g, hg⟩ := isSome_iff_exists.mp hencode
    exact ⟨g, hg, (encode_bytes _ hg hdata).trans hwritten⟩

def long_extension : List Byte := [0x90, 0, 0, 0, 0, 0, 0, 0, 0, 0, 0, 0, 0, 0, 0, 1, 1, 2, 3, 4]

def empty_extension : List Byte := [0x90, 0, 0, 0, 0, 0, 0, 0, 0, 0, 0, 0, 0, 0, 0, 0]

theorem encode_decode_iff_long_extension :
    ∃ f, decode none long_extension = some (some f) ∧ ∃ g, encode f.expanded = some g ∧ g.bytes = long_extension := by
  have hany : (decode none long_extension).any Option.isSome = true := by decide +kernel
  obtain ⟨result, hresult, hsome⟩ := (Option.any_eq_true _ _).mp hany
  obtain ⟨f, rfl⟩ := isSome_iff_exists.mp hsome
  exact ⟨f, hresult, ((encode_decode_iff none long_extension).2 f hresult).mpr (by simp [rtp_frame_get_new])⟩

/-- A frame that comes back from the cache with the pointer to an old extension. -/
theorem cached_extension_not_encoded :
    ∃ old f, decode none long_extension = some (some old) ∧ decode (some old) empty_extension = some (some f) ∧
      encode f.expanded = none := by
  have hany : (decode none long_extension).any (fun old => old.any (fun old =>
      (decode (some old) empty_extension).any (fun f => f.any (fun f => (encode f.expanded).isNone)))) = true := by
    decide +kernel
  obtain ⟨result, hresult, hold⟩ := (Option.any_eq_true _ _).mp hany
  obtain ⟨old, rfl, hnext⟩ := (Option.any_eq_true _ _).mp hold
  obtain ⟨result, hresult', hf⟩ := (Option.any_eq_true _ _).mp hnext
  obtain ⟨f, rfl, hnone⟩ := (Option.any_eq_true _ _).mp hf
  exact ⟨old, f, hresult, hresult', isNone_iff_eq_none.mp hnone⟩

end openvocs.rtp
