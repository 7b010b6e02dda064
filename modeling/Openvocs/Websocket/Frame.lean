import Openvocs.Lib.Bytes

/-!
A read behind the length is defined, but its value is whatever was left there.
-/

open List Option

namespace openvocs.websocket

open bytes

/-- `ov_buffer`: the memory of the whole capacity, and how much of it is in use. -/
structure Buffer where
  start : List Byte
  length : Nat
  within : length ≤ start.length

/-- The octets in use, in front of what was left in the memory. -/
def Buffer.of (data beyond : List Byte) : Buffer := ⟨data ++ beyond, data.length, by simp⟩

inductive Fragmentation where
  | none
  | start
  | continue_
  | last
deriving DecidableEq

/-- What the parser sets in an `ov_websocket_frame`. The pointers are offsets. -/
structure Frame where
  opcode : Byte
  state : Fragmentation
  mask : Option Nat
  content_start : Option Nat
  content_length : Nat
deriving DecidableEq

/-- `OV_WEBSOCKET_PARSER_ERROR`, `_PROGRESS`, and `_SUCCESS` with the first octet behind. -/
inductive Parsed (α : Type) where
  | error
  | progress
  | success (value : α) (next : Nat)
deriving DecidableEq

/-- Where the content is. -/
structure Payload where
  mask : Option Nat
  content_start : Option Nat
  content_length : Nat
deriving DecidableEq

/-- The check whether all octets of the content are received. -/
def all_received (buffer : Buffer) (payload : Payload) : Parsed Payload :=
  match payload.content_start with
  | some start =>
    if buffer.length < start + payload.content_length then .progress
    else .success payload (start + payload.content_length)
  | none => .success payload 2

/-- The part of `parse_payload_length` from `finish` on. -/
def masking (buffer : Buffer) (masked : Bool) (content_start : Option Nat) (length : Nat) :
    Parsed Payload :=
  if masked then
    match content_start with
    | none => .error
    | some start => all_received buffer ⟨some start, some (start + 4), length⟩
  else all_received buffer ⟨none, content_start, length⟩

/-- `parse_payload_length`. It is `none` for a read outside of the memory. -/
def parse_payload_length (buffer : Buffer) : Option (Parsed Payload) :=
  if buffer.length < 2 then some .progress
  else
    buffer.start[1]?.bind fun second =>
      let length := (second &&& 0x7F).toNat
      if length < 126 then
        some (masking buffer (second &&& 0x80 != 0) (if length = 0 then none else some 2) length)
      else if length = 126 then
        if buffer.length < 4 then some .progress
        else
          let length := bytes.number (bytes.slice buffer.start 2 2)
          some (if length < 125 then .error else masking buffer (second &&& 0x80 != 0) (some 4) length)
      else
        buffer.start[2]?.bind fun third =>
          if third &&& 0x80 ≠ 0 then some .error
          else if buffer.length < 10 then some .progress
          else
            let length := bytes.number (bytes.slice buffer.start 2 8)
            some (if length < 0x10000 then .error else masking buffer (second &&& 0x80 != 0) (some 10) length)

/-- The opcodes that are defined. -/
def is_opcode (opcode : Byte) : Prop := opcode ∈ [0x00, 0x01, 0x02, 0x08, 0x09, 0x0A]

instance (opcode : Byte) : Decidable (is_opcode opcode) := inferInstanceAs (Decidable (_ ∈ _))

def fragmentation_state (first : Byte) : Fragmentation :=
  if first &&& 0x80 ≠ 0 then
    if first &&& 0x0F ≠ 0 then .none else .last
  else if first &&& 0x0F ≠ 0 then .start
  else .continue_

/-- The part of `ov_websocket_parse_frame` behind `parse_payload_length`. -/
def parse_opcode (first : Byte) : Parsed Payload → Parsed Frame
  | .error => .error
  | .progress => .progress
  | .success payload next =>
    if is_opcode (0x0F &&& first) then
      .success ⟨0x0F &&& first, fragmentation_state first, payload.mask, payload.content_start, payload.content_length⟩
        next
    else .error

def ov_websocket_parse_frame (buffer : Buffer) : Option (Parsed Frame) :=
  if buffer.length = 0 then some .error
  else (parse_payload_length buffer).bind fun payload => buffer.start[0]?.map fun first => parse_opcode first payload

def flag_mask (masked : Bool) : Byte := if masked then 0x80 else 0

/-- The octets of a length. The longer forms are used from 126 and from a limit on. -/
def length_octets (limit : Nat) (masked : Bool) (length : Nat) : List Byte :=
  if length < 126 then [flag_mask masked ||| BitVec.ofNat 8 length]
  else if length < limit then (flag_mask masked ||| 126) :: be 2 length
  else (flag_mask masked ||| 127) :: be 8 length

/-- The octets of a masking key. -/
def key_octets : Option (BitVec 32) → List Byte
  | none => []
  | some key => be32 key

/-- A frame as RFC 6455 has it: the first octet has a defined opcode, and the length has
    the shortest form and 63 bits. -/
structure LegalFrame where
  first : Byte
  key : Option (BitVec 32)
  payload : List Byte
  opcode : is_opcode (0x0F &&& first)
  size : payload.length < 2 ^ 63

namespace LegalFrame

variable (frame : LegalFrame)

def octets : List Byte :=
  frame.first :: (length_octets 0x10000 frame.key.isSome frame.payload.length ++
    (key_octets frame.key ++ frame.payload))

/-- The octets in front of the masking key. -/
def header_size : Nat := 1 + (length_octets 0x10000 frame.key.isSome frame.payload.length).length

/-- The frame that the parser has to find. There is no content of zero octets. -/
def parsed : Frame where
  opcode := 0x0F &&& frame.first
  state := fragmentation_state frame.first
  mask := if frame.key.isSome then some frame.header_size else none
  content_start :=
    if frame.payload = [] then none else some (frame.header_size + (key_octets frame.key).length)
  content_length := frame.payload.length

/-- The frame is found in front of whatever follows it, and every part of it is taken for
    one, whatever is left in the memory. -/
def Accepted : Prop :=
  (∀ rest beyond, ov_websocket_parse_frame (.of (frame.octets ++ rest) beyond) =
      some (.success frame.parsed frame.octets.length)) ∧
    ∀ cut beyond, 0 < cut → cut < frame.octets.length →
      ov_websocket_parse_frame (.of (frame.octets.take cut) beyond) = some .progress

end LegalFrame

/-- The result does not depend on what is left in the memory. -/
def Independent (data : List Byte) : Prop :=
  ∀ beyond beyond', ov_websocket_parse_frame (.of data beyond) = ov_websocket_parse_frame (.of data beyond')

variable {n : Nat}

theorem flag_mask_length (masked : Bool) (h : n < 128) :
    ((flag_mask masked ||| BitVec.ofNat 8 n) &&& 0x7F).toNat = n := by
  have hall : ∀ n : Fin 128, ((flag_mask masked ||| BitVec.ofNat 8 n) &&& 0x7F).toNat = n := by
    cases masked <;> decide +kernel
  exact hall ⟨n, h⟩

theorem flag_mask_flag (masked : Bool) (h : n < 128) :
    ((flag_mask masked ||| BitVec.ofNat 8 n) &&& 0x80 != 0) = masked := by
  have hall : ∀ n : Fin 128, ((flag_mask masked ||| BitVec.ofNat 8 n) &&& 0x80 != 0) = masked := by
    cases masked <;> decide +kernel
  exact hall ⟨n, h⟩

theorem msb_eq_zero (h : n < 2 ^ 63) : BitVec.ofNat 8 (n >>> 56) &&& 0x80 = 0 := by
  have hall : ∀ n : Fin 128, BitVec.ofNat 8 n &&& 0x80 = 0 := by decide +kernel
  have hlt : n >>> 56 < 128 := by
    rw [Nat.shiftRight_eq_div_pow]
    omega
  exact hall ⟨_, hlt⟩

variable {limit : Nat}

theorem length_octets_short {masked : Bool} (h : n < 126) :
    length_octets limit masked n = [flag_mask masked ||| BitVec.ofNat 8 n] := by
  rw [length_octets, if_pos h]

theorem length_octets_middle {masked : Bool} (h : ¬ n < 126) (hlimit : n < limit) :
    length_octets limit masked n = (flag_mask masked ||| 126) :: be 2 n := by
  rw [length_octets, if_neg h, if_pos hlimit]

theorem length_octets_long {masked : Bool} (h : ¬ n < 126) (hlimit : ¬ n < limit) :
    length_octets limit masked n = (flag_mask masked ||| 127) :: be 8 n := by
  rw [length_octets, if_neg h, if_neg hlimit]

theorem parse_payload_length_octets {buffer : Buffer} {first : Byte} {rest : List Byte} {masked : Bool}
    (hstart : buffer.start = first :: (length_octets limit masked n ++ rest))
    (hlength : (length_octets limit masked n).length < buffer.length)
    (hmiddle : n < limit → n < 0x10000) (hlong : limit ≤ n → 0x10000 ≤ n ∧ n < 2 ^ 63) :
    parse_payload_length buffer = some (masking buffer masked
      (if n = 0 then none else some (1 + (length_octets limit masked n).length)) n) := by
  by_cases hshort : n < 126
  · rw [length_octets_short hshort] at hstart hlength ⊢
    have hsecond : buffer.start[1]? = some (flag_mask masked ||| BitVec.ofNat 8 n) := by simp [hstart]
    have hvisible : ¬ buffer.length < 2 := by
      simp only [length_singleton] at hlength
      omega
    rw [parse_payload_length, if_neg hvisible, hsecond, bind_some]
    simp only [flag_mask_length masked (by omega : n < 128), flag_mask_flag masked (by omega : n < 128)]
    rw [if_pos hshort]
    rfl
  have hzero : n ≠ 0 := by omega
  by_cases hlimit : n < limit
  · rw [length_octets_middle hshort hlimit] at hstart hlength ⊢
    have hsecond : buffer.start[1]? = some (flag_mask masked ||| BitVec.ofNat 8 126) := by simp [hstart]
    have hvisible : 4 ≤ buffer.length := by
      simp only [length_cons, length_be] at hlength
      omega
    have hnumber : bytes.number (bytes.slice buffer.start 2 2) = n := by
      have hslice : bytes.slice buffer.start 2 2 = be 2 n := by simp [bytes.slice, hstart]
      have hfits := hmiddle hlimit
      rw [hslice, number_be, Nat.mod_eq_of_lt (by omega)]
    rw [parse_payload_length, if_neg (by omega), hsecond, bind_some]
    simp only [flag_mask_length masked (by omega : 126 < 128), flag_mask_flag masked (by omega : 126 < 128), hnumber]
    rw [if_neg (by omega), if_pos trivial, if_neg (by omega), if_neg (by omega), if_neg hzero]
    rfl
  rw [length_octets_long hshort hlimit] at hstart hlength ⊢
  obtain ⟨hlarge, hfits⟩ := hlong (by omega)
  have hsecond : buffer.start[1]? = some (flag_mask masked ||| BitVec.ofNat 8 127) := by simp [hstart]
  have hthird : buffer.start[2]? = some (BitVec.ofNat 8 (n >>> 56)) := by simp [hstart, be]
  have hvisible : 10 ≤ buffer.length := by
    simp only [length_cons, length_be] at hlength
    omega
  have hnumber : bytes.number (bytes.slice buffer.start 2 8) = n := by
    have hslice : bytes.slice buffer.start 2 8 = be 8 n := by simp [bytes.slice, hstart]
    rw [hslice, number_be, Nat.mod_eq_of_lt (by omega)]
  rw [parse_payload_length, if_neg (by omega), hsecond, bind_some]
  simp only [flag_mask_length masked (by omega : 127 < 128), flag_mask_flag masked (by omega : 127 < 128), hthird,
    bind_some, msb_eq_zero hfits, hnumber]
  rw [if_neg (by omega), if_neg (by omega), if_neg (by simp), if_neg (by omega), if_neg (by omega), if_neg hzero]
  rfl

theorem length_key_octets (key : Option (BitVec 32)) :
    (key_octets key).length = if key.isSome then 4 else 0 := by
  cases key <;> rfl

theorem masking_eq {buffer : Buffer} {key : Option (BitVec 32)} {header : Nat} (hkey : key = none ∨ n ≠ 0)
    (hheader : n = 0 → header = 2) :
    masking buffer key.isSome (if n = 0 then none else some header) n =
      if n ≠ 0 ∧ buffer.length < header + (key_octets key).length + n then .progress
      else .success ⟨if key.isSome then some header else none,
        if n = 0 then none else some (header + (key_octets key).length), n⟩ (header + (key_octets key).length + n) := by
  by_cases hzero : n = 0
  · have hnone : key = none := hkey.resolve_right (fun hne => hne hzero)
    simp [hzero, hnone, masking, all_received, key_octets, hheader hzero]
  cases key with
  | none => simp [hzero, masking, all_received, key_octets]
  | some key => simp [hzero, masking, all_received, key_octets]

/-- The fields of a frame whose length is in front of its key and its content. -/
def found_frame (first : Byte) (key : Option (BitVec 32)) (header n : Nat) : Frame where
  opcode := 0x0F &&& first
  state := fragmentation_state first
  mask := if key.isSome then some header else none
  content_start := if n = 0 then none else some (header + (key_octets key).length)
  content_length := n

theorem parse_frame_octets {buffer : Buffer} {first : Byte} {rest : List Byte}
    {key : Option (BitVec 32)} (hopcode : is_opcode (0x0F &&& first)) (hkey : key = none ∨ n ≠ 0)
    (hstart : buffer.start = first :: (length_octets limit key.isSome n ++ rest))
    (hlength : (length_octets limit key.isSome n).length < buffer.length)
    (hmiddle : n < limit → n < 0x10000) (hlong : limit ≤ n → 0x10000 ≤ n ∧ n < 2 ^ 63) :
    ov_websocket_parse_frame buffer = some
      (if n ≠ 0 ∧ buffer.length < 1 + (length_octets limit key.isSome n).length + (key_octets key).length + n then
        .progress
      else .success (found_frame first key (1 + (length_octets limit key.isSome n).length) n)
        (1 + (length_octets limit key.isSome n).length + (key_octets key).length + n)) := by
  have hheader : n = 0 → 1 + (length_octets limit key.isSome n).length = 2 := by
    intro hzero
    rw [length_octets_short (by omega)]
    rfl
  have hfirst : buffer.start[0]? = some first := by simp [hstart]
  rw [ov_websocket_parse_frame, if_neg (by omega), parse_payload_length_octets hstart hlength hmiddle hlong,
    masking_eq hkey hheader, hfirst, bind_some, map_some]
  by_cases hcut : n ≠ 0 ∧ buffer.length < 1 + (length_octets limit key.isSome n).length + (key_octets key).length + n
  · rw [if_pos hcut, if_pos hcut]
    rfl
  rw [if_neg hcut, if_neg hcut]
  simp only [parse_opcode, hopcode, if_true]
  rfl

theorem parse_two_octets (first : Byte) {second : Byte} (hlong : second &&& 0x7F = 127) (third : Byte)
    (beyond : List Byte) :
    ov_websocket_parse_frame (.of [first, second] (third :: beyond)) =
      some (if third &&& 0x80 ≠ 0 then .error else .progress) := by
  rw [ov_websocket_parse_frame, if_neg (by simp [Buffer.of]), parse_payload_length]
  simp only [Buffer.of, length_cons, length_nil, List.cons_append, nil_append,
    getElem?_cons_succ, getElem?_cons_zero, bind_some, hlong]
  by_cases hbit : third &&& 0x80 = 0
  · rw [if_neg (not_not.mpr hbit), if_neg (not_not.mpr hbit)]
    rfl
  rw [if_pos hbit, if_pos hbit]
  rfl

namespace LegalFrame

variable {frame : LegalFrame}

theorem length_octets_eq :
    frame.octets.length = frame.header_size + (key_octets frame.key).length + frame.payload.length := by
  simp only [octets, header_size, length_cons, length_append]
  omega

theorem parsed_eq : frame.parsed = found_frame frame.first frame.key frame.header_size frame.payload.length := by
  simp [parsed, found_frame]

theorem long_form (frame : LegalFrame) :
    0x10000 ≤ frame.payload.length → 0x10000 ≤ frame.payload.length ∧ frame.payload.length < 2 ^ 63 :=
  fun hlong => ⟨hlong, frame.size⟩

theorem parse_complete (h : frame.key = none ∨ frame.payload ≠ []) (rest beyond : List Byte) :
    ov_websocket_parse_frame (.of (frame.octets ++ rest) beyond) =
      some (.success frame.parsed frame.octets.length) := by
  have hkey : frame.key = none ∨ frame.payload.length ≠ 0 := by simpa using h
  have hstart : (Buffer.of (frame.octets ++ rest) beyond).start =
      frame.first :: (length_octets 0x10000 frame.key.isSome frame.payload.length ++
        (key_octets frame.key ++ frame.payload ++ rest ++ beyond)) := by
    simp [Buffer.of, octets]
  have hvisible : frame.octets.length ≤ (Buffer.of (frame.octets ++ rest) beyond).length := by simp [Buffer.of]
  rw [length_octets_eq, header_size] at hvisible
  rw [parse_frame_octets frame.opcode hkey hstart (by omega) (fun hlimit => hlimit) frame.long_form, if_neg (by omega),
    parsed_eq, length_octets_eq]
  rfl

theorem parse_cut_content (h : frame.key = none ∨ frame.payload ≠ []) {cut : Nat} (beyond : List Byte)
    (hheader : frame.header_size ≤ cut) (hcut : cut < frame.octets.length) :
    ov_websocket_parse_frame (.of (frame.octets.take cut) beyond) = some .progress := by
  have hkey : frame.key = none ∨ frame.payload.length ≠ 0 := by simpa using h
  have hlength : (Buffer.of (frame.octets.take cut) beyond).length = cut := by
    simp only [Buffer.of, length_take]
    omega
  rw [header_size] at hheader
  obtain ⟨more, hmore⟩ := Nat.exists_eq_add_of_le hheader
  have hstart : (Buffer.of (frame.octets.take cut) beyond).start =
      frame.first :: (length_octets 0x10000 frame.key.isSome frame.payload.length ++
        ((key_octets frame.key ++ frame.payload).take more ++ beyond)) := by
    rw [Buffer.of, octets, hmore, Nat.add_assoc, Nat.add_comm 1, take_succ_cons, take_length_add_append]
    simp
  rw [length_octets_eq, header_size] at hcut
  rw [parse_frame_octets frame.opcode hkey hstart (by omega) (fun hlimit => hlimit) frame.long_form, if_pos]
  refine ⟨?_, by omega⟩
  intro hzero
  rw [hzero] at hcut hheader
  have hnone : frame.key = none := hkey.resolve_right fun hne => hne hzero
  rw [hnone] at hcut hheader
  simp only [key_octets, length_nil] at hcut
  omega

theorem parse_cut_header (h : frame.payload.length < 0x10000) {cut : Nat} (beyond : List Byte) (hpositive : 0 < cut)
    (hcut : cut < frame.header_size) :
    ov_websocket_parse_frame (.of (frame.octets.take cut) beyond) = some .progress := by
  have hwithin : cut < frame.octets.length := by
    rw [length_octets_eq]
    omega
  have hlength : (Buffer.of (frame.octets.take cut) beyond).length = cut := by
    simp only [Buffer.of, length_take]
    omega
  have hread : ∀ {i : Nat}, i < cut → (Buffer.of (frame.octets.take cut) beyond).start[i]? = frame.octets[i]? := by
    intro i hi
    rw [Buffer.of, getElem?_append_left (by rw [length_take]; omega), getElem?_take_of_lt hi]
  have hfirst : (Buffer.of (frame.octets.take cut) beyond).start[0]? = some frame.first := by
    rw [hread hpositive, octets]
    rfl
  have hpayload : parse_payload_length (.of (frame.octets.take cut) beyond) = some .progress := by
    rw [parse_payload_length, hlength]
    by_cases hone : cut < 2
    · rw [if_pos hone]
    have hform : ¬ frame.payload.length < 126 := by
      intro hshort
      rw [header_size, length_octets_short hshort] at hcut
      simp only [length_singleton] at hcut
      omega
    have hsecond : frame.octets[1]? = some (flag_mask frame.key.isSome ||| BitVec.ofNat 8 126) := by
      rw [octets, length_octets_middle hform h]
      rfl
    rw [header_size, length_octets_middle hform h] at hcut
    simp only [length_cons, length_be] at hcut
    rw [if_neg hone, hread (by omega), hsecond, bind_some]
    simp only [flag_mask_length _ (by omega : 126 < 128)]
    rw [if_neg (by omega), if_pos trivial, if_pos (by omega)]
  rw [ov_websocket_parse_frame, if_neg (by omega), hpayload, hfirst]
  rfl

theorem parse_masked_empty {key : BitVec 32} (hkey : frame.key = some key) (hpayload : frame.payload = [])
    (beyond : List Byte) : ov_websocket_parse_frame (.of frame.octets beyond) = some .error := by
  have hstart : (Buffer.of frame.octets beyond).start =
      frame.first :: (length_octets 0x10000 true 0 ++ (be32 key ++ beyond)) := by
    simp [Buffer.of, octets, hkey, hpayload, key_octets]
  have hlength : (Buffer.of frame.octets beyond).length = 6 := by
    simp [Buffer.of, octets, hkey, hpayload, key_octets, length_octets_short]
  have hvisible : (length_octets 0x10000 true 0).length < (Buffer.of frame.octets beyond).length := by
    rw [hlength, length_octets_short (by omega)]
    simp
  rw [ov_websocket_parse_frame, hlength, if_neg (by omega),
    parse_payload_length_octets hstart hvisible (by omega) (by omega), hstart]
  rfl

theorem parse_cut_long (h : ¬ frame.payload.length < 0x10000) :
    ov_websocket_parse_frame (.of (frame.octets.take 2) [0x80]) = some .error := by
  have htake : frame.octets.take 2 = [frame.first, flag_mask frame.key.isSome ||| BitVec.ofNat 8 127] := by
    rw [octets, length_octets_long (by omega) h]
    rfl
  have hlong : (flag_mask frame.key.isSome ||| BitVec.ofNat 8 127) &&& 0x7F = 127 := by cases frame.key.isSome <;> rfl
  rw [htake, parse_two_octets frame.first hlong]
  rfl

theorem accepted_iff :
    frame.Accepted ↔ (frame.key = none ∨ frame.payload ≠ []) ∧ frame.payload.length < 0x10000 := by
  constructor
  · intro haccepted
    refine ⟨?_, ?_⟩
    · by_contra hnot
      rw [not_or, not_not, ← ne_eq, ne_none_iff_exists'] at hnot
      obtain ⟨⟨key, hkey⟩, hpayload⟩ := hnot
      have hcomplete := haccepted.1 [] []
      rw [List.append_nil, parse_masked_empty hkey hpayload] at hcomplete
      simp at hcomplete
    by_contra hlong
    have hcut := haccepted.2 2 [0x80] (by omega) (by rw [length_octets_eq]; omega)
    rw [parse_cut_long hlong] at hcut
    simp at hcut
  intro hcondition
  refine ⟨parse_complete hcondition.1, ?_⟩
  intro cut beyond hpositive hcut
  by_cases hheader : cut < frame.header_size
  · exact parse_cut_header hcondition.2 beyond hpositive hheader
  · exact parse_cut_content hcondition.1 beyond (by omega) hcut

end LegalFrame

theorem read_of {data beyond : List Byte} {i : Nat} (h : i < data.length) :
    (Buffer.of data beyond).start[i]? = data[i]? := getElem?_append_left h

theorem slice_of {data beyond : List Byte} {i : Nat} (h : i + n ≤ data.length) :
    bytes.slice (Buffer.of data beyond).start i n = bytes.slice data i n := by
  rw [bytes.slice, Buffer.of, drop_append_of_le_length (by omega),
    take_append_of_le_length (by rw [length_drop]; omega)]
  rfl

theorem masking_of (data beyond : List Byte) (masked : Bool) (content_start : Option Nat) (n : Nat) :
    masking (.of data beyond) masked content_start n = masking (.of data []) masked content_start n := rfl

/-- The third octet is looked at before it is known to be there. -/
def peeks_behind (data : List Byte) : Prop := data.length = 2 ∧ ∃ second ∈ data[1]?, second &&& 0x7F = 127

theorem parse_payload_length_of {data : List Byte} (h : ¬ peeks_behind data) (beyond : List Byte) :
    parse_payload_length (.of data beyond) = parse_payload_length (.of data []) := by
  have hlength : ∀ beyond, (Buffer.of data beyond).length = data.length := fun _ => rfl
  rw [parse_payload_length, parse_payload_length, hlength, hlength]
  by_cases htwo : data.length < 2
  · rw [if_pos htwo, if_pos htwo]
  have hread : ∀ beyond, (Buffer.of data beyond).start[1]? = data[1]? := fun _ => read_of (by omega)
  rw [if_neg htwo, if_neg htwo, hread, hread]
  cases hsecond : data[1]? with
  | none => rfl
  | some second =>
    simp only [bind_some, masking_of data beyond]
    by_cases hshort : (second &&& 0x7F).toNat < 126
    · rw [if_pos hshort, if_pos hshort]
    rw [if_neg hshort, if_neg hshort]
    by_cases hmiddle : (second &&& 0x7F).toNat = 126
    · rw [if_pos hmiddle, if_pos hmiddle]
      by_cases hfour : data.length < 4
      · rw [if_pos hfour, if_pos hfour]
      · rw [if_neg hfour, if_neg hfour, slice_of (by omega), slice_of (by omega)]
    rw [if_neg hmiddle, if_neg hmiddle]
    have hthree : 2 < data.length := by
      by_contra hle
      refine h ⟨by omega, second, hsecond, ?_⟩
      have hbound : (second &&& 0x7F).toNat ≤ 127 := by
        rw [BitVec.toNat_and]
        exact Nat.and_le_right
      apply BitVec.eq_of_toNat_eq
      rw [show (127 : Byte).toNat = 127 from rfl]
      omega
    rw [read_of hthree, read_of hthree]
    by_cases hten : data.length < 10
    · simp only [hten, if_true]
    · simp only [hten, if_false, slice_of (by omega : 2 + 8 ≤ data.length)]

theorem independent_iff (data : List Byte) : Independent data ↔ ¬ peeks_behind data := by
  constructor
  · intro hindependent hpeeks
    obtain ⟨htwo, second, hsecond, hlong⟩ := hpeeks
    obtain ⟨first, rest, hdata⟩ := exists_cons_of_length_pos (by omega : 0 < data.length)
    have hrest : rest = [second] := by
      rw [hdata, length_cons] at htwo
      obtain ⟨only, hrest⟩ := length_eq_one_iff.mp (by omega : rest.length = 1)
      rw [hdata, hrest] at hsecond
      simp only [getElem?_cons_succ, getElem?_cons_zero, mem_def, some.injEq] at hsecond
      rw [hrest, hsecond]
    have hsame := hindependent [0x80] [0x00]
    rw [hdata, hrest, parse_two_octets first hlong, parse_two_octets first hlong] at hsame
    simp at hsame
  intro hnot beyond beyond'
  cases hdata : data with
  | nil => rfl
  | cons first rest =>
    have hfirst : ∀ beyond, (Buffer.of (first :: rest) beyond).start[0]? = some first := fun _ => rfl
    rw [hdata] at hnot
    rw [ov_websocket_parse_frame, ov_websocket_parse_frame, parse_payload_length_of hnot beyond,
      parse_payload_length_of hnot beyond', hfirst, hfirst]
    rfl

/-- The legal frames that the parser accepts in whole and in part, and the data for which
    it looks behind them. -/
theorem parse_frame_incremental (frame : LegalFrame) (data : List Byte) :
    (frame.Accepted ↔ (frame.key = none ∨ frame.payload ≠ []) ∧ frame.payload.length < 0x10000) ∧
      (Independent data ↔ ¬ peeks_behind data) :=
  ⟨LegalFrame.accepted_iff, independent_iff data⟩

/-- A masked ping without content is an error, and so is the begin of a long text in front of
    an octet that was left in the memory. -/
theorem masked_empty_ping_is_error :
    ov_websocket_parse_frame (.of [0x89, 0x80, 1, 2, 3, 4] []) = some .error ∧
      ov_websocket_parse_frame (.of [0x81, 0x7F] [0x80]) = some .error ∧
      ov_websocket_parse_frame (.of [0x81, 0x7F] [0x00]) = some .progress := by
  decide

end openvocs.websocket
