import Openvocs.Websocket.Frame

open List Option

namespace openvocs.websocket

open bytes

/-- The memory of a buffer is overwritten. -/
def Buffer.overwrite (buffer : Buffer) (i : Nat) (octets : List Byte) : Buffer where
  start := bytes.overwrite buffer.start i octets
  length := buffer.length
  within := Nat.le_trans buffer.within (length_le_overwrite _ _ _)

@[simp] theorem Buffer.overwrite_start (buffer : Buffer) (i : Nat) (octets : List Byte) :
    (buffer.overwrite i octets).start = bytes.overwrite buffer.start i octets := rfl

/-- Every octet is changed by one of the four octets of the key. -/
def masked (key data : List Byte) : List Byte := data.mapIdx fun i octet => octet ^^^ key.getD (i % 4) 0

/-- `mask_data`, for a key in front of the data. -/
def mask_data (buffer : Buffer) (start size mask : Nat) : Bool × Buffer :=
  if size < 1 then (false, buffer)
  else (true, buffer.overwrite start
    (masked (bytes.slice buffer.start mask 4) (bytes.slice buffer.start start size)))

def ov_websocket_frame_unmask (buffer : Buffer) (frame : Frame) : Bool × Buffer :=
  match frame.content_start, frame.mask with
  | none, some _ => (false, buffer)
  | some start, some mask => mask_data buffer start frame.content_length mask
  | _, none => (true, buffer)

/-- `ov_buffer_extend`. All memory behind the length is set to zero. -/
def ov_buffer_extend (buffer : Buffer) (size : Nat) : Buffer where
  start := buffer.start.take buffer.length ++ List.replicate (buffer.start.length + size - buffer.length) 0
  length := buffer.length
  within := by
    have hwithin := buffer.within
    simp only [length_append, length_take, length_replicate]
    omega

@[simp] theorem ov_buffer_extend_start (buffer : Buffer) (size : Nat) :
    (ov_buffer_extend buffer size).start = buffer.start.take buffer.length ++
      List.replicate (buffer.start.length + size - buffer.length) 0 := rfl

theorem masking_success {buffer : Buffer} {flag : Bool} {content_start : Option Nat} {n next : Nat} {payload : Payload}
    (hlength : 2 ≤ buffer.length) (h : masking buffer flag content_start n = .success payload next) :
    payload.content_length = n ∧ next ≤ buffer.length := by
  have hreceived : ∀ payload', all_received buffer payload' = .success payload next →
      payload = payload' ∧ next ≤ buffer.length := by
    intro payload' hall
    rw [all_received] at hall
    cases hstart : payload'.content_start with
    | none =>
      simp only [hstart, Parsed.success.injEq] at hall
      exact ⟨hall.1.symm, by omega⟩
    | some start =>
      simp only [hstart] at hall
      by_cases hcut : buffer.length < start + payload'.content_length
      · simp [hcut] at hall
      rw [if_neg hcut, Parsed.success.injEq] at hall
      exact ⟨hall.1.symm, by omega⟩
  cases flag with
  | false =>
    obtain ⟨heq, hle⟩ := hreceived _ (by simpa [masking] using h)
    exact ⟨by rw [heq], hle⟩
  | true =>
    cases content_start with
    | none => simp [masking] at h
    | some start =>
      obtain ⟨heq, hle⟩ := hreceived _ (by simpa [masking] using h)
      exact ⟨by rw [heq], hle⟩

theorem number_lt_of_msb {start : List Byte} {third : Byte} (hthird : start[2]? = some third)
    (hmsb : third &&& 0x80 = 0) : bytes.number (bytes.slice start 2 8) < 2 ^ 63 := by
  have hsmall : third.toNat < 128 := by
    have hall : ∀ octet : BitVec 8, octet &&& 0x80 = 0 → octet.toNat < 128 := by decide +kernel
    exact hall third hmsb
  have hslice : bytes.slice start 2 8 = third :: (start.drop 3).take 7 := by
    rw [bytes.slice, drop_eq_getElem?_toList_append, hthird]
    rfl
  have hrest := number_lt ((start.drop 3).take 7)
  have hlength : ((start.drop 3).take 7).length ≤ 7 := length_take_le _ _
  have hpow : 256 ^ ((start.drop 3).take 7).length ≤ 256 ^ 7 := Nat.pow_le_pow_right (by omega) hlength
  rw [hslice, number_cons]
  have hmul : third.toNat * 256 ^ ((start.drop 3).take 7).length ≤ 127 * 256 ^ 7 :=
    Nat.mul_le_mul (by omega) hpow
  omega

theorem parse_payload_length_success {buffer : Buffer} {payload : Payload} {next : Nat}
    (h : parse_payload_length buffer = some (.success payload next)) :
    payload.content_length < 2 ^ 63 ∧ next ≤ buffer.length := by
  rw [parse_payload_length] at h
  by_cases htwo : buffer.length < 2
  · simp [htwo] at h
  rw [if_neg htwo, bind_eq_some_iff] at h
  obtain ⟨second, _, h⟩ := h
  have hbound : (second &&& 0x7F).toNat < 256 := (second &&& 0x7F).isLt
  by_cases hshort : (second &&& 0x7F).toNat < 126
  · simp only [hshort, if_true, some.injEq] at h
    obtain ⟨hvalue, hnext⟩ := masking_success (by omega) h
    exact ⟨by omega, hnext⟩
  simp only [hshort, if_false] at h
  by_cases hmiddle : (second &&& 0x7F).toNat = 126
  · simp only [hmiddle, if_true] at h
    by_cases hfour : buffer.length < 4
    · simp [hfour] at h
    simp only [hfour, if_false, some.injEq] at h
    by_cases hsmall : bytes.number (bytes.slice buffer.start 2 2) < 125
    · simp [hsmall] at h
    rw [if_neg hsmall] at h
    obtain ⟨hvalue, hnext⟩ := masking_success (by omega) h
    have hnumber := number_lt (bytes.slice buffer.start 2 2)
    have hpow : 256 ^ (bytes.slice buffer.start 2 2).length ≤ 256 ^ 2 :=
      Nat.pow_le_pow_right (by omega) (length_take_le _ _)
    exact ⟨by omega, hnext⟩
  simp only [hmiddle, if_false, bind_eq_some_iff] at h
  obtain ⟨third, hthird, h⟩ := h
  by_cases hmsb : third &&& 0x80 = 0
  · rw [if_neg (not_not.mpr hmsb)] at h
    by_cases hten : buffer.length < 10
    · simp [hten] at h
    simp only [hten, if_false, some.injEq] at h
    by_cases hsmall : bytes.number (bytes.slice buffer.start 2 8) < 0x10000
    · simp [hsmall] at h
    rw [if_neg hsmall] at h
    obtain ⟨hvalue, hnext⟩ := masking_success (by omega) h
    have hnumber := number_lt_of_msb hthird hmsb
    exact ⟨by omega, hnext⟩
  rw [if_pos hmsb] at h
  simp at h

theorem parse_frame_success {buffer : Buffer} {frame : Frame} {next : Nat}
    (h : ov_websocket_parse_frame buffer = some (.success frame next)) :
    (∀ first, buffer.start[0]? = some first → frame.opcode = 0x0F &&& first) ∧
      frame.content_length < 2 ^ 63 ∧ next ≤ buffer.length := by
  rw [ov_websocket_parse_frame] at h
  by_cases hzero : buffer.length = 0
  · simp [hzero] at h
  rw [if_neg hzero, bind_eq_some_iff] at h
  obtain ⟨payload, hpayload, h⟩ := h
  rw [map_eq_some_iff] at h
  obtain ⟨first, hfirst, h⟩ := h
  cases payload with
  | error => simp [parse_opcode] at h
  | progress => simp [parse_opcode] at h
  | success payload next' =>
    obtain ⟨hsize, hnext⟩ := parse_payload_length_success hpayload
    by_cases hopcode : is_opcode (0x0F &&& first)
    · simp only [parse_opcode, hopcode, if_true, Parsed.success.injEq] at h
      obtain ⟨hframe, hsame⟩ := h
      refine ⟨?_, ?_, hsame ▸ hnext⟩
      · intro first' hfirst'
        rw [hfirst, some.injEq] at hfirst'
        rw [← hframe, ← hfirst']
      rw [← hframe]
      exact hsize
    rw [parse_opcode, if_neg hopcode] at h
    simp at h

/-- The octets that a frame needs. -/
def required (length : Nat) (key : Option (BitVec 32)) : Nat :=
  (if length < 126 then 2 + length else if length < 0xffff then 4 + length else 10 + length) +
    if key.isSome then 4 else 0

def make_room (buffer : Buffer) (required : Nat) : Buffer :=
  if buffer.start.length < required then ov_buffer_extend buffer (required - buffer.start.length) else buffer

/-- The length, the key and the data are written behind the first octet, and the data are
    masked in their place. -/
def write_data (buffer : Buffer) (data : List Byte) (key : Option (BitVec 32)) : Bool × Buffer :=
  let length := length_octets 0xffff key.isSome data.length
  let buffer := buffer.overwrite 1 (length ++ (key_octets key ++ data))
  if key.isSome then mask_data buffer (1 + length.length + 4) data.length (1 + length.length) else (true, buffer)

/-- The end of `ov_websocket_set_data`: the length of the buffer is what the parser makes of
    the whole memory. -/
def reparse (buffer : Buffer) : Option (Bool × Buffer) :=
  let full : Buffer := ⟨buffer.start, buffer.start.length, Nat.le_refl _⟩
  match h : ov_websocket_parse_frame full with
  | none => none
  | some (.success _ next) => some (true, ⟨buffer.start, next, (parse_frame_success h).2.2⟩)
  | some _ => some (false, full)

/-- `ov_websocket_set_data` for a frame with a buffer. The key is what
    `generate_masking_key` draws, if there is to be one. -/
def ov_websocket_set_data (buffer : Buffer) (data : List Byte) (key : Option (BitVec 32)) : Option (Bool × Buffer) :=
  let room := make_room buffer (required data.length key)
  let cleared := room.overwrite 1 (List.replicate (room.start.length - 1) 0)
  if data = [] ∧ key.isSome then some (false, cleared)
  else
    match write_data cleared data key with
    | (false, buffer) => some (false, buffer)
    | (true, buffer) => reparse buffer

/-- The content of a frame in a buffer. -/
def content (buffer : Buffer) (frame : Frame) : List Byte :=
  match frame.content_start with
  | none => []
  | some start => bytes.slice buffer.start start frame.content_length

/-- The data are written into a buffer of just their frame, from which they are read back. -/
def RoundTrips (buffer : Buffer) (first : Byte) (data : List Byte) (key : Option (BitVec 32)) : Prop :=
  ∃ out frame plain, ov_websocket_set_data buffer data key = some (true, out) ∧
    out.length = 1 + (length_octets 0x10000 key.isSome data.length).length + (key_octets key).length + data.length ∧
    ov_websocket_parse_frame out = some (.success frame out.length) ∧ frame.opcode = 0x0F &&& first ∧
    ov_websocket_frame_unmask out frame = (true, plain) ∧ content plain frame = data

/-- The first octet outlives the growth of the buffer. -/
def KeepsFirst (buffer : Buffer) (first : Byte) (required : Nat) : Prop :=
  required ≤ buffer.start.length ∨ 0 < buffer.length ∨ 0x0F &&& first = 0

theorem overwrite_cons (first : Byte) (l octets : List Byte) :
    bytes.overwrite (first :: l) 1 octets = first :: (octets ++ l.drop octets.length) := by
  rw [bytes.overwrite, Nat.add_comm]
  rfl

theorem overwrite_mid (before l after octets : List Byte) {i : Nat} (hi : before.length = i)
    (hlength : octets.length = l.length) :
    bytes.overwrite (before ++ (l ++ after)) i octets = before ++ (octets ++ after) := by
  subst hi
  rw [bytes.overwrite, hlength, ← append_assoc before l after, ← length_append, drop_left,
    append_assoc before l after, take_left, append_assoc]

@[simp] theorem length_masked (key data : List Byte) : (masked key data).length = data.length := by
  simp [masked]

theorem masked_masked (key data : List Byte) : masked key (masked key data) = data := by
  refine ext_getElem (by simp) fun i hleft hright => ?_
  simp only [masked, getElem_mapIdx]
  rw [BitVec.xor_assoc, BitVec.xor_self, BitVec.xor_zero]

/-- The content as it is in the frame. -/
def payload (key : Option (BitVec 32)) (data : List Byte) : List Byte :=
  match key with
  | none => data
  | some key => masked (be32 key) data

theorem length_payload (key : Option (BitVec 32)) (data : List Byte) : (payload key data).length = data.length := by
  cases key <;> simp [payload]

/-- The first octet after the buffer has grown. -/
def kept_first (buffer : Buffer) (first : Byte) (required : Nat) : Byte :=
  if required ≤ buffer.start.length ∨ 0 < buffer.length then first else 0

theorem make_room_start {buffer : Buffer} {first : Byte} (hfirst : buffer.start[0]? = some first) (required : Nat) :
    ∃ tail, (make_room buffer required).start = kept_first buffer first required :: tail ∧
      required ≤ tail.length + 1 := by
  obtain ⟨head, rest, hstart⟩ : ∃ head rest, buffer.start = head :: rest := by
    cases hstart : buffer.start with
    | nil => simp [hstart] at hfirst
    | cons head rest => exact ⟨head, rest, rfl⟩
  have hhead : head = first := by simpa [hstart] using hfirst
  have hcapacity : buffer.start.length = rest.length + 1 := by rw [hstart, length_cons]
  rw [make_room, kept_first]
  by_cases hgrows : buffer.start.length < required
  · rw [if_pos hgrows, ov_buffer_extend_start]
    cases hlength : buffer.length with
    | zero =>
      refine ⟨List.replicate (required - 1) 0, ?_, ?_⟩
      · have hsize : buffer.start.length + (required - buffer.start.length) - 0 = required - 1 + 1 := by omega
        rw [if_neg (by omega), hsize, take_zero, nil_append, replicate_succ]
      rw [length_replicate]
      omega
    | succ length =>
      have hwithin := buffer.within
      refine ⟨rest.take length ++
        List.replicate (buffer.start.length + (required - buffer.start.length) - (length + 1)) 0, ?_, ?_⟩
      · rw [if_pos (by omega), hstart, take_succ_cons, List.cons_append, hhead]
      simp only [length_append, length_take, length_replicate]
      omega
  rw [if_neg hgrows, if_pos (Or.inl (by omega))]
  exact ⟨rest, by rw [hstart, hhead], by omega⟩

theorem required_eq (n : Nat) (key : Option (BitVec 32)) :
    required n key = 1 + (length_octets 0xffff key.isSome n).length + (key_octets key).length + n := by
  rw [required, length_key_octets]
  by_cases hshort : n < 126
  · rw [length_octets_short hshort, if_pos hshort, length_singleton]
    omega
  by_cases hmiddle : n < 0xffff
  · rw [length_octets_middle hshort hmiddle, if_neg hshort, if_pos hmiddle, length_cons, length_be]
    omega
  rw [length_octets_long hshort hmiddle, if_neg hshort, if_neg hmiddle, length_cons, length_be]
  omega

theorem write_data_start {buffer : Buffer} {first : Byte} {tail : List Byte} (hstart : buffer.start = first :: tail)
    {data : List Byte} {key : Option (BitVec 32)} (hdata : key.isSome → data ≠ []) :
    ∃ written, write_data buffer data key = (true, written) ∧
      written.start = (first :: length_octets 0xffff key.isSome data.length) ++ (key_octets key ++
        (payload key data ++
          tail.drop (length_octets 0xffff key.isSome data.length ++ (key_octets key ++ data)).length)) := by
  have hplain : (buffer.overwrite 1 (length_octets 0xffff key.isSome data.length ++ (key_octets key ++ data))).start =
      (first :: length_octets 0xffff key.isSome data.length) ++ (key_octets key ++ (data ++
        tail.drop (length_octets 0xffff key.isSome data.length ++ (key_octets key ++ data)).length)) := by
    rw [Buffer.overwrite_start, hstart, overwrite_cons]
    simp
  cases key with
  | none => exact ⟨_, rfl, hplain⟩
  | some key =>
    have hpositive : ¬ data.length < 1 := by
      have hne := hdata rfl
      have := length_pos_iff.mpr hne
      omega
    rw [write_data, if_pos (show (some key).isSome = true from rfl), mask_data, if_neg hpositive]
    refine ⟨_, rfl, ?_⟩
    generalize length_octets 0xffff (some key).isSome data.length = octets at hplain
    have hkey : bytes.slice (buffer.overwrite 1 (octets ++ (key_octets (some key) ++ data))).start
        (1 + octets.length) 4 = be32 key := by
      rw [hplain]
      exact slice_mid _ _ _ (by rw [length_cons]; omega) rfl
    have hcontent : bytes.slice (buffer.overwrite 1 (octets ++ (key_octets (some key) ++ data))).start
        (1 + octets.length + 4) data.length = data := by
      rw [hplain, ← append_assoc]
      refine slice_mid _ _ _ ?_ rfl
      simp only [length_append, length_cons, key_octets, length_be32]
      omega
    rw [hkey, hcontent, Buffer.overwrite_start, hplain, ← append_assoc, overwrite_mid]
    · simp [payload, key_octets]
    · simp only [length_append, length_cons, key_octets, length_be32]
      omega
    · exact length_masked _ _

theorem reparse_of_success {buffer : Buffer} {frame : Frame} {next : Nat} (hwithin : next ≤ buffer.start.length)
    (h : ov_websocket_parse_frame ⟨buffer.start, buffer.start.length, Nat.le_refl _⟩ = some (.success frame next)) :
    reparse buffer = some (true, ⟨buffer.start, next, hwithin⟩) := by
  rw [reparse]
  split
  · rename_i hnone
    rw [h] at hnone
    simp at hnone
  · rename_i frame' next' hsome
    rw [h, some.injEq, Parsed.success.injEq] at hsome
    simp only [hsome.2]
  rename_i result hother hsome
  rw [h, some.injEq] at hsome
  exact absurd hsome.symm (hother frame next)

theorem reparse_true {buffer out : Buffer} (h : reparse buffer = some (true, out)) :
    out.start = buffer.start ∧ ∃ frame next,
      ov_websocket_parse_frame ⟨buffer.start, buffer.start.length, Nat.le_refl _⟩ = some (.success frame next) := by
  rw [reparse] at h
  split at h
  · simp at h
  · rename_i frame next hsome
    simp only [some.injEq, Prod.mk.injEq, true_and] at h
    exact ⟨by rw [← h], frame, next, hsome⟩
  · simp at h

theorem set_data_eq {buffer : Buffer} {first : Byte} (hfirst : buffer.start[0]? = some first) {data : List Byte}
    {key : Option (BitVec 32)} (hdata : key.isSome → data ≠ []) :
    ∃ written rest, ov_websocket_set_data buffer data key = reparse written ∧
      written.start = (kept_first buffer first (required data.length key) ::
        length_octets 0xffff key.isSome data.length) ++ (key_octets key ++ (payload key data ++ rest)) ∧
      required data.length key ≤ written.start.length := by
  obtain ⟨tail, hroom, hrequired⟩ := make_room_start hfirst (required data.length key)
  have hcleared : ((make_room buffer (required data.length key)).overwrite 1
      (List.replicate ((make_room buffer (required data.length key)).start.length - 1) 0)).start =
      kept_first buffer first (required data.length key) ::
        (List.replicate tail.length 0 ++ tail.drop tail.length) := by
    rw [Buffer.overwrite_start, hroom, overwrite_cons]
    simp
  obtain ⟨written, hwrite, hwritten⟩ := write_data_start hcleared hdata
  refine ⟨written, _, ?_, hwritten, ?_⟩
  · have hnot : ¬ (data = [] ∧ key.isSome = true) := fun hboth => hdata hboth.2 hboth.1
    simp only [ov_websocket_set_data, if_neg hnot, hwrite]
  rw [hwritten, required_eq]
  simp only [length_append, length_cons, length_payload, length_drop, length_replicate]
  omega

theorem parse_frame_not_shortest {buffer : Buffer} {first : Byte} {rest : List Byte} {limit n : Nat} {flag : Bool}
    (hstart : buffer.start = first :: (length_octets limit flag n ++ rest)) (hlimit : limit ≤ n) (hlong : 126 ≤ n)
    (hsmall : n < 0x10000) (hlength : 10 ≤ buffer.length) : ov_websocket_parse_frame buffer = some .error := by
  rw [length_octets_long (by omega) (by omega)] at hstart
  have hfirst : buffer.start[0]? = some first := by simp [hstart]
  have hsecond : buffer.start[1]? = some (flag_mask flag ||| BitVec.ofNat 8 127) := by simp [hstart]
  have hthird : buffer.start[2]? = some (BitVec.ofNat 8 (n >>> 56)) := by simp [hstart, be]
  have hnumber : bytes.number (bytes.slice buffer.start 2 8) = n := by
    have hslice : bytes.slice buffer.start 2 8 = be 8 n := by simp [bytes.slice, hstart]
    rw [hslice, number_be, Nat.mod_eq_of_lt (by omega)]
  have hpayload : parse_payload_length buffer = some .error := by
    rw [parse_payload_length, if_neg (by omega), hsecond, bind_some]
    simp only [flag_mask_length flag (by omega : 127 < 128), hthird, bind_some,
      msb_eq_zero (by omega : n < 2 ^ 63), hnumber]
    rw [if_neg (by omega), if_neg (by omega), if_neg (by simp), if_neg (by omega), if_pos hsmall]
  rw [ov_websocket_parse_frame, if_neg (by omega), hpayload, hfirst]
  rfl

theorem length_octets_limit {n : Nat} (hn : n ≠ 0xffff) (flag : Bool) :
    length_octets 0xffff flag n = length_octets 0x10000 flag n := by
  by_cases hshort : n < 126
  · rw [length_octets_short hshort, length_octets_short hshort]
  by_cases hmiddle : n < 0xffff
  · rw [length_octets_middle hshort hmiddle, length_octets_middle hshort (by omega)]
  · rw [length_octets_long hshort hmiddle, length_octets_long hshort (by omega)]

theorem unmask_content {buffer : Buffer} {first : Byte} {octets rest data : List Byte} {key : Option (BitVec 32)}
    (hdata : key.isSome → data ≠ [])
    (hstart : buffer.start = (first :: octets) ++ (key_octets key ++ (payload key data ++ rest))) :
    ∃ plain, ov_websocket_frame_unmask buffer (found_frame first key (1 + octets.length) data.length) = (true, plain) ∧
      content plain (found_frame first key (1 + octets.length) data.length) = data := by
  have hheader : (first :: octets).length = 1 + octets.length := by
    rw [length_cons]
    omega
  cases key with
  | none =>
    refine ⟨buffer, ?_, ?_⟩
    · by_cases hempty : data.length = 0 <;> simp [ov_websocket_frame_unmask, found_frame, hempty]
    by_cases hempty : data = []
    · simp [content, found_frame, hempty]
    simp only [content, found_frame, key_octets, length_nil, Nat.add_zero,
      if_neg (fun hzero => hempty (length_eq_zero_iff.mp hzero)), hstart, nil_append, payload]
    exact slice_mid _ _ _ hheader rfl
  | some key =>
    have hpositive : data.length ≠ 0 := fun hzero => hdata rfl (length_eq_zero_iff.mp hzero)
    have hcontent_start : ((first :: octets) ++ key_octets (some key)).length = 1 + octets.length + 4 := by
      rw [length_append, hheader]
      rfl
    have hkey : bytes.slice buffer.start (1 + octets.length) 4 = be32 key := by
      rw [hstart]
      exact slice_mid _ _ _ hheader rfl
    have hslice : bytes.slice buffer.start (1 + octets.length + 4) data.length = masked (be32 key) data := by
      rw [hstart, ← append_assoc]
      exact slice_mid _ _ _ hcontent_start (length_masked _ _)
    refine ⟨buffer.overwrite (1 + octets.length + 4) data, ?_, ?_⟩
    · simp only [ov_websocket_frame_unmask, found_frame, if_neg hpositive, key_octets, length_be32,
        isSome_some, if_true, mask_data]
      rw [if_neg (by omega), hkey, hslice, masked_masked]
    simp only [content, found_frame, if_neg hpositive, key_octets, length_be32, Buffer.overwrite_start]
    rw [hstart, ← append_assoc, overwrite_mid _ _ _ _ hcontent_start (length_payload _ _).symm]
    exact slice_mid _ _ _ hcontent_start rfl

theorem RoundTrips.conditions {buffer : Buffer} {first : Byte} (hfirst : buffer.start[0]? = some first)
    {data : List Byte} {key : Option (BitVec 32)} (hdata : key.isSome → data ≠ [])
    (htrip : RoundTrips buffer first data key) :
    data.length ≠ 0xffff ∧ data.length < 2 ^ 63 ∧ KeepsFirst buffer first (required data.length key) := by
  obtain ⟨written, rest, hset, hstart, hrequired⟩ := set_data_eq hfirst hdata
  obtain ⟨out, frame, plain, hout, _, hparse, hsame, hunmask, hcontent⟩ := htrip
  rw [hset] at hout
  obtain ⟨hout_start, frame', next', hparse'⟩ := reparse_true hout
  obtain ⟨hopcode', hsize, _⟩ := parse_frame_success hparse
  refine ⟨?_, ?_, ?_⟩
  · intro hlength
    have hten : 10 ≤ written.start.length := by
      rw [required_eq] at hrequired
      omega
    have herror : ov_websocket_parse_frame ⟨written.start, _, Nat.le_refl _⟩ = some .error :=
      parse_frame_not_shortest hstart (by omega) (by omega) (by omega) hten
    rw [herror] at hparse'
    simp at hparse'
  · have hle : (content plain frame).length ≤ frame.content_length := by
      rw [content]
      cases frame.content_start with
      | none => simp
      | some start => exact length_take_le _ _
    rw [hcontent] at hle
    omega
  have hkept := hopcode' (kept_first buffer first (required data.length key)) (by rw [hout_start, hstart]; rfl)
  rw [hsame, kept_first] at hkept
  by_cases hkeeps : required data.length key ≤ buffer.start.length ∨ 0 < buffer.length
  · obtain hroom | hused := hkeeps
    · exact Or.inl hroom
    · exact Or.inr (Or.inl hused)
  rw [if_neg hkeeps] at hkept
  exact Or.inr (Or.inr hkept)

theorem KeepsFirst.kept_first {buffer : Buffer} {first : Byte} {required : Nat} (h : KeepsFirst buffer first required) :
    0x0F &&& kept_first buffer first required = 0x0F &&& first := by
  rw [websocket.kept_first]
  by_cases hroom : required ≤ buffer.start.length ∨ 0 < buffer.length
  · rw [if_pos hroom]
  rw [if_neg hroom]
  obtain hfits | hused | hzero := h
  · exact absurd (Or.inl hfits) hroom
  · exact absurd (Or.inr hused) hroom
  rw [hzero]
  rfl

theorem round_trips_of_conditions {buffer : Buffer} {first : Byte} (hfirst : buffer.start[0]? = some first)
    (hopcode : is_opcode (0x0F &&& first)) {data : List Byte} {key : Option (BitVec 32)}
    (hdata : key.isSome → data ≠ []) (hlength : data.length ≠ 0xffff) (hsize : data.length < 2 ^ 63)
    (hkeeps : KeepsFirst buffer first (required data.length key)) : RoundTrips buffer first data key := by
  obtain ⟨written, rest, hset, hstart, hrequired⟩ := set_data_eq hfirst hdata
  have hkept := hkeeps.kept_first
  have hkey : key = none ∨ data.length ≠ 0 := by
    cases key with
    | none => exact Or.inl rfl
    | some key => exact Or.inr fun hzero => hdata rfl (length_eq_zero_iff.mp hzero)
  rw [required_eq] at hrequired
  -- the parser finds the frame in the whole memory, and again in the buffer that is left
  have hparse : ∀ buffer' : Buffer, buffer'.start = written.start →
      1 + (length_octets 0xffff key.isSome data.length).length + (key_octets key).length + data.length ≤
        buffer'.length →
      ov_websocket_parse_frame buffer' = some (.success
        (found_frame (kept_first buffer first (required data.length key)) key
          (1 + (length_octets 0xffff key.isSome data.length).length) data.length)
        (1 + (length_octets 0xffff key.isSome data.length).length + (key_octets key).length + data.length)) := by
    intro buffer' hsame henough
    rw [parse_frame_octets (hkept ▸ hopcode) hkey (hsame.trans hstart) (by omega) (by omega) (by omega),
      if_neg (by omega)]
  let out : Buffer := ⟨written.start, _, hrequired⟩
  have hout : out.start = _ := hstart
  obtain ⟨plain, hunmask, hcontent⟩ := unmask_content hdata hout
  refine ⟨out, _, plain, ?_, ?_, hparse out rfl (Nat.le_refl _), hkept, hunmask, hcontent⟩
  · rw [hset]
    exact reparse_of_success hrequired (hparse _ rfl hrequired)
  · simp only [out, length_octets_limit hlength]

/-- Data are read back as they were written unless there are exactly 65535 of them, or more
    than a length can say, or the buffer has to grow from nothing and loses the first octet. -/
theorem set_data_round_trip {buffer : Buffer} {first : Byte} (hfirst : buffer.start[0]? = some first)
    (hopcode : is_opcode (0x0F &&& first)) {data : List Byte} {key : Option (BitVec 32)}
    (hdata : key.isSome → data ≠ []) :
    RoundTrips buffer first data key ↔
      data.length ≠ 0xffff ∧ data.length < 2 ^ 63 ∧ KeepsFirst buffer first (required data.length key) :=
  ⟨RoundTrips.conditions hfirst hdata, fun h => round_trips_of_conditions hfirst hopcode hdata h.1 h.2.1 h.2.2⟩

/-- Three octets, masked, in a buffer of one octet that is in use. -/
theorem set_data_round_trip_short : RoundTrips ⟨[0x82], 1, by decide⟩ 0x82 [1, 2, 3] (some 0x01020304) :=
  (set_data_round_trip rfl (by decide) (by simp)).mpr ⟨by decide, by decide, Or.inr (Or.inl (by decide))⟩

/-- The data of 65535 octets are not written, and the opcode of a pong is lost when the
    buffer grows from nothing. -/
theorem set_data_fails : ¬ RoundTrips ⟨[0x82], 1, by decide⟩ 0x82 (List.replicate 65535 7) none ∧
      ¬ RoundTrips ⟨[0x8A], 0, by decide⟩ 0x8A [1] none := by
  have hnone : ∀ data : List Byte, (none : Option (BitVec 32)).isSome = true → data ≠ [] := by
    intro data hkey
    simp at hkey
  refine ⟨?_, ?_⟩
  · intro htrip
    have hconditions := htrip.conditions rfl (hnone _)
    exact hconditions.1 length_replicate
  · intro htrip
    have hconditions := htrip.conditions rfl (hnone _)
    exact absurd hconditions.2.2 (by simp [KeepsFirst, required])

end openvocs.websocket
