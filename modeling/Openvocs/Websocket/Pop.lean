import Mathlib.Data.List.Induction
import Openvocs.Lib.Pieces
import Openvocs.Websocket.RoundTrip

open List Option

namespace openvocs.websocket

/-- The octets in use. -/
def Buffer.octets (buffer : Buffer) : List Byte := buffer.start.take buffer.length

@[simp] theorem Buffer.octets_of (data beyond : List Byte) : (Buffer.of data beyond).octets = data := by
  simp [octets, of]

/-- What `ov_websocket_frame_pop` comes to. A frame comes with its buffer, and with the
    input that remains. -/
inductive Popped where
  | error
  | progress
  | frame (found : Frame) (buffer : Buffer) (input : Option Buffer)

/-- A buffer that ends in front of an octet. All behind it is set to zero. -/
def Buffer.cut (buffer : Buffer) (next : Nat) (h : next ≤ buffer.length) : Buffer where
  start := bytes.overwrite buffer.start next (List.replicate (buffer.length - next) 0)
  length := next
  within := Nat.le_trans (Nat.le_trans h buffer.within) (bytes.length_le_overwrite _ _ _)

/-- `ov_websocket_frame_pop`, with what `ov_buffer_create` and `ov_buffer_set` make of the
    octets behind the frame. -/
def ov_websocket_frame_pop (create : List Byte → Buffer) (input : Buffer) : Option Popped :=
  match h : ov_websocket_parse_frame input with
  | none => none
  | some .error => some .error
  | some .progress => some .progress
  | some (.success found next) =>
    if next = input.length then some (.frame found input none)
    else
      some (.frame found (input.cut next (parse_frame_success h).2.2)
        (some (create (bytes.slice input.start next (input.length - next)))))

/-- A chunk, and what is left behind the octets of a buffer that is written meanwhile, for
    each number of octets. There is always one octet more than the capacity. -/
structure Chunk where
  octets : List Byte
  behind : Nat → List Byte
  received : octets ≠ []
  excess : ∀ n, behind n ≠ []

/-- `ov_buffer_create` with `ov_buffer_set`, or `ov_buffer_push` with all the octets. -/
def Chunk.buffer (chunk : Chunk) (data : List Byte) : Buffer := .of data (chunk.behind data.length)

/-- The calls of `ov_websocket_frame_pop`, with the buffers of the frames and the input that
    remains. There is no result after an error. -/
def pop_loop (create : List Byte → Buffer) : Nat → Buffer → Option (List Buffer × Option Buffer)
  | 0, _ => none
  | rounds + 1, input =>
    match ov_websocket_frame_pop create input with
    | none => none
    | some .error => none
    | some .progress => some ([], some input)
    | some (.frame _ buffer none) => some ([buffer], none)
    | some (.frame _ buffer (some input)) =>
      (pop_loop create rounds input).map fun (buffers, input) => (buffer :: buffers, input)

/-- The octets of the remaining input, if there is one. -/
def remaining : Option Buffer → List Byte
  | none => []
  | some input => input.octets

/-- A chunk is appended to the remaining input, and frames are popped. -/
def receive (input : Option Buffer) (chunk : Chunk) : Option (List Buffer × Option Buffer) :=
  pop_loop chunk.buffer (remaining input ++ chunk.octets).length (chunk.buffer (remaining input ++ chunk.octets))

/-- All chunks, from no input on. -/
def receive_all (chunks : List Chunk) : Option (List Buffer × Option Buffer) :=
  chunks.foldl (fun state chunk => state.bind fun (buffers, input) =>
    (receive input chunk).map fun (more, input) => (buffers ++ more, input)) (some ([], none))

/-- A frame with data that `ov_websocket_set_data` has written. The first octet was in its
    buffer before, and data in memory have less octets than half of all addresses. -/
structure Written where
  before : Buffer
  first : Byte
  data : List Byte
  key : Option (BitVec 32)
  buffer : Buffer
  opened : before.start[0]? = some first
  nonempty : data ≠ []
  size : data.length < 2 ^ 63
  written : ov_websocket_set_data before data key = some (true, buffer)

def Written.octets (frame : Written) : List Byte := frame.buffer.octets

/-- The frames that are popped are those of the begin, octet by octet, and what remains is
    the begin of the next one. -/
def Exact (frames : List Written) (chunks : List Chunk) : Prop :=
  ∃ done todo buffers input, frames = done ++ todo ∧ receive_all chunks = some (buffers, input) ∧
    buffers.map Buffer.octets = done.map Written.octets ∧
    chunks.flatMap Chunk.octets = done.flatMap Written.octets ++ remaining input ∧
    pieces.Kept Written.octets (remaining input) todo

theorem parse_frame_opcode {buffer : Buffer} {found : Frame} {next : Nat}
    (h : ov_websocket_parse_frame buffer = some (.success found next)) {first : Byte}
    (hfirst : buffer.start[0]? = some first) : is_opcode (0x0F &&& first) := by
  rw [ov_websocket_parse_frame] at h
  by_cases hzero : buffer.length = 0
  · simp [hzero] at h
  rw [if_neg hzero, bind_eq_some_iff] at h
  obtain ⟨parsed, -, h⟩ := h
  rw [hfirst, map_some, some.injEq] at h
  cases parsed with
  | error => simp [parse_opcode] at h
  | progress => simp [parse_opcode] at h
  | success payload next' =>
    by_contra hnot
    rw [parse_opcode, if_neg hnot] at h
    simp at h

theorem set_data_legal {buffer out : Buffer} {first : Byte} (hfirst : buffer.start[0]? = some first) {data : List Byte}
    {key : Option (BitVec 32)} (hdata : data ≠ []) (hsize : data.length < 2 ^ 63)
    (h : ov_websocket_set_data buffer data key = some (true, out)) :
    ∃ frame : LegalFrame, frame.octets = out.octets ∧ frame.payload.length = data.length := by
  obtain ⟨written, rest, hset, hstart, hrequired⟩ := set_data_eq hfirst (fun _ : key.isSome => hdata)
  rw [hset] at h
  obtain ⟨hout, found, next, hparse⟩ := reparse_true h
  have hhead : written.start[0]? = some (kept_first buffer first (required data.length key)) := by
    rw [hstart]
    rfl
  have hopcode := parse_frame_opcode hparse hhead
  rw [required_eq] at hrequired
  have hkey : key = none ∨ data.length ≠ 0 := .inr fun hzero => hdata (length_eq_zero_iff.mp hzero)
  let full : Buffer := ⟨written.start, written.start.length, Nat.le_refl _⟩
  have hfull : full.start = _ := hstart
  have hvisible : full.length = written.start.length := rfl
  have hlength : data.length ≠ 0xffff := by
    intro hlength
    have herror := parse_frame_not_shortest hfull (by omega) (by omega) (by omega) (by omega)
    rw [herror] at hparse
    simp at hparse
  have hsuccess := parse_frame_octets hopcode hkey hfull (by omega) (by omega) (by omega)
  rw [if_neg (by omega)] at hsuccess
  rw [reparse_of_success hrequired hsuccess, some.injEq, Prod.mk.injEq] at h
  let frame : LegalFrame := {
    first := kept_first buffer first (required data.length key)
    key := key
    payload := payload key data
    opcode := hopcode
    size := by rwa [length_payload] }
  refine ⟨frame, ?_, length_payload key data⟩
  have hoctets : frame.octets = (kept_first buffer first (required data.length key) ::
      length_octets 0xffff key.isSome data.length) ++ (key_octets key ++ payload key data) := by
    rw [LegalFrame.octets, length_payload, length_octets_limit hlength]
    rfl
  rw [← h.2, Buffer.octets]
  simp only
  rw [hstart, ← append_assoc (key_octets key), ← append_assoc, ← hoctets]
  symm
  apply take_left'
  rw [hoctets]
  simp only [length_append, length_cons, length_payload]
  omega

theorem pop_progress {create : List Byte → Buffer} {input : Buffer} (h : ov_websocket_parse_frame input = some .progress) :
    ov_websocket_frame_pop create input = some .progress := by
  rw [ov_websocket_frame_pop]
  split
  · rename_i hnone
    simp [h] at hnone
  · rename_i herror
    simp [h] at herror
  · rfl
  rename_i found next hsuccess
  simp [h] at hsuccess

theorem pop_error {create : List Byte → Buffer} {input : Buffer} (h : ov_websocket_parse_frame input = some .error) :
    ov_websocket_frame_pop create input = some .error := by
  rw [ov_websocket_frame_pop]
  split
  · rename_i hnone
    simp [h] at hnone
  · rfl
  · rename_i hprogress
    simp [h] at hprogress
  rename_i found next hsuccess
  simp [h] at hsuccess

theorem pop_success {create : List Byte → Buffer} {data rest beyond : List Byte} {found : Frame}
    (h : ov_websocket_parse_frame (.of (data ++ rest) beyond) = some (.success found data.length)) :
    ∃ buffer, buffer.octets = data ∧ ov_websocket_frame_pop create (.of (data ++ rest) beyond) =
      some (.frame found buffer (if rest = [] then none else some (create rest))) := by
  have hwhole : (Buffer.of (data ++ rest) beyond).length = data.length + rest.length := length_append
  rw [ov_websocket_frame_pop]
  split
  · rename_i hnone
    simp [h] at hnone
  · rename_i herror
    simp [h] at herror
  · rename_i hprogress
    simp [h] at hprogress
  rename_i found' next hsuccess
  have hsame := hsuccess
  rw [h, some.injEq, Parsed.success.injEq] at hsame
  obtain ⟨rfl, rfl⟩ := hsame
  by_cases hrest : rest = []
  · rw [if_pos hrest, if_pos (by rw [hwhole, hrest]; rfl)]
    exact ⟨_, by rw [Buffer.octets_of, hrest, List.append_nil], rfl⟩
  have hpos := length_pos_iff.mpr hrest
  have hbehind : bytes.slice (Buffer.of (data ++ rest) beyond).start data.length
      ((Buffer.of (data ++ rest) beyond).length - data.length) = rest := by
    have hstart : (Buffer.of (data ++ rest) beyond).start = data ++ (rest ++ beyond) := append_assoc _ _ _
    rw [hwhole, Nat.add_sub_cancel_left, hstart]
    exact bytes.slice_mid _ _ _ rfl rfl
  rw [if_neg hrest, if_neg (by omega), hbehind]
  refine ⟨_, ?_, rfl⟩
  rw [Buffer.octets, Buffer.cut]
  simp [bytes.overwrite, Buffer.of]

namespace LegalFrame

variable {frame : LegalFrame}

theorem parse_cut_long_header (hlong : ¬ frame.payload.length < 0x10000) {cut : Nat} (hpositive : 0 < cut)
    (hcut : cut < frame.header_size) {third : Byte} (beyond : List Byte) :
    ov_websocket_parse_frame (.of (frame.octets.take cut) (third :: beyond)) =
      some (if cut = 2 ∧ third &&& 0x80 ≠ 0 then .error else .progress) := by
  have hoctets : frame.octets = frame.first :: (flag_mask frame.key.isSome ||| BitVec.ofNat 8 127) ::
      BitVec.ofNat 8 (frame.payload.length >>> 56) :: ((bytes.be 8 frame.payload.length).drop 1 ++
        (key_octets frame.key ++ frame.payload)) := by
    rw [octets, length_octets_long (by omega) hlong]
    rfl
  have hmark : (flag_mask frame.key.isSome ||| BitVec.ofNat 8 127) &&& 0x7F = 127 := by cases frame.key.isSome <;> rfl
  have hten : cut < 10 := by
    rw [header_size, length_octets_long (by omega) hlong, length_cons, bytes.length_be] at hcut
    omega
  have hwithin : cut ≤ frame.octets.length := by
    rw [length_octets_eq]
    omega
  have hlength : (Buffer.of (frame.octets.take cut) (third :: beyond)).length = cut := by
    simp only [Buffer.of, length_take]
    omega
  obtain rfl | rfl | ⟨more, rfl⟩ : cut = 1 ∨ cut = 2 ∨ ∃ more, cut = more + 3 := by
    by_cases hone : cut = 1
    · exact .inl hone
    by_cases htwo : cut = 2
    · exact .inr (.inl htwo)
    · exact .inr (.inr ⟨cut - 3, by omega⟩)
  · rw [if_neg (by omega), ov_websocket_parse_frame, hlength, if_neg (by omega), parse_payload_length, hlength,
      if_pos (by omega), hoctets]
    rfl
  · have htake : frame.octets.take 2 = [frame.first, flag_mask frame.key.isSome ||| BitVec.ofNat 8 127] := by
      rw [hoctets]
      rfl
    rw [htake, parse_two_octets frame.first hmark]
    by_cases hbit : third &&& 0x80 ≠ 0
    · rw [if_pos hbit, if_pos ⟨rfl, hbit⟩]
    · rw [if_neg hbit, if_neg (fun h => hbit h.2)]
  have hread : ∀ i < 3, (Buffer.of (frame.octets.take (more + 3)) (third :: beyond)).start[i]? = frame.octets[i]? := by
    intro i hi
    rw [Buffer.of, getElem?_append_left (by rw [length_take]; omega), getElem?_take_of_lt (by omega)]
  have hmsb := msb_eq_zero frame.size
  rw [if_neg (by omega), ov_websocket_parse_frame, hlength, if_neg (by omega), parse_payload_length, hlength,
    if_neg (by omega), hread 0 (by omega), hread 1 (by omega), hread 2 (by omega), hoctets]
  simp only [getElem?_cons_succ, getElem?_cons_zero, bind_some, hmark, hmsb, hten, if_true]
  rfl

theorem parse_part (hpayload : frame.payload ≠ []) {cut : Nat} (hpositive : 0 < cut) (hcut : cut < frame.octets.length)
    {third : Byte} (beyond : List Byte) :
    ov_websocket_parse_frame (.of (frame.octets.take cut) (third :: beyond)) =
      some (if cut = 2 ∧ third &&& 0x80 ≠ 0 ∧ 0x10000 ≤ frame.payload.length then .error else .progress) := by
  by_cases hshort : frame.payload.length < 0x10000
  · rw [if_neg (by omega)]
    exact (accepted_iff.mpr ⟨.inr hpayload, hshort⟩).2 cut (third :: beyond) hpositive hcut
  by_cases hheader : cut < frame.header_size
  · rw [parse_cut_long_header hshort hpositive hheader]
    simp only [Nat.not_lt.mp hshort, and_true]
  have hten : frame.header_size = 10 := by
    rw [header_size, length_octets_long (by omega) hshort, length_cons, bytes.length_be]
  rw [if_neg (by omega)]
  exact parse_cut_content (.inr hpayload) _ (by omega) hcut

end LegalFrame

theorem Written.legal (frame : Written) :
    ∃ legal : LegalFrame, legal.octets = frame.octets ∧ legal.payload ≠ [] ∧
      legal.payload.length = frame.data.length := by
  obtain ⟨legal, hoctets, hpayload⟩ := set_data_legal frame.opened frame.nonempty frame.size frame.written
  have hpos := length_pos_iff.mpr frame.nonempty
  exact ⟨legal, hoctets, length_pos_iff.mp (by omega), hpayload⟩

theorem Written.octets_length (frame : Written) : 2 < frame.octets.length := by
  obtain ⟨legal, hoctets, hne, -⟩ := frame.legal
  have hpos := length_pos_iff.mpr hne
  have hheader : 0 < (length_octets 0x10000 legal.key.isSome legal.payload.length).length := by
    rw [length_octets]
    split
    · simp
    · split <;> simp
  rw [← hoctets, LegalFrame.length_octets_eq, LegalFrame.header_size]
  omega

theorem Written.octets_ne_nil (frame : Written) : frame.octets ≠ [] :=
  length_pos_iff.mp (Nat.lt_trans (by omega) frame.octets_length)

/-- The octet that is left behind a buffer of two octets. -/
def Chunk.third (chunk : Chunk) : Byte := (chunk.behind 2).head (chunk.excess 2)

/-- Two octets of a long frame are received, and the octet behind them is not clear. -/
def Misread (chunk : Chunk) (p : List Byte) (todo : List Written) : Prop :=
  p.length = 2 ∧ chunk.third &&& 0x80 ≠ 0 ∧ ∃ frame more, todo = frame :: more ∧ 0x10000 ≤ frame.data.length

theorem pop_written (frame : Written) (create : List Byte → Buffer) (rest beyond : List Byte) :
    ∃ found buffer, buffer.octets = frame.octets ∧
      ov_websocket_frame_pop create (.of (frame.octets ++ rest) beyond) =
        some (.frame found buffer (if rest = [] then none else some (create rest))) := by
  obtain ⟨legal, hoctets, hne, -⟩ := frame.legal
  have hcomplete := legal.parse_complete (.inr hne) rest beyond
  rw [hoctets] at hcomplete
  obtain ⟨buffer, hbuffer, hpop⟩ := @pop_success create _ _ _ _ hcomplete
  exact ⟨legal.parsed, buffer, hbuffer, hpop⟩

theorem pop_kept {chunk : Chunk} {p : List Byte} {todo : List Written} (hp : p ≠ [])
    (hkept : pieces.Kept Written.octets p todo) :
    (Misread chunk p todo → ov_websocket_frame_pop chunk.buffer (chunk.buffer p) = some .error) ∧
      (¬ Misread chunk p todo → ov_websocket_frame_pop chunk.buffer (chunk.buffer p) = some .progress) := by
  cases todo with
  | nil => exact absurd hkept hp
  | cons frame todo =>
    obtain ⟨q, hq, hframe⟩ := hkept
    obtain ⟨legal, hoctets, hne, hpayload⟩ := frame.legal
    rw [← hoctets] at hframe
    have hpos := length_pos_iff.mpr hp
    have hcut : p.length < legal.octets.length := by
      have hmore := length_pos_iff.mpr hq
      rw [hframe, length_append]
      omega
    have htake : legal.octets.take p.length = p := by rw [hframe, take_left]
    obtain ⟨third, beyond, hbehind⟩ := exists_cons_of_ne_nil (chunk.excess p.length)
    have hparse := @LegalFrame.parse_part legal hne p.length hpos hcut third beyond
    rw [htake, ← hbehind] at hparse
    have hmisread : Misread chunk p (frame :: todo) ↔
        p.length = 2 ∧ third &&& 0x80 ≠ 0 ∧ 0x10000 ≤ legal.payload.length := by
      have hthird : p.length = 2 → chunk.third = third := by
        intro htwo
        rw [htwo] at hbehind
        simp [Chunk.third, hbehind]
      constructor
      · rintro ⟨htwo, hbit, frame', more, htodo, hlong⟩
        rw [List.cons.injEq] at htodo
        rw [hthird htwo] at hbit
        exact ⟨htwo, hbit, by rw [hpayload, htodo.1]; exact hlong⟩
      rintro ⟨htwo, hbit, hlong⟩
      rw [← hthird htwo] at hbit
      exact ⟨htwo, hbit, frame, todo, rfl, hpayload ▸ hlong⟩
    refine ⟨fun h => pop_error ?_, fun h => pop_progress ?_⟩
    · rw [if_pos (hmisread.mp h)] at hparse
      exact hparse
    rw [if_neg (fun hnot => h (hmisread.mpr hnot))] at hparse
    exact hparse

variable {frames : List Written}

theorem pop_loop_written {chunk : Chunk} {todo : List Written} {p : List Byte} {rounds : Nat}
    (hkept : pieces.Kept Written.octets p todo) (hne : frames.flatMap Written.octets ++ p ≠ [])
    (hrounds : (frames.flatMap Written.octets ++ p).length ≤ rounds) :
    (Misread chunk p todo →
        pop_loop chunk.buffer rounds (chunk.buffer (frames.flatMap Written.octets ++ p)) = none) ∧
      (¬ Misread chunk p todo → ∃ buffers input,
        pop_loop chunk.buffer rounds (chunk.buffer (frames.flatMap Written.octets ++ p)) = some (buffers, input) ∧
          buffers.map Buffer.octets = frames.map Written.octets ∧ remaining input = p) := by
  induction frames generalizing rounds with
  | nil =>
    rw [flatMap_nil, nil_append] at hne hrounds ⊢
    have hpos := length_pos_iff.mpr hne
    obtain ⟨rounds, rfl⟩ := Nat.exists_eq_succ_of_ne_zero (n := rounds) (by omega)
    obtain ⟨herror, hprogress⟩ := @pop_kept chunk p todo hne hkept
    constructor
    · intro hmisread
      rw [pop_loop, herror hmisread]
    intro hread
    refine ⟨[], some (chunk.buffer p), ?_, rfl, Buffer.octets_of _ _⟩
    rw [pop_loop, hprogress hread]
  | cons frame frames ih =>
    have hlong := frame.octets_length
    rw [flatMap_cons, append_assoc] at hne hrounds ⊢
    rw [length_append] at hrounds
    obtain ⟨rounds, rfl⟩ := Nat.exists_eq_succ_of_ne_zero (n := rounds) (by omega)
    obtain ⟨found, buffer, hbuffer, hpop⟩ := pop_written frame chunk.buffer (frames.flatMap Written.octets ++ p)
      (chunk.behind (frame.octets ++ (frames.flatMap Written.octets ++ p)).length)
    rw [pop_loop, Chunk.buffer, hpop]
    by_cases hrest : frames.flatMap Written.octets ++ p = []
    · obtain ⟨hframes, rfl⟩ := append_eq_nil_iff.mp hrest
      have hnil : frames = [] := by
        cases frames with
        | nil => rfl
        | cons other frames =>
          rw [flatMap_cons, append_eq_nil_iff] at hframes
          exact absurd hframes.1 other.octets_ne_nil
      rw [if_pos hrest]
      constructor
      · intro hmisread
        simp [Misread] at hmisread
      intro _
      exact ⟨[buffer], none, rfl, by rw [hnil, map_singleton, map_singleton, hbuffer], rfl⟩
    rw [if_neg hrest]
    obtain ⟨herror, hprogress⟩ := @ih rounds hrest (by omega)
    constructor
    · intro hmisread
      simp only [herror hmisread, map_none]
    intro hread
    obtain ⟨buffers, input, hloop, hbuffers, hinput⟩ := hprogress hread
    refine ⟨buffer :: buffers, input, ?_, ?_, hinput⟩
    · simp only [hloop, map_some]
    · rw [map_cons, map_cons, hbuffer, hbuffers]

theorem receive_all_snoc (chunks : List Chunk) (chunk : Chunk) :
    receive_all (chunks ++ [chunk]) = (receive_all chunks).bind fun (buffers, input) =>
      (receive input chunk).map fun (more, input) => (buffers ++ more, input) := by
  rw [receive_all, foldl_append]
  rfl

theorem receive_written {chunk : Chunk} {input : Option Buffer} {todo : List Written} {p : List Byte}
    (hdata : remaining input ++ chunk.octets = frames.flatMap Written.octets ++ p)
    (hkept : pieces.Kept Written.octets p todo) :
    (Misread chunk p todo → receive input chunk = none) ∧
      (¬ Misread chunk p todo → ∃ buffers input', receive input chunk = some (buffers, input') ∧
          buffers.map Buffer.octets = frames.map Written.octets ∧ remaining input' = p) := by
  have hne : frames.flatMap Written.octets ++ p ≠ [] := by
    rw [← hdata]
    intro hnil
    exact chunk.received (append_eq_nil_iff.mp hnil).2
  rw [receive, hdata]
  exact pop_loop_written hkept hne (Nat.le_refl _)

/-- What was received ends in two octets of a frame with at least 65536 octets of data, and
    the octet that was left behind them has its first bit set. -/
def EndsMisread (frames : List Written) (chunks : List Chunk) : Prop :=
  ∃ before chunk done frame todo, chunks = before ++ [chunk] ∧ frames = done ++ frame :: todo ∧
    0x10000 ≤ frame.data.length ∧ chunks.flatMap Chunk.octets = done.flatMap Written.octets ++ frame.octets.take 2 ∧
    chunk.third &&& 0x80 ≠ 0

theorem Exact.snoc {chunks : List Chunk} {chunk : Chunk} {rest : List Byte}
    (h : Exact frames chunks) (hframes : frames.flatMap Written.octets = (chunks ++ [chunk]).flatMap Chunk.octets ++ rest) :
    Exact frames (chunks ++ [chunk]) ↔ ¬ EndsMisread frames (chunks ++ [chunk]) := by
  obtain ⟨done, todo, buffers, input, rfl, hall, hbuffers, hoctets, hkept⟩ := h
  have hwhole : (chunks ++ [chunk]).flatMap Chunk.octets =
      done.flatMap Written.octets ++ (remaining input ++ chunk.octets) := by
    rw [flatMap_append, hoctets, flatMap_singleton, append_assoc]
  rw [hwhole, flatMap_append, append_assoc, append_cancel_left_eq] at hframes
  obtain ⟨more, todo, p, rfl, hdata, -, hkept'⟩ := pieces.cut hframes
  obtain ⟨hnone, hsome⟩ := receive_written hdata hkept'
  rw [hdata, ← append_assoc, ← flatMap_append] at hwhole
  have hmisread : Misread chunk p todo ↔ EndsMisread (done ++ (more ++ todo)) (chunks ++ [chunk]) := by
    constructor
    · rintro ⟨htwo, hbit, frame, later, rfl, hlong⟩
      obtain ⟨q, -, hframe⟩ := hkept'
      refine ⟨chunks, chunk, done ++ more, frame, later, rfl, (append_assoc _ _ _).symm, hlong, ?_, hbit⟩
      rw [hwhole, hframe, ← htwo, take_left]
    rintro ⟨before, chunk', done', frame, later, hchunks, hitems, hlong, hoctets', hbit⟩
    obtain rfl : chunk = chunk' := by
      have hlast := congrArg List.getLast? hchunks
      rw [getLast?_concat, getLast?_concat, some.injEq] at hlast
      exact hlast
    have htwo := frame.octets_length
    have hbegin : pieces.Kept Written.octets (frame.octets.take 2) (frame :: later) := by
      refine ⟨frame.octets.drop 2, ?_, (take_append_drop 2 _).symm⟩
      rw [ne_eq, drop_eq_nil_iff]
      omega
    rw [hwhole] at hoctets'
    rw [← append_assoc] at hitems
    obtain ⟨-, rfl, rfl⟩ := hkept'.unique hbegin hitems hoctets'
    refine ⟨?_, hbit, frame, later, rfl, hlong⟩
    rw [length_take]
    omega
  rw [← hmisread]
  constructor
  · rintro ⟨done', todo', buffers', input', -, hall', -⟩ hbad
    simp [receive_all_snoc, hall, hnone hbad] at hall'
  intro hgood
  obtain ⟨buffers', input', hreceive, hbuffers', hinput'⟩ := hsome hgood
  refine ⟨done ++ more, todo, buffers ++ buffers', input', (append_assoc _ _ _).symm, ?_, ?_, ?_, ?_⟩
  · simp [receive_all_snoc, hall, hreceive]
  · rw [map_append, map_append, hbuffers, hbuffers']
  · rw [hinput', hwhole]
  rw [hinput']
  exact hkept'

theorem split_received {chunks received : List Chunk}
    (h : chunks.flatMap Chunk.octets = frames.flatMap Written.octets) (hreceived : received <+: chunks) :
    ∃ rest, frames.flatMap Written.octets = received.flatMap Chunk.octets ++ rest := by
  obtain ⟨later, rfl⟩ := hreceived
  exact ⟨later.flatMap Chunk.octets, by rw [← h, flatMap_append]⟩

theorem not_misread_of_exact {chunks : List Chunk}
    (h : chunks.flatMap Chunk.octets = frames.flatMap Written.octets)
    (hexact : ∀ received, received <+: chunks → Exact frames received) {received : List Chunk}
    (hreceived : received <+: chunks) : ¬ EndsMisread frames received := by
  rcases eq_nil_or_concat' received with rfl | ⟨before, chunk, rfl⟩
  · rintro ⟨before, chunk, -, -, -, hnil, -⟩
    simp at hnil
  obtain ⟨rest, hrest⟩ := split_received h hreceived
  have hbefore := hexact before ((prefix_append before [chunk]).trans hreceived)
  exact (hbefore.snoc hrest).mp (hexact _ hreceived)

/-- Nothing is lost or found twice, after each of the chunks, if and only if no part that was
    received so far ends in two octets of a long frame that are misread. -/
theorem receive_exact_iff (frames : List Written) (chunks : List Chunk)
    (h : chunks.flatMap Chunk.octets = frames.flatMap Written.octets) :
    (∀ received, received <+: chunks → Exact frames received) ↔
      ∀ received, received <+: chunks → ¬ EndsMisread frames received := by
  constructor
  · exact fun hexact received hreceived => not_misread_of_exact h hexact hreceived
  intro hgood received
  induction received using List.reverseRecOn with
  | nil =>
    exact fun _ => ⟨[], frames, [], none, rfl, rfl, rfl, rfl, pieces.kept_nil fun frame _ => frame.octets_ne_nil⟩
  | append_singleton before chunk ih =>
    intro hreceived
    obtain ⟨rest, hrest⟩ := split_received h hreceived
    have hbefore := ih ((prefix_append before [chunk]).trans hreceived)
    exact (hbefore.snoc hrest).mpr (hgood _ hreceived)

def short_frame : Written where
  before := ⟨[0x82], 1, by decide⟩
  first := 0x82
  data := [1, 2, 3]
  key := none
  buffer := ⟨[0x82, 3, 1, 2, 3], 5, by decide⟩
  opened := rfl
  nonempty := by simp
  size := by decide
  written := rfl

/-- Some octets in front of an octet that was left in the memory. -/
def garbled (octets : List Byte) (h : octets ≠ []) : Chunk := ⟨octets, fun _ => [0x80], h, by simp⟩

/-- Two short frames, cut within their lengths. -/
theorem receive_exact_short : Exact [short_frame, short_frame]
      [garbled [0x82, 3, 1, 2, 3, 0x82] (by simp), garbled [3, 1] (by simp), garbled [2, 3] (by simp)] := by
  refine (receive_exact_iff [short_frame, short_frame] _ rfl).mpr ?_ _ prefix_rfl
  rintro received - ⟨-, -, done, frame, todo, -, hframes, hlong, -⟩
  have hframe : frame ∈ [short_frame, short_frame] := by
    rw [hframes]
    simp
  obtain rfl : frame = short_frame := by simpa using hframe
  simp [short_frame] at hlong

/-- The first two octets of a long frame, in front of an octet that was left behind. -/
theorem long_frame_misread : ∃ (frame : Written) (chunks : List Chunk), frame.data = List.replicate 65536 7 ∧
      chunks.flatMap Chunk.octets = [frame].flatMap Written.octets ∧
      ¬ ∀ received, received <+: chunks → Exact [frame] received := by
  have hsize : (List.replicate 65536 (7 : Byte)).length = 65536 := length_replicate
  obtain ⟨out, -, -, hset, -⟩ := @round_trips_of_conditions ⟨[0x82], 1, by decide⟩ 0x82 rfl (by decide)
    (List.replicate 65536 7) none (by intro hkey; cases hkey) (by rw [hsize]; decide) (by rw [hsize]; decide) (.inr (.inl (by decide)))
  let frame : Written := {
    before := ⟨[0x82], 1, by decide⟩
    first := 0x82
    data := List.replicate 65536 7
    key := none
    buffer := out
    opened := rfl
    nonempty := by
      rw [← length_pos_iff, hsize]
      decide
    size := by rw [hsize]; decide
    written := hset }
  have hlong := frame.octets_length
  obtain ⟨a, b, rest, hoctets⟩ : ∃ a b rest, frame.octets = a :: b :: rest := by
    match h : frame.octets with
    | [] => simp [h] at hlong
    | [a] => simp [h] at hlong
    | a :: b :: rest => exact ⟨a, b, rest, rfl⟩
  have hrest : rest ≠ [] := by
    rintro rfl
    simp [hoctets] at hlong
  have hwhole : [garbled [a, b] (by simp), garbled rest hrest].flatMap Chunk.octets = [frame].flatMap Written.octets := by
    rw [flatMap_singleton, hoctets]
    simp [garbled]
  refine ⟨frame, [garbled [a, b] (by simp), garbled rest hrest], rfl, hwhole, fun hexact => ?_⟩
  refine not_misread_of_exact hwhole hexact (prefix_append [garbled [a, b] (by simp)] [garbled rest hrest]) ?_
  refine ⟨[], garbled [a, b] (by simp), [], frame, [], rfl, rfl, by rw [hsize], ?_, ?_⟩
  · rw [hoctets]
    rfl
  · simp [Chunk.third, garbled]

end openvocs.websocket
