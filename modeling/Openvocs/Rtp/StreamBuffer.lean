import Openvocs.Rtp.FrameBuffer

open List Option

namespace openvocs.rtp

/-- `ov_rtp_stream_buffer`. The capacity `max_num_frames` is the length of `frames`. -/
structure StreamBuffer where
  lowest_acceptable_ssid : BitVec 32 := 0
  top_acceptable_ssid : BitVec 32 := 0
  blocked_ssid : BitVec 32 := 0
  frames : List (Option Frame)
  stream_started : Bool := false
  sliding_window_start : BitVec 16 := 0
  sliding_window_misses : Nat := 0

/-- What a call gives to its caller, and which frames it frees. -/
structure BufferOutput where
  ok : Bool := false
  accepted : List Frame := []
  handed_out : List Frame := []
  freed : List Frame := []
  reset : Bool := false

namespace StreamBuffer

def max_sliding_window_misses : Nat := 5

def create (max_num_frames : Nat) : StreamBuffer where
  frames := List.replicate max_num_frames none

variable (self : StreamBuffer)

def capacity : Nat := self.frames.length

/-- The frames that are in the buffer. -/
def held : List Frame := self.frames.filterMap id

def reset_stream (sliding_window_start : BitVec 16) : StreamBuffer :=
  { self with
    sliding_window_start
    sliding_window_misses := 0
    stream_started := false
    frames := List.replicate self.capacity none }

/-- A call that resets the stream and accepts no frame. -/
def reset_with (ok : Bool) (sliding_window_start : BitVec 16) : BufferOutput × StreamBuffer :=
  ({ ok, freed := self.held, reset := true }, self.reset_stream sliding_window_start)

def accept (bottom_ssid top_ssid : BitVec 32) : BufferOutput × StreamBuffer :=
  let (bottom, top) := if top_ssid < bottom_ssid then (top_ssid, bottom_ssid) else (bottom_ssid, top_ssid)
  if 0 < bottom then
    { self with lowest_acceptable_ssid := bottom, top_acceptable_ssid := top : StreamBuffer }.reset_with true 0
  else ({}, self)

def set_blocked_ssid (blocked_ssid : BitVec 32) : BufferOutput × StreamBuffer :=
  ({ ok := true }, { self with blocked_ssid })

def dont_accept_any : BufferOutput × StreamBuffer :=
  { self with lowest_acceptable_ssid := 0, top_acceptable_ssid := 0 : StreamBuffer }.reset_with true 0

/-- `index_for`. The difference is an `int` that becomes a `size_t`: when it is
    negative, the index is larger than any array. -/
def index_for (sequence_number sliding_window_start : BitVec 16) : Option Nat :=
  if sliding_window_start.toNat ≤ sequence_number.toNat then
    some (sequence_number.toNat - sliding_window_start.toNat)
  else none

def is_frame_accepted (ssrc : BitVec 32) : Bool :=
  decide (ssrc ≠ self.blocked_ssid ∧ self.lowest_acceptable_ssid ≤ ssrc ∧ ssrc ≤ self.top_acceptable_ssid)

def treat_out_of_range_frame (sliding_window_start : BitVec 16) : BufferOutput × StreamBuffer :=
  if max_sliding_window_misses < self.sliding_window_misses + 1 then
    { self with sliding_window_misses := self.sliding_window_misses + 1 : StreamBuffer }.reset_with false
      sliding_window_start
  else ({}, { self with sliding_window_misses := self.sliding_window_misses + 1 })

/-- `insert_into_frames_array`, with what becomes of its three results. -/
def insert_into_frames_array (frame : Frame) : BufferOutput × StreamBuffer :=
  match index_for frame.expanded.sequence_number self.sliding_window_start with
  | none => self.treat_out_of_range_frame frame.expanded.sequence_number
  | some index =>
    match self.frames[index]? with
    | none => self.treat_out_of_range_frame frame.expanded.sequence_number
    | some (some _) => ({}, self)
    | some none =>
      ({ ok := true, accepted := [frame] },
        { self with frames := self.frames.set index (some frame), sliding_window_misses := 0 })

/-- `ov_rtp_stream_buffer_put`. It is `none` when the assertion fails that the
    first slot is empty. -/
def put (frame : Frame) : Option (BufferOutput × StreamBuffer) :=
  if self.is_frame_accepted frame.expanded.ssrc then
    if self.stream_started then some (self.insert_into_frames_array frame)
    else
      match self.frames[0]? with
      | some none =>
        some ({ ok := true, accepted := [frame] },
          { self with
            stream_started := true
            sliding_window_start := frame.expanded.sequence_number
            frames := self.frames.set 0 (some frame) })
      | _ => none
  else some ({}, self)

/-- The frames at the start of the array, at most so many. -/
def ready : Nat → List (Option Frame) → List Frame
  | n + 1, some frame :: frames => frame :: ready n frames
  | _, _ => []

/-- `shift_frames_to_start`, behind the frames that were taken. -/
def shift_frames_to_start (offset_from_start : Nat) (frames : List (Option Frame)) : List (Option Frame) :=
  frames.drop offset_from_start ++ List.replicate offset_from_start none

def get (frames_to_return : Nat) : BufferOutput × StreamBuffer :=
  let handed_out := ready frames_to_return self.frames
  ({ ok := true, handed_out },
    { self with
      frames := shift_frames_to_start handed_out.length self.frames
      sliding_window_start := self.sliding_window_start + BitVec.ofNat 16 handed_out.length })

/-- The calls of the interface. -/
inductive Call where
  | put (frame : Frame)
  | get (frames_to_return : Nat)
  | accept (bottom_ssid top_ssid : BitVec 32)
  | dont_accept_any
  | set_blocked_ssid (blocked_ssid : BitVec 32)

def step (call : Call) (self : StreamBuffer) : Option (BufferOutput × StreamBuffer) :=
  match call with
  | .put frame => self.put frame
  | .get frames_to_return => some (self.get frames_to_return)
  | .accept bottom_ssid top_ssid => some (self.accept bottom_ssid top_ssid)
  | .dont_accept_any => some self.dont_accept_any
  | .set_blocked_ssid blocked_ssid => some (self.set_blocked_ssid blocked_ssid)

/-- A sequence of calls, with the outputs. -/
def run : List Call → StreamBuffer → Option (List BufferOutput × StreamBuffer)
  | [], self => some ([], self)
  | call :: calls, self =>
    (step call self).bind fun (output, next) => (run calls next).map fun (outputs, last) => (output :: outputs, last)


/-- The buffer as it is meant to be. -/
structure Windowed (buffer : StreamBuffer) (max_num_frames : Nat) : Prop where
  size : buffer.frames.length = max_num_frames
  placed : ∀ i frame, buffer.frames[i]? = some (some frame) →
    frame.expanded.sequence_number = buffer.sliding_window_start + BitVec.ofNat 16 i
  idle : buffer.stream_started = false → buffer.frames = List.replicate max_num_frames none

/-- The sequence numbers count up from the given one. -/
def Consecutive : BitVec 16 → List Frame → Prop
  | _, [] => True
  | sequence_number, frame :: frames =>
    frame.expanded.sequence_number = sequence_number ∧ Consecutive (sequence_number + 1) frames

/-- Where a frame belongs in the window. -/
def position (frame : Frame) : Nat :=
  (frame.expanded.sequence_number - self.sliding_window_start).toNat

/-- The frame is in the window and its slot is free. -/
def Acceptable (frame : Frame) : Prop := self.frames[self.position frame]? = some none

/-- The window wraps around between its start and the frame. -/
def Wrapped (frame : Frame) : Prop :=
  frame.expanded.sequence_number < self.sliding_window_start

variable {self}

variable {max_num_frames : Nat}

theorem replicate_windowed (h : self.frames = List.replicate max_num_frames none) :
    self.Windowed max_num_frames := by
  refine ⟨by simp [h], fun i frame hslot => ?_, fun _ => h⟩
  rw [h, getElem?_replicate] at hslot
  by_cases hi : i < max_num_frames <;> simp [hi] at hslot

theorem held_replicate (h : self.frames = List.replicate max_num_frames none) : self.held = [] := by
  simp [held, h]

/-- What a call does, seen from the outside. -/
structure Stepped (max_num_frames : Nat) (buffer : StreamBuffer) (output : BufferOutput)
    (next : StreamBuffer) : Prop where
  windowed : next.Windowed max_num_frames
  conserved : (output.handed_out ++ output.freed ++ next.held).Perm (output.accepted ++ buffer.held)
  quiet : output.reset = false → buffer.stream_started = false → output.handed_out = []
  advanced : output.reset = false → buffer.stream_started = true →
    Consecutive buffer.sliding_window_start output.handed_out ∧ next.stream_started = true ∧
      next.sliding_window_start = buffer.sliding_window_start + BitVec.ofNat 16 output.handed_out.length

theorem Stepped.keep (h : self.Windowed max_num_frames) {ok : Bool} {next : StreamBuffer}
    (hframes : next.frames = self.frames) (hstarted : next.stream_started = self.stream_started)
    (hstart : next.sliding_window_start = self.sliding_window_start) :
    Stepped max_num_frames self { ok } next := by
  refine ⟨⟨?_, ?_, ?_⟩, ?_, fun _ _ => rfl, fun _ hs => ?_⟩
  · rw [hframes, h.size]
  · rw [hframes, hstart]
    exact h.placed
  · rw [hframes, hstarted]
    exact h.idle
  · simp [held, hframes]
  · exact ⟨trivial, by rw [hstarted, hs], by simp [hstart]⟩

theorem Stepped.reset_with {old : StreamBuffer} (h : old.Windowed max_num_frames)
    (hframes : self.frames = old.frames) (ok : Bool) (sliding_window_start : BitVec 16) :
    Stepped max_num_frames old (self.reset_with ok sliding_window_start).1
      (self.reset_with ok sliding_window_start).2 := by
  have hempty : (self.reset_stream sliding_window_start).frames = List.replicate max_num_frames none := by
    simp [reset_stream, capacity, hframes, h.size]
  refine ⟨replicate_windowed hempty, ?_, fun hreset => ?_, fun hreset => ?_⟩
  · simp only [StreamBuffer.reset_with, held_replicate hempty]
    simp [held, hframes]
  · simp [StreamBuffer.reset_with] at hreset
  · simp [StreamBuffer.reset_with] at hreset

theorem Stepped.treat_out_of_range_frame (h : self.Windowed max_num_frames)
    (sliding_window_start : BitVec 16) :
    Stepped max_num_frames self (self.treat_out_of_range_frame sliding_window_start).1
      (self.treat_out_of_range_frame sliding_window_start).2 := by
  unfold StreamBuffer.treat_out_of_range_frame
  by_cases hmisses : max_sliding_window_misses < self.sliding_window_misses + 1
  · rw [if_pos hmisses]
    exact Stepped.reset_with h rfl false sliding_window_start
  rw [if_neg hmisses]
  exact Stepped.keep h rfl rfl rfl

theorem filterMap_set_perm {frames : List (Option Frame)} {i : Nat} (h : frames[i]? = some none) (frame : Frame) :
    ((frames.set i (some frame)).filterMap id).Perm (frame :: frames.filterMap id) := by
  induction frames generalizing i with
  | nil => simp at h
  | cons slot frames ih =>
    cases i with
    | zero =>
      simp only [getElem?_cons_zero, some.injEq] at h
      simp [h]
    | succ i =>
      have hrest := ih (by simpa using h)
      cases slot with
      | none => simpa using hrest
      | some first =>
        calc ((some first :: frames).set (i + 1) (some frame)).filterMap id
          _ = first :: (frames.set i (some frame)).filterMap id := by simp
          List.Perm _ (first :: frame :: frames.filterMap id) := hrest.cons first
          List.Perm _ (frame :: first :: frames.filterMap id) := List.Perm.swap _ _ _
          _ = frame :: (some first :: frames).filterMap id := by simp

theorem Windowed.set (h : self.Windowed max_num_frames) {frame : Frame} {i : Nat}
    {next : StreamBuffer} (hframes : next.frames = self.frames.set i (some frame))
    (hsequence : frame.expanded.sequence_number = self.sliding_window_start + BitVec.ofNat 16 i)
    (hstart : next.sliding_window_start = self.sliding_window_start) (hstarted : next.stream_started = true) :
    next.Windowed max_num_frames := by
  refine ⟨by rw [hframes, length_set, h.size], fun j other hslot => ?_, fun hidle => ?_⟩
  · rw [hframes, getElem?_set] at hslot
    rw [hstart]
    by_cases hij : i = j
    · by_cases hlength : i < self.frames.length
      · simp only [hij, if_true] at hslot
        rw [if_pos (hij ▸ hlength)] at hslot
        simp only [some.injEq] at hslot
        rw [← hslot, hsequence, hij]
      · simp [hij, hij ▸ hlength] at hslot
    rw [if_neg hij] at hslot
    exact h.placed j other hslot
  · simp [hstarted] at hidle

theorem index_for_eq_some {sequence_number sliding_window_start : BitVec 16} {index : Nat}
    (h : index_for sequence_number sliding_window_start = some index) :
    sequence_number = sliding_window_start + BitVec.ofNat 16 index := by
  unfold index_for at h
  by_cases hle : sliding_window_start.toNat ≤ sequence_number.toNat
  · simp only [hle, if_true, some.injEq] at h
    apply BitVec.eq_of_toNat_eq
    have hbound := sequence_number.isLt
    simp only [BitVec.toNat_add, BitVec.toNat_ofNat, ← h]
    omega
  · simp [hle] at h

theorem Stepped.insert_into_frames_array (h : self.Windowed max_num_frames)
    (hstarted : self.stream_started = true) (frame : Frame) :
    Stepped max_num_frames self (self.insert_into_frames_array frame).1 (self.insert_into_frames_array frame).2 := by
  unfold StreamBuffer.insert_into_frames_array
  cases hindex : index_for frame.expanded.sequence_number self.sliding_window_start with
  | none => exact Stepped.treat_out_of_range_frame h _
  | some index =>
    cases hslot : self.frames[index]? with
    | none =>
      simp only [hslot]
      exact Stepped.treat_out_of_range_frame h _
    | some slot =>
      cases slot with
      | some other =>
        simp only [hslot]
        exact Stepped.keep h rfl rfl rfl
      | none =>
        simp only [hslot]
        refine ⟨h.set rfl (index_for_eq_some hindex) rfl hstarted, ?_, fun _ hidle => ?_, fun _ _ => ?_⟩
        · simpa [held] using filterMap_set_perm hslot frame
        · rfl
        · exact ⟨trivial, hstarted, by simp⟩

theorem Stepped.put (hmax : 0 < max_num_frames) (h : self.Windowed max_num_frames) (frame : Frame) :
    ∃ output next, self.put frame = some (output, next) ∧ Stepped max_num_frames self output next := by
  unfold StreamBuffer.put
  by_cases haccepted : self.is_frame_accepted frame.expanded.ssrc = true
  · rw [if_pos haccepted]
    by_cases hstarted : self.stream_started = true
    · rw [if_pos hstarted]
      exact ⟨_, _, rfl, Stepped.insert_into_frames_array h hstarted frame⟩
    have hidle : self.stream_started = false := by simpa using hstarted
    have hempty := h.idle hidle
    have hslot : self.frames[0]? = some none := by simp [hempty, hmax]
    rw [if_neg hstarted]
    simp only [hslot]
    refine ⟨_, _, rfl, ?_, ?_, fun _ _ => rfl, fun _ hs => absurd hs hstarted⟩
    · -- all slots are empty, so the old window does not matter
      have hmoved : { self with sliding_window_start := frame.expanded.sequence_number : StreamBuffer }.Windowed
          max_num_frames := replicate_windowed hempty
      exact hmoved.set rfl (by simp) rfl rfl
    · simpa [held] using filterMap_set_perm hslot frame
  rw [if_neg haccepted]
  exact ⟨_, _, rfl, Stepped.keep h rfl rfl rfl⟩

theorem eq_ready_append (n : Nat) (frames : List (Option Frame)) :
    frames = (ready n frames).map some ++ frames.drop (ready n frames).length := by
  induction n generalizing frames with
  | zero => simp [ready]
  | succ n ih =>
    cases frames with
    | nil => simp [ready]
    | cons slot frames =>
      cases slot with
      | none => simp [ready]
      | some frame =>
        simp only [ready, map_cons, length_cons, drop_succ_cons, List.cons_append]
        rw [← ih frames]

theorem consecutive_of_placed {frames : List Frame} {slots : List (Option Frame)} {sequence_number : BitVec 16}
    (h : ∀ i frame, (frames.map some ++ slots)[i]? = some (some frame) →
      frame.expanded.sequence_number = sequence_number + BitVec.ofNat 16 i) :
    Consecutive sequence_number frames := by
  induction frames generalizing sequence_number with
  | nil => trivial
  | cons frame frames ih =>
    refine ⟨by simpa using h 0 frame (by simp), ih fun i other hslot => ?_⟩
    rw [h (i + 1) other (by simpa using hslot), BitVec.add_assoc]
    congr 1
    rw [Nat.add_comm i 1, BitVec.ofNat_add]
    rfl

theorem Consecutive.append {sequence_number : BitVec 16} {frames others : List Frame}
    (h : Consecutive sequence_number frames)
    (hothers : Consecutive (sequence_number + BitVec.ofNat 16 frames.length) others) :
    Consecutive sequence_number (frames ++ others) := by
  induction frames generalizing sequence_number with
  | nil => simpa using hothers
  | cons frame frames ih =>
    refine ⟨h.1, ih h.2 ?_⟩
    rw [length_cons, Nat.add_comm, BitVec.ofNat_add, ← BitVec.add_assoc] at hothers
    exact hothers

theorem Stepped.get (h : self.Windowed max_num_frames) (frames_to_return : Nat) :
    Stepped max_num_frames self (self.get frames_to_return).1 (self.get frames_to_return).2 := by
  have hsplit := eq_ready_append frames_to_return self.frames
  generalize hready : ready frames_to_return self.frames = handed_out at hsplit
  have hlength : handed_out.length ≤ max_num_frames := by
    have := congrArg List.length hsplit
    simp only [length_append, length_map, length_drop, h.size] at this
    omega
  simp only [StreamBuffer.get, hready]
  refine ⟨⟨?_, fun i frame hslot => ?_, fun hidle => ?_⟩, ?_, fun _ hidle => ?_, fun _ hs => ?_⟩
  · simp only [shift_frames_to_start, length_append, length_drop, length_replicate, h.size]
    omega
  · have hold : self.frames[handed_out.length + i]? = some (some frame) := by
      by_cases hi : i < (self.frames.drop handed_out.length).length
      · simpa only [shift_frames_to_start, getElem?_append_left hi, getElem?_drop] using hslot
      simp only [shift_frames_to_start, getElem?_append_right (Nat.le_of_not_lt hi), getElem?_replicate] at hslot
      simp at hslot
    rw [h.placed _ frame hold, BitVec.add_assoc]
    congr 1
    apply BitVec.eq_of_toNat_eq
    simp [BitVec.toNat_add, BitVec.toNat_ofNat]
  · have hempty := h.idle hidle
    show shift_frames_to_start handed_out.length self.frames = _
    rw [shift_frames_to_start, hempty, drop_replicate, replicate_append_replicate]
    congr 1
    omega
  · have hheld : self.held = handed_out ++ (self.frames.drop handed_out.length).filterMap id := by
      rw [held, hsplit]
      simp [filterMap_append, filterMap_map]
    rw [hheld]
    simp [held, shift_frames_to_start, filterMap_append]
  · cases handed_out with
    | nil => rfl
    | cons frame frames =>
      rw [h.idle hidle] at hsplit
      have hmem : some frame ∈ List.replicate max_num_frames (none : Option Frame) := by
        rw [hsplit]
        simp
      simp [mem_replicate] at hmem
  · refine ⟨consecutive_of_placed (hsplit ▸ h.placed), hs, rfl⟩

theorem Stepped.accept (h : self.Windowed max_num_frames) (bottom_ssid top_ssid : BitVec 32) :
    Stepped max_num_frames self (self.accept bottom_ssid top_ssid).1 (self.accept bottom_ssid top_ssid).2 := by
  unfold StreamBuffer.accept
  generalize (if top_ssid < bottom_ssid then (top_ssid, bottom_ssid) else (bottom_ssid, top_ssid)) = range
  obtain ⟨bottom, top⟩ := range
  by_cases hbottom : 0 < bottom
  · simp only [hbottom, if_true]
    refine Stepped.reset_with h ?_ true 0
    rfl
  simp only [hbottom, if_false]
  exact Stepped.keep h rfl rfl rfl

theorem Stepped.step (hmax : 0 < max_num_frames) (h : self.Windowed max_num_frames) (call : Call) :
    ∃ output next, step call self = some (output, next) ∧ Stepped max_num_frames self output next := by
  cases call with
  | put frame => exact Stepped.put hmax h frame
  | get frames_to_return => exact ⟨_, _, rfl, Stepped.get h frames_to_return⟩
  | accept bottom_ssid top_ssid => exact ⟨_, _, rfl, Stepped.accept h bottom_ssid top_ssid⟩
  | dont_accept_any =>
    refine ⟨_, _, rfl, Stepped.reset_with h ?_ true 0⟩
    rfl
  | set_blocked_ssid blocked_ssid => exact ⟨_, _, rfl, Stepped.keep h rfl rfl rfl⟩

/-- The frames that a run of calls hands out. -/
def all_handed_out (outputs : List BufferOutput) : List Frame := outputs.flatMap BufferOutput.handed_out

def all_freed (outputs : List BufferOutput) : List Frame := outputs.flatMap BufferOutput.freed

def all_accepted (outputs : List BufferOutput) : List Frame := outputs.flatMap BufferOutput.accepted

theorem run_cons {call : Call} {calls : List Call} {outputs : List BufferOutput} {last : StreamBuffer}
    (h : run (call :: calls) self = some (outputs, last)) :
    ∃ output next rest, step call self = some (output, next) ∧ run calls next = some (rest, last) ∧
      outputs = output :: rest := by
  simp only [run, bind_eq_some_iff, map_eq_some_iff] at h
  obtain ⟨⟨output, next⟩, hstep, ⟨rest, last'⟩, hrest, heq⟩ := h
  simp only [Prod.mk.injEq] at heq
  exact ⟨output, next, rest, hstep, heq.2 ▸ hrest, heq.1.symm⟩

section

variable (hmax : 0 < max_num_frames)

include hmax

theorem Stepped.of_step (h : self.Windowed max_num_frames)
    {call : Call} {output : BufferOutput} {next : StreamBuffer}
    (hstep : StreamBuffer.step call self = some (output, next)) : Stepped max_num_frames self output next := by
  obtain ⟨output', next', hstep', hstepped⟩ := Stepped.step hmax h call
  rw [hstep] at hstep'
  simp only [some.injEq, Prod.mk.injEq] at hstep'
  rw [hstep'.1, hstep'.2]
  exact hstepped

theorem run_defined (calls : List Call) (h : self.Windowed max_num_frames) :
    ∃ outputs last, run calls self = some (outputs, last) ∧ last.Windowed max_num_frames := by
  induction calls generalizing self with
  | nil => exact ⟨[], self, rfl, h⟩
  | cons call calls ih =>
    obtain ⟨output, next, hstep, hstepped⟩ := Stepped.step hmax h call
    obtain ⟨outputs, last, hrest, hlast⟩ := ih hstepped.windowed
    exact ⟨output :: outputs, last, by simp [run, hstep, hrest], hlast⟩

theorem run_conserved (calls : List Call)
    (h : self.Windowed max_num_frames) {outputs : List BufferOutput} {last : StreamBuffer}
    (hrun : run calls self = some (outputs, last)) :
    (all_handed_out outputs ++ all_freed outputs ++ last.held).Perm (all_accepted outputs ++ self.held) := by
  induction calls generalizing self outputs with
  | nil =>
    simp only [run, some.injEq, Prod.mk.injEq] at hrun
    simp [← hrun.1, ← hrun.2, all_handed_out, all_freed, all_accepted]
  | cons call calls ih =>
    obtain ⟨output, next, rest, hstep, hrest, houtputs⟩ := run_cons hrun
    have hstepped := Stepped.of_step hmax h hstep
    have hlater := ih hstepped.windowed hrest
    have hfirst := hstepped.conserved
    classical
    rw [perm_iff_count] at hlater hfirst ⊢
    intro frame
    have hlater_count := hlater frame
    have hfirst_count := hfirst frame
    simp only [houtputs, all_handed_out, all_freed, all_accepted, flatMap_cons, count_append]
      at hlater_count hfirst_count ⊢
    omega

theorem run_consecutive (calls : List Call)
    (h : self.Windowed max_num_frames) {outputs segment : List BufferOutput} {last : StreamBuffer}
    (hrun : run calls self = some (outputs, last)) (hsegment : segment <+: outputs)
    (hreset : ∀ output ∈ segment, output.reset = false) :
    ∃ sequence_number, (self.stream_started = true → sequence_number = self.sliding_window_start) ∧
      Consecutive sequence_number (all_handed_out segment) := by
  induction calls generalizing self outputs segment with
  | nil =>
    simp only [run, some.injEq, Prod.mk.injEq] at hrun
    rw [← hrun.1, prefix_nil] at hsegment
    exact ⟨self.sliding_window_start, fun _ => rfl, by rw [hsegment]; trivial⟩
  | cons call calls ih =>
    obtain ⟨output, next, rest, hstep, hrest, houtputs⟩ := run_cons hrun
    have hstepped := Stepped.of_step hmax h hstep
    rw [houtputs, prefix_cons_iff] at hsegment
    obtain hnil | ⟨later, hcons, hlater⟩ := hsegment
    · exact ⟨self.sliding_window_start, fun _ => rfl, by rw [hnil]; trivial⟩
    have hquiet : output.reset = false := hreset output (by simp [hcons])
    obtain ⟨sequence_number, hstart, hconsecutive⟩ := ih hstepped.windowed hrest hlater
      fun o ho => hreset o (by simp [hcons, ho])
    have hsplit : all_handed_out segment = output.handed_out ++ all_handed_out later := by simp [hcons, all_handed_out]
    rw [hsplit]
    cases hstarted : self.stream_started with
    | false =>
      rw [hstepped.quiet hquiet hstarted]
      exact ⟨sequence_number, fun hs => by simp at hs, hconsecutive⟩
    | true =>
      obtain ⟨hhanded, hnext, hmoved⟩ := hstepped.advanced hquiet hstarted
      refine ⟨self.sliding_window_start, fun _ => rfl, ?_⟩
      rw [hstart hnext, hmoved] at hconsecutive
      exact hhanded.append hconsecutive

theorem run_infix_consecutive (calls : List Call)
    (h : self.Windowed max_num_frames) {outputs segment : List BufferOutput} {last : StreamBuffer}
    (hrun : run calls self = some (outputs, last)) (hsegment : segment <:+: outputs)
    (hreset : ∀ output ∈ segment, output.reset = false) :
    ∃ sequence_number, Consecutive sequence_number (all_handed_out segment) := by
  induction calls generalizing self outputs with
  | nil =>
    simp only [run, some.injEq, Prod.mk.injEq] at hrun
    rw [← hrun.1, infix_nil] at hsegment
    exact ⟨0, by rw [hsegment]; trivial⟩
  | cons call calls ih =>
    obtain ⟨output, next, rest, hstep, hrest, houtputs⟩ := run_cons hrun
    rw [houtputs, infix_cons_iff, ← houtputs] at hsegment
    obtain hfirst | hlater := hsegment
    · obtain ⟨sequence_number, _, hconsecutive⟩ := run_consecutive hmax (call :: calls) h hrun hfirst hreset
      exact ⟨sequence_number, hconsecutive⟩
    · exact ih (Stepped.of_step hmax h hstep).windowed hrest hlater

end

theorem create_windowed (max_num_frames : Nat) : (create max_num_frames).Windowed max_num_frames :=
  replicate_windowed rfl

/-- Whether `put` returns true. -/
def accepts (self : StreamBuffer) (frame : Frame) : Bool := (self.put frame).any (·.1.ok)

theorem treat_out_of_range_frame_ok (sliding_window_start : BitVec 16) :
    (self.treat_out_of_range_frame sliding_window_start).1.ok = false := by
  unfold treat_out_of_range_frame
  by_cases hmisses : max_sliding_window_misses < self.sliding_window_misses + 1 <;> simp [hmisses, reset_with]

theorem accepts_iff {frame : Frame} (hstarted : self.stream_started = true)
    (haccepted : self.is_frame_accepted frame.expanded.ssrc = true) :
    self.accepts frame = true ↔ ¬ self.Wrapped frame ∧ self.Acceptable frame := by
  have hput : self.accepts frame = (self.insert_into_frames_array frame).1.ok := by
    simp [accepts, put, hstarted, haccepted]
  rw [hput, insert_into_frames_array]
  by_cases hwrapped : self.Wrapped frame
  · have hindex : index_for frame.expanded.sequence_number self.sliding_window_start = none := by
      have hlt := BitVec.lt_def.mp hwrapped
      rw [index_for, if_neg (by omega)]
    simp [hindex, treat_out_of_range_frame_ok, hwrapped]
  have hle : self.sliding_window_start.toNat ≤ frame.expanded.sequence_number.toNat :=
    Nat.le_of_not_lt fun hlt => hwrapped (BitVec.lt_def.mpr hlt)
  have hindex : index_for frame.expanded.sequence_number self.sliding_window_start = some (self.position frame) := by
    rw [index_for, if_pos hle, position, BitVec.toNat_sub_of_le (BitVec.le_def.mpr hle)]
  rw [hindex, Acceptable]
  cases hslot : self.frames[self.position frame]? with
  | none => simp [hslot, treat_out_of_range_frame_ok]
  | some slot => cases slot <;> simp [hslot, hwrapped]

/-- In every run of a buffer each frame is in the slot of its sequence number, no
    frame is handed out more often than it was accepted, and between resets the
    frames handed out are consecutive. Frames are accepted as they should be,
    except for those behind a wrap. -/
theorem run_stream_buffer (max_num_frames : Nat) (hmax : 0 < max_num_frames) (calls : List Call) :
    ∃ outputs self, run calls (create max_num_frames) = some (outputs, self) ∧ self.Windowed max_num_frames ∧
      (all_handed_out outputs ++ all_freed outputs ++ self.held).Perm (all_accepted outputs) ∧
      (∀ segment, segment <:+: outputs → (∀ output ∈ segment, output.reset = false) →
        ∃ sequence_number, Consecutive sequence_number (all_handed_out segment)) ∧
      ∀ frame, self.stream_started = true → self.is_frame_accepted frame.expanded.ssrc = true →
        ((self.accepts frame = true ↔ self.Acceptable frame) ↔ ¬ (self.Wrapped frame ∧ self.Acceptable frame)) := by
  obtain ⟨outputs, self, hrun, hwindowed⟩ := run_defined hmax calls (create_windowed max_num_frames)
  refine ⟨outputs, self, hrun, hwindowed, ?_, fun segment hsegment hreset => ?_, fun frame hstarted haccepted => ?_⟩
  · have hconserved := run_conserved hmax calls (create_windowed max_num_frames) hrun
    simpa only [held_replicate (create_windowed max_num_frames |>.idle rfl), List.append_nil] using hconserved
  · exact run_infix_consecutive hmax calls (create_windowed max_num_frames) hrun hsegment hreset
  · rw [accepts_iff hstarted haccepted]
    by_cases hwrapped : self.Wrapped frame <;> simp [hwrapped]

def doubled_calls : List Call :=
  [.accept 1 1, .put (small_frame 1 65534), .put (small_frame 1 65535), .put (small_frame 1 65534), .get 4]

theorem run_stream_buffer_doubled :
    0 < 4 ∧ ∃ outputs self, run doubled_calls (create 4) = some (outputs, self) ∧ self.Windowed 4 ∧
      (all_handed_out outputs ++ all_freed outputs ++ self.held).Perm (all_accepted outputs) := by
  obtain ⟨outputs, self, hrun, hwindowed, hconserved, _⟩ := run_stream_buffer 4 (by decide) doubled_calls
  exact ⟨by decide, outputs, self, hrun, hwindowed, hconserved⟩

/-- The number 0 follows 65535, but the frame is refused. -/
theorem frame_after_wrap_refused :
    ∃ outputs self, run [.accept 1 1, .put (small_frame 1 65535)] (create 2) = some (outputs, self) ∧
      self.stream_started = true ∧ self.is_frame_accepted 1 = true ∧ self.Acceptable (small_frame 1 0) ∧
      self.accepts (small_frame 1 0) = false := by
  refine ⟨_, _, rfl, by decide, by decide, ?_, by decide⟩
  rfl

end StreamBuffer

end openvocs.rtp
