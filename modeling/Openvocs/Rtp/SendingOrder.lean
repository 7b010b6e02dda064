import Openvocs.Rtp.FrameBuffer

open List Option

namespace openvocs.rtp

def num_frames_to_buffer_default : Nat := 2

/-- The number of stages that `ov_rtp_frame_buffer_create` allows. -/
def stages_for (num_frames_to_buffer_per_stream : Nat) : Nat :=
  if num_frames_to_buffer_per_stream = 0 then num_frames_to_buffer_default else num_frames_to_buffer_per_stream

theorem stages_for_pos (num_frames : Nat) : 1 ≤ stages_for num_frames := by
  unfold stages_for num_frames_to_buffer_default
  split <;> omega

/-- A buffer with the frames of one SSRC that were added to it, in the order of
    sending, and those that were taken from it, in the order of the lists. -/
structure Watched where
  stages : List Stage := []
  sent : List Frame := []
  taken : List Frame := []

section

variable (max_stages ssid : Nat)

/-- The frames of the SSRC in the list that the reader gets. -/
def taken_from (stages : List Stage) : List Frame :=
  ((get_current_frames stages).1.getD []).filter fun f => decide (f.ssid = ssid)

def watched_step (call : BufferCall) (w : Watched) : Option Watched :=
  match call with
  | .add frame =>
    (add max_stages frame w.stages).map fun (_, stages) =>
      { w with stages, sent := if frame.ssid = ssid then w.sent ++ [frame] else w.sent }
  | .get_current_frames =>
    some { w with stages := (get_current_frames w.stages).2, taken := w.taken ++ taken_from ssid w.stages }

/-- The frames of the SSRC are added with consecutive sequence numbers. -/
def sends_next (w : Watched) : BufferCall → Prop
  | .add frame => frame.ssid = ssid →
    ∀ last ∈ w.sent.getLast?, frame.expanded.sequence_number = last.expanded.sequence_number + 1
  | .get_current_frames => True

/-- The sequence numbers start again at 0 only when no frame of the SSRC is buffered. -/
def wraps_when_empty (w : Watched) : BufferCall → Prop
  | .add frame => frame.ssid = ssid → frame.sequence_number = 0 → held ssid w.stages = []
  | .get_current_frames => True

/-- A frame that is added is not returned and goes behind those that were sent before
    it, and what is taken continues the order of sending. -/
def keeps_order (w : Watched) : BufferCall → Prop
  | .add frame => frame.ssid = ssid →
    ∃ returned stages, add max_stages frame w.stages = some (returned, stages) ∧ returned ≠ some frame ∧
      (∀ dropped ∈ returned, dropped ∈ w.sent) ∧ (held ssid stages).getLast? = some frame
  | .get_current_frames => (w.taken ++ taken_from ssid w.stages).Sublist w.sent

/-- What is buffered of the SSRC are the frames that were sent last. -/
structure Ordered (w : Watched) : Prop where
  staged : Staged max_stages w.stages
  sent : ∃ gone, w.sent = gone ++ held ssid w.stages ∧ w.taken.Sublist gone

end

variable {max_stages ssid : Nat}

variable {w : Watched}

theorem Ordered.taken_sublist (h : Ordered max_stages ssid w) : w.taken.Sublist w.sent := by
  obtain ⟨gone, hsent, htaken⟩ := h.sent
  rw [hsent]
  exact htaken.trans (sublist_append_left gone _)

theorem filter_ssid_of_sorted {stage : Stage} (h : StageSorted stage) :
    stage.filter (fun f => decide (f.ssid = ssid)) = (frame_of ssid stage).toList := by
  induction stage with
  | nil => rfl
  | cons f stage ih =>
    obtain ⟨hless, hstage⟩ := pairwise_cons.mp h
    rw [frame_of_cons]
    by_cases hself : f.ssid = ssid
    · have hnone : stage.filter (fun f => decide (f.ssid = ssid)) = [] := by
        apply filter_eq_nil_iff.mpr
        intro g hg
        have hlt := hless g hg
        simp only [decide_eq_true_eq]
        omega
      rw [if_pos hself, filter_cons_of_pos (by simpa using hself), hnone]
      rfl
    rw [if_neg hself, filter_cons_of_neg (by simpa using hself)]
    exact ih hstage

variable {stages : List Stage}

theorem held_eq_taken (h : Staged max_stages stages) :
    held ssid stages = taken_from ssid stages ++ held ssid (get_current_frames stages).2 := by
  cases stages with
  | nil => rfl
  | cons stage stages =>
    have hfilter := @filter_ssid_of_sorted ssid stage (h.sorted stage mem_cons_self)
    have htaken : taken_from ssid (stage :: stages) = (frame_of ssid stage).toList := hfilter
    rw [htaken]
    unfold held
    cases hframe : frame_of ssid stage with
    | none => simp [get_current_frames, hframe]
    | some f => simp [get_current_frames, hframe]

theorem Ordered.taken (h : Ordered max_stages ssid w) : Ordered max_stages ssid
      { w with stages := (get_current_frames w.stages).2, taken := w.taken ++ taken_from ssid w.stages } := by
  obtain ⟨gone, hsent, htaken⟩ := h.sent
  refine ⟨h.staged.get_current_frames, gone ++ taken_from ssid w.stages, ?_, ?_⟩
  · rw [append_assoc, ← held_eq_taken h.staged]
    exact hsent
  · exact htaken.append (List.Sublist.refl _)

theorem Added.above {frame : Frame} {stages stages' : List Stage} {returned : Option Frame}
    (h : Added max_stages frame stages returned stages') (hstaged : Staged max_stages stages)
    (habove : ∀ g ∈ held frame.ssid stages, g.sequence_number < frame.sequence_number) :
    returned.toList ++ held frame.ssid stages' = held frame.ssid stages ++ [frame] := by
  have hnew : ∀ g ∈ held frame.ssid stages, g.sequence_number ≠ frame.sequence_number := by
    intro g hg
    have := habove g hg
    omega
  obtain ⟨hperm, _, hdropped⟩ := h.new hnew
  have hleft : Increasing (returned.toList ++ held frame.ssid stages') := by
    apply pairwise_append.mpr
    refine ⟨?_, h.staged.increasing frame.ssid, ?_⟩
    · cases returned with
      | none => exact List.Pairwise.nil
      | some dropped => exact pairwise_singleton _ _
    intro dropped hmem g hg
    exact hdropped dropped (mem_toList.mp hmem) g hg
  have hright : Increasing (held frame.ssid stages ++ [frame]) := by
    apply pairwise_append.mpr
    refine ⟨hstaged.increasing frame.ssid, pairwise_singleton _ _, ?_⟩
    intro g hg last hlast
    rw [mem_singleton.mp hlast]
    exact habove g hg
  have hsame : (returned.toList ++ held frame.ssid stages').Perm (held frame.ssid stages ++ [frame]) :=
    hperm.trans (perm_append_singleton frame _).symm
  refine hsame.eq_of_pairwise ?_ hleft hright
  intro f g _ _ hfg hgf
  omega

theorem next_number {frame last : Frame}
    (h : frame.expanded.sequence_number = last.expanded.sequence_number + 1) (hne : frame.sequence_number ≠ 0) :
    frame.sequence_number = last.sequence_number + 1 := by
  have hbound := last.expanded.sequence_number.isLt
  have hnumber : frame.sequence_number = (last.sequence_number + 1) % 65536 := by
    unfold Frame.sequence_number
    rw [h, BitVec.toNat_add]
    rfl
  unfold Frame.sequence_number at *
  omega

theorem le_getLast_of_increasing {frames : List Frame} (h : Increasing frames) {last g : Frame}
    (hlast : frames.getLast? = some last) (hg : g ∈ frames) : g.sequence_number ≤ last.sequence_number := by
  obtain ⟨front, rfl⟩ := getLast?_eq_some_iff.mp hlast
  obtain hfront | hself := mem_append.mp hg
  · have hlt := (pairwise_append.mp h).2.2 g hfront last (mem_singleton.mpr rfl)
    exact Nat.le_of_lt hlt
  · rw [mem_singleton.mp hself]

theorem Ordered.last_sent (h : Ordered max_stages ssid w) {last : Frame}
    (hlast : (held ssid w.stages).getLast? = some last) : w.sent.getLast? = some last := by
  obtain ⟨gone, hsent, _⟩ := h.sent
  rw [hsent, getLast?_append, hlast]
  rfl

theorem Ordered.next_above (h : Ordered max_stages ssid w) {frame : Frame} (hssid : frame.ssid = ssid)
    (hnext : sends_next ssid w (.add frame)) (hwrap : wraps_when_empty ssid w (.add frame)) :
    ∀ g ∈ held ssid w.stages, g.sequence_number < frame.sequence_number := by
  intro g hg
  have hne : frame.sequence_number ≠ 0 := by
    intro hzero
    rw [hwrap hssid hzero] at hg
    exact absurd hg not_mem_nil
  obtain ⟨last, hlast⟩ : ∃ last, (held ssid w.stages).getLast? = some last := by
    cases hheld : (held ssid w.stages).getLast? with
    | none =>
      rw [getLast?_eq_none_iff.mp hheld] at hg
      exact absurd hg not_mem_nil
    | some last => exact ⟨last, rfl⟩
  have hnumber := next_number (hnext hssid last (h.last_sent hlast)) hne
  have hle := le_getLast_of_increasing (h.staged.increasing ssid) hlast hg
  omega

theorem held_ne_nil_of_added {frame : Frame} {stages stages' : List Stage} {returned : Option Frame}
    (hmax : 1 ≤ max_stages) (h : Added max_stages frame stages returned stages')
    (hnew : ∀ g ∈ held frame.ssid stages, g.sequence_number ≠ frame.sequence_number) :
    held frame.ssid stages' ≠ [] := by
  intro hnil
  have hlength := (h.new hnew).2.1
  rw [hnil, length_nil] at hlength
  omega

theorem Ordered.added (hmax : 1 ≤ max_stages) (h : Ordered max_stages ssid w) {frame : Frame}
    (hssid : frame.ssid = ssid) (habove : ∀ g ∈ held ssid w.stages, g.sequence_number < frame.sequence_number)
    {returned : Option Frame} (hadded : Added max_stages frame w.stages returned stages) :
    (returned ≠ some frame ∧ (∀ dropped ∈ returned, dropped ∈ w.sent) ∧ (held ssid stages).getLast? = some frame) ∧
      Ordered max_stages ssid { w with stages, sent := w.sent ++ [frame] } := by
  subst hssid
  obtain ⟨gone, hsent, htaken⟩ := h.sent
  have hsplit := hadded.above h.staged habove
  have hnonempty := held_ne_nil_of_added hmax hadded (fun g hg => Nat.ne_of_lt (habove g hg))
  have hlast : (held frame.ssid stages).getLast? = some frame := by
    have hwhole := congrArg List.getLast? hsplit
    rw [getLast?_append_of_ne_nil _ hnonempty, getLast?_concat] at hwhole
    exact hwhole
  obtain ⟨front, hfront⟩ := getLast?_eq_some_iff.mp hlast
  have hheld : returned.toList ++ front = held frame.ssid w.stages := by
    rw [hfront, ← append_assoc] at hsplit
    exact append_cancel_right hsplit
  have hold : ∀ dropped ∈ returned, dropped ∈ held frame.ssid w.stages := by
    intro dropped hmem
    rw [← hheld]
    exact mem_append_left front (mem_toList.mpr hmem)
  refine ⟨⟨?_, ?_, hlast⟩, hadded.staged, gone ++ returned.toList, ?_, ?_⟩
  · intro hself
    have hlt := habove frame (hold frame hself)
    omega
  · intro dropped hmem
    rw [hsent]
    exact mem_append_right gone (hold dropped hmem)
  · calc w.sent ++ [frame]
        _ = gone ++ (held frame.ssid w.stages ++ [frame]) := by rw [hsent, append_assoc]
        _ = gone ++ (returned.toList ++ held frame.ssid stages) := by rw [hsplit]
        _ = gone ++ returned.toList ++ held frame.ssid stages := (append_assoc _ _ _).symm
  · exact htaken.trans (sublist_append_left gone _)

theorem Ordered.added_other (h : Ordered max_stages ssid w) {frame : Frame} (hssid : frame.ssid ≠ ssid)
    {returned : Option Frame} (hadded : Added max_stages frame w.stages returned stages) :
    Ordered max_stages ssid { w with stages } := by
  obtain ⟨gone, hsent, htaken⟩ := h.sent
  refine ⟨hadded.staged, gone, ?_, htaken⟩
  rw [hadded.others ssid (Ne.symm hssid)]
  exact hsent

theorem Ordered.wrapped (h : Ordered max_stages ssid w) {frame : Frame}
    (hssid : frame.ssid = ssid) (hzero : frame.sequence_number = 0) (hheld : held ssid w.stages ≠ []) {returned : Option Frame}
    (hadded : Added max_stages frame w.stages returned stages) :
    returned = some frame ∨ (held ssid stages).getLast? ≠ some frame := by
  subst hssid
  by_cases hknown : ∃ g ∈ held frame.ssid w.stages, g.sequence_number = frame.sequence_number
  · exact .inl (hadded.known hknown).1
  right
  intro hlast
  have hnew : ∀ g ∈ held frame.ssid w.stages, g.sequence_number ≠ frame.sequence_number := by
    intro g hg heq
    exact hknown ⟨g, hg, heq⟩
  obtain ⟨hperm, hlength, hdropped⟩ := hadded.new hnew
  -- nothing is below the number 0
  have hnone : returned = none := by
    cases returned with
    | none => rfl
    | some dropped =>
      have hlt := hdropped dropped rfl frame (mem_of_getLast? hlast)
      omega
  obtain ⟨g, hg⟩ := exists_mem_of_ne_nil _ hheld
  have hmem : g ∈ held frame.ssid stages := by
    rw [hnone] at hperm
    exact hperm.mem_iff.mpr (mem_cons_of_mem frame hg)
  have hle := le_getLast_of_increasing (hadded.staged.increasing frame.ssid) hlast hmem
  have hne := hnew g hg
  omega

theorem Ordered.step_iff (hmax : 1 ≤ max_stages) (h : Ordered max_stages ssid w) {call : BufferCall}
    (hnext : sends_next ssid w call) : wraps_when_empty ssid w call ↔ keeps_order max_stages ssid w call := by
  cases call with
  | get_current_frames =>
    have htaken := h.taken.taken_sublist
    exact ⟨fun _ => htaken, fun _ => trivial⟩
  | add frame =>
    obtain ⟨returned, stages, hadd, hadded⟩ := add_spec hmax frame h.staged
    constructor
    · intro hwrap hssid
      obtain ⟨hkept, _⟩ := h.added hmax hssid (h.next_above hssid hnext hwrap) hadded
      exact ⟨returned, stages, hadd, hkept⟩
    intro hkeeps hssid hzero
    obtain ⟨returned', stages', hadd', hreturned, _, hlast⟩ := hkeeps hssid
    obtain ⟨rfl, rfl⟩ : returned = returned' ∧ stages = stages' := by
      rw [hadd] at hadd'
      simpa using hadd'
    by_contra hheld
    obtain hback | hfront := h.wrapped hssid hzero hheld hadded
    · exact hreturned hback
    · exact hfront hlast

theorem Ordered.step (hmax : 1 ≤ max_stages) (h : Ordered max_stages ssid w) {call : BufferCall}
    (hnext : sends_next ssid w call) (hwrap : wraps_when_empty ssid w call) :
    ∃ w', watched_step max_stages ssid call w = some w' ∧ Ordered max_stages ssid w' := by
  cases call with
  | get_current_frames => exact ⟨_, rfl, h.taken⟩
  | add frame =>
    obtain ⟨returned, stages, hadd, hadded⟩ := add_spec hmax frame h.staged
    refine ⟨_, by simp only [watched_step, hadd, map_some]; rfl, ?_⟩
    by_cases hssid : frame.ssid = ssid
    · rw [if_pos hssid]
      exact (h.added hmax hssid (h.next_above hssid hnext hwrap) hadded).2
    rw [if_neg hssid]
    exact h.added_other hssid hadded

theorem Ordered.start (max_stages ssid : Nat) : Ordered max_stages ssid {} :=
  ⟨⟨by simp, fun _ => ⟨0, rfl⟩, fun _ => List.Pairwise.nil, Nat.zero_le _⟩, [], rfl, List.Sublist.refl _⟩

theorem Ordered.along_iff (hmax : 1 ≤ max_stages) (calls : List BufferCall) (h : Ordered max_stages ssid w)
    (hstream : machine.along (watched_step max_stages ssid) (sends_next ssid) calls w) :
    machine.along (watched_step max_stages ssid) (wraps_when_empty ssid) calls w ↔
      machine.along (watched_step max_stages ssid) (keeps_order max_stages ssid) calls w := by
  induction calls generalizing w with
  | nil => exact Iff.rfl
  | cons call calls ih =>
    obtain ⟨hnext, hrest⟩ := hstream
    have hiff := h.step_iff hmax hnext
    have htail : wraps_when_empty ssid w call → ∀ w', watched_step max_stages ssid call w = some w' →
        (machine.along (watched_step max_stages ssid) (wraps_when_empty ssid) calls w' ↔
          machine.along (watched_step max_stages ssid) (keeps_order max_stages ssid) calls w') := by
      intro hwrap w' hstep
      obtain ⟨_, hstep', hordered⟩ := h.step hmax hnext hwrap
      obtain rfl := some.inj (hstep.symm.trans hstep')
      exact ih hordered (hrest w' hstep)
    constructor
    · rintro ⟨hwrap, hafter⟩
      refine ⟨hiff.mp hwrap, fun w' hstep => ?_⟩
      exact (htail hwrap w' hstep).mp (hafter w' hstep)
    rintro ⟨hkeeps, hafter⟩
    have hwrap := hiff.mpr hkeeps
    refine ⟨hwrap, fun w' hstep => ?_⟩
    exact (htail hwrap w' hstep).mpr (hafter w' hstep)

/-- As long as the frames of an SSRC come with consecutive numbers that start again only when none of them is
held, no frame is returned by the call that adds it, each goes behind those sent before it, and they come out
in the order of sending. With the first one that starts again among held ones this ends. -/
theorem sending_order_when (num_frames ssid : Nat) (calls : List BufferCall)
    (hstream : machine.along (watched_step (stages_for num_frames) ssid) (sends_next ssid) calls {}) :
    (machine.along (watched_step (stages_for num_frames) ssid) (wraps_when_empty ssid) calls {} ↔
        machine.along (watched_step (stages_for num_frames) ssid) (keeps_order (stages_for num_frames) ssid) calls {}) ∧
      (machine.along (watched_step (stages_for num_frames) ssid) (wraps_when_empty ssid) calls {} →
        ∃ w, machine.run (watched_step (stages_for num_frames) ssid) calls {} = some w ∧
          w.taken.Sublist w.sent ∧ ∃ gone, w.sent = gone ++ held ssid w.stages) := by
  have hmax := stages_for_pos num_frames
  refine ⟨Ordered.along_iff hmax calls (Ordered.start _ _) hstream, fun hwrap => ?_⟩
  have hboth : machine.along (watched_step (stages_for num_frames) ssid)
      (fun w call => sends_next ssid w call ∧ wraps_when_empty ssid w call) calls {} :=
    machine.along_and.mpr ⟨hstream, hwrap⟩
  obtain ⟨w, hrun, hordered⟩ :=
    machine.run_defined (Ordered (stages_for num_frames) ssid) _
      (fun w call h hallowed => h.step hmax hallowed.1 hallowed.2) calls (Ordered.start _ _) hboth
  obtain ⟨gone, hsent, _⟩ := hordered.sent
  exact ⟨w, hrun, hordered.taken_sublist, gone, hsent⟩

def wrapping_calls : List BufferCall :=
  [.add (small_frame 1 65534), .add (small_frame 1 65535), .get_current_frames, .get_current_frames,
    .add (small_frame 1 0)]

theorem sending_order_when_taken_before :
    machine.along (watched_step (stages_for 2) 1) (sends_next 1) wrapping_calls {} ∧
      machine.along (watched_step (stages_for 2) 1) (wraps_when_empty 1) wrapping_calls {} ∧
      machine.along (watched_step (stages_for 2) 1) (keeps_order (stages_for 2) 1) wrapping_calls {} := by
  have hstream : machine.along (watched_step (stages_for 2) 1) (sends_next 1) wrapping_calls {} := by
    simp [machine.along, wrapping_calls, watched_step, sends_next, stages_for, add, insert_into_stages,
      insert_from_stage, insert_into_stage, get_current_frames, small_frame, Frame.ssid, Frame.sequence_number]
  have hwrap : machine.along (watched_step (stages_for 2) 1) (wraps_when_empty 1) wrapping_calls {} := by
    simp [machine.along, wrapping_calls, watched_step, wraps_when_empty, stages_for, add, insert_into_stages,
      insert_from_stage, insert_into_stage, get_current_frames, small_frame, Frame.ssid, Frame.sequence_number, held]
  exact ⟨hstream, hwrap, (sending_order_when 2 1 wrapping_calls hstream).1.mp hwrap⟩

/-- Behind the number 65535 comes 0: the buffer for one frame gives the frame back that
    is added, and the buffer for two gives it out first. -/
theorem wrapped_frame_first :
    ((machine.run (watched_step (stages_for 1) 1) [.add (small_frame 1 65535)] {}).bind fun w =>
        (add (stages_for 1) (small_frame 1 0) w.stages).map Prod.fst) = some (some (small_frame 1 0)) ∧
      (machine.run (watched_step (stages_for 2) 1) [.add (small_frame 1 65535), .add (small_frame 1 0),
        .get_current_frames, .get_current_frames] {}).map (fun w => (w.sent, w.taken)) =
        some ([small_frame 1 65535, small_frame 1 0], [small_frame 1 0, small_frame 1 65535]) :=
  ⟨rfl, rfl⟩

end openvocs.rtp
