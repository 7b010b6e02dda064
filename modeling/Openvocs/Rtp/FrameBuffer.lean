import Mathlib.Data.List.Sort
import Openvocs.Lib.Machine
import Openvocs.Rtp.Frame

open List Option

namespace openvocs.rtp

/-- The SSRC of a frame; the buffer calls it SSID. -/
def Frame.ssid (f : Frame) : Nat := f.expanded.ssrc.toNat

def Frame.sequence_number (f : Frame) : Nat := f.expanded.sequence_number.toNat

/-- Frames of distinct SSIDs in increasing order. -/
abbrev Stage := List Frame

/-- What an insertion comes back with. -/
inductive Inserted where
  | inserted
  | already_present
  | remainder (frame : Frame)

def insert_into_stage (frame : Frame) : Stage → Inserted × Stage
  | [] => (.inserted, [frame])
  | current :: stage =>
    if current.ssid < frame.ssid then
      let (result, stage) := insert_into_stage frame stage
      (result, current :: stage)
    else if frame.ssid < current.ssid then (.inserted, frame :: current :: stage)
    else if current.sequence_number < frame.sequence_number then (.remainder frame, current :: stage)
    else if frame.sequence_number = current.sequence_number then (.already_present, current :: stage)
    else (.remainder current, frame :: stage)

/-- The loop of `insert_into_stages`. -/
def insert_from_stage (frame : Frame) : List Stage → Inserted × List Stage
  | [] => (.remainder frame, [])
  | stage :: stages =>
    match insert_into_stage frame stage with
    | (.remainder rest, stage) =>
      let (result, stages) := insert_from_stage rest stages
      (result, stage :: stages)
    | (result, stage) => (result, stage :: stages)

/-- `insert_into_stages`. Where not even the first stage can be added, the frame
    is lost. -/
def insert_into_stages (max_stages : Nat) (frame : Frame) (stages : List Stage) : Inserted × List Stage :=
  if stages.length = 0 then
    if max_stages ≤ 0 then (.inserted, stages) else insert_from_stage frame [[]]
  else insert_from_stage frame stages

def drop_frame_from_stage (ssid : Nat) : Stage → Option Frame × Stage
  | [] => (none, [])
  | current :: stage =>
    if ssid = current.ssid then (some current, stage)
    else if ssid < current.ssid then (none, current :: stage)
    else
      let (dropped, stage) := drop_frame_from_stage ssid stage
      (dropped, current :: stage)

/-- The loop of `drop_oldest_frame`: every frame moves one stage down. It is `none`
    when an assertion fails. -/
def shift_frames (ssid : Nat) (prev_stage : Stage) : List Stage → Option (List Stage)
  | [] => some [prev_stage]
  | current_stage :: stages =>
    match drop_frame_from_stage ssid current_stage with
    | (none, _) => none
    | (some frame_to_shift, current_stage) =>
      match insert_into_stage frame_to_shift prev_stage with
      | (.inserted, prev_stage) => (shift_frames ssid current_stage stages).map (prev_stage :: ·)
      | _ => none

def drop_oldest_frame (frame : Frame) : List Stage → Option (Frame × List Stage)
  | [] => none
  | prev_stage :: stages =>
    match drop_frame_from_stage frame.ssid prev_stage with
    | (none, _) => none
    | (some remainder, prev_stage) => (shift_frames frame.ssid prev_stage stages).map (remainder, ·)

/-- `ov_rtp_frame_buffer_add`, with the frame it returns. -/
def add (max_stages : Nat) (frame : Frame) (stages : List Stage) : Option (Option Frame × List Stage) :=
  match insert_into_stages max_stages frame stages with
  | (.inserted, stages) => some (none, stages)
  | (.already_present, stages) => some (some frame, stages)
  | (.remainder rest, stages) =>
    -- `add_stage`; a frame always fits into the new stage
    if stages.length < max_stages then some (none, stages ++ [(insert_into_stage rest []).2])
    else
      match drop_oldest_frame rest stages with
      | none => none
      | some (dropped_frame, stages) => some (some dropped_frame, (insert_into_stages max_stages rest stages).2)

def get_current_frames (stages : List Stage) : Option Stage × List Stage :=
  (stages.head?, stages.tail)

/-- The calls of the interface. -/
inductive BufferCall where
  | add (frame : Frame)
  | get_current_frames

def buffer_step (max_stages : Nat) (call : BufferCall) (stages : List Stage) : Option (List Stage) :=
  match call with
  | .add frame => (add max_stages frame stages).map Prod.snd
  | .get_current_frames => some (get_current_frames stages).2

/-- The frame of an SSID in a stage. -/
def frame_of (ssid : Nat) (stage : Stage) : Option Frame := stage.find? (fun f => decide (f.ssid = ssid))

/-- The frames of an SSID along the stages, with the gaps. -/
def column (ssid : Nat) (stages : List Stage) : List (Option Frame) := stages.map (frame_of ssid)

/-- The frames of an SSID along the stages. -/
def held (ssid : Nat) (stages : List Stage) : List Frame := stages.filterMap (frame_of ssid)

def StageSorted (stage : Stage) : Prop := stage.Pairwise (fun f g => f.ssid < g.ssid)

/-- The stages as they are meant to be. -/
structure Staged (max_stages : Nat) (stages : List Stage) : Prop where
  sorted : ∀ stage ∈ stages, StageSorted stage
  -- the stages that hold an SSID come first
  filled : ∀ ssid, ∃ gaps, column ssid stages = (held ssid stages).map some ++ List.replicate gaps none
  increasing : ∀ ssid, (held ssid stages).Pairwise (fun f g => f.sequence_number < g.sequence_number)
  bounded : stages.length ≤ max_stages

variable {frames : List Frame} {gaps : Nat} {stages : List Stage}

theorem held_of_column {ssid : Nat}
    (h : column ssid stages = frames.map some ++ List.replicate gaps none) : held ssid stages = frames := by
  have hheld : held ssid stages = (column ssid stages).filterMap id := by simp [held, column, filterMap_map]
  rw [hheld, h]
  simp [filterMap_append, filterMap_map]

variable {stage : Stage}

theorem frame_of_eq_none {ssid : Nat} : frame_of ssid stage = none ↔ ∀ f ∈ stage, f.ssid ≠ ssid := by
  simp [frame_of, find?_eq_none]

variable {f : Frame}

theorem ssid_of_frame_of {ssid : Nat} (h : frame_of ssid stage = some f) : f.ssid = ssid := by
  have := find?_some h
  simpa using this

theorem frame_of_cons (ssid : Nat) (f : Frame) (stage : Stage) :
    frame_of ssid (f :: stage) = if f.ssid = ssid then some f else frame_of ssid stage := by
  simp only [frame_of, find?_cons]
  split <;> simp_all

/-- The stage has the frame now, and is as before for the other SSIDs. -/
structure Holds (frame : Frame) (stage stage' : Stage) : Prop where
  sorted : StageSorted stage'
  own : frame_of frame.ssid stage' = some frame
  others : ∀ ssid, ssid ≠ frame.ssid → frame_of ssid stage' = frame_of ssid stage

theorem Holds.cons {frame current : Frame} {stage stage' : Stage} (h : Holds frame stage stage')
    (hcurrent : current.ssid < frame.ssid) (hsorted : StageSorted (current :: stage))
    (hmem : ∀ f ∈ stage', f = frame ∨ f ∈ stage) : Holds frame (current :: stage) (current :: stage') := by
  obtain ⟨hless, hstage⟩ := pairwise_cons.mp hsorted
  constructor
  · refine pairwise_cons.mpr ⟨fun f hf => ?_, h.sorted⟩
    obtain rfl | hold := hmem f hf
    · exact hcurrent
    · exact hless f hold
  · rw [frame_of_cons, if_neg (by omega)]
    exact h.own
  intro ssid hne
  rw [frame_of_cons, frame_of_cons, h.others ssid hne]

theorem insert_absent (frame : Frame) (h : StageSorted stage) (habsent : frame_of frame.ssid stage = none) :
    ∃ stage', insert_into_stage frame stage = (.inserted, stage') ∧ stage'.Perm (frame :: stage) ∧
      Holds frame stage stage' := by
  induction stage with
  | nil =>
    refine ⟨[frame], rfl, .refl _, pairwise_singleton _ _, ?_, ?_⟩
    · simp [frame_of_cons]
    intro ssid hne
    rw [frame_of_cons, if_neg hne.symm]
  | cons current stage ih =>
    obtain ⟨hless, hstage⟩ := pairwise_cons.mp h
    rw [frame_of_cons] at habsent
    have hne : current.ssid ≠ frame.ssid := by
      intro heq
      simp [heq] at habsent
    rw [if_neg hne] at habsent
    by_cases hlt : current.ssid < frame.ssid
    · obtain ⟨stage', hinsert, hperm, hholds⟩ := ih hstage habsent
      refine ⟨current :: stage', ?_, ?_, ?_⟩
      · simp [insert_into_stage, hlt, hinsert]
      · exact (hperm.cons current).trans (List.Perm.swap frame current stage)
      refine hholds.cons hlt h (fun f hf => ?_)
      simpa using hperm.mem_iff.mp hf
    refine ⟨frame :: current :: stage, ?_, .refl _, ?_, ?_, ?_⟩
    · simp [insert_into_stage, hlt, show frame.ssid < current.ssid by omega]
    · refine pairwise_cons.mpr ⟨fun f hf => ?_, h⟩
      obtain rfl | hmem := mem_cons.mp hf
      · omega
      have := hless f hmem
      omega
    · simp [frame_of_cons]
    intro ssid hssid
    rw [frame_of_cons, if_neg hssid.symm]

theorem insert_present (frame : Frame) (h : StageSorted stage) {current : Frame}
    (hpresent : frame_of frame.ssid stage = some current) :
    (current.sequence_number < frame.sequence_number → insert_into_stage frame stage = (.remainder frame, stage)) ∧
      (frame.sequence_number = current.sequence_number →
        insert_into_stage frame stage = (.already_present, stage)) ∧
      (frame.sequence_number < current.sequence_number → ∃ stage',
        insert_into_stage frame stage = (.remainder current, stage') ∧
          (current :: stage').Perm (frame :: stage) ∧ Holds frame stage stage') := by
  induction stage with
  | nil => simp [frame_of] at hpresent
  | cons first stage ih =>
    obtain ⟨hless, hstage⟩ := pairwise_cons.mp h
    rw [frame_of_cons] at hpresent
    by_cases hself : first.ssid = frame.ssid
    · rw [if_pos hself] at hpresent
      cases hpresent
      refine ⟨fun hlt => ?_, fun heq => ?_, fun hgt => ⟨frame :: stage, ?_, ?_, ?_, ?_, ?_⟩⟩
      · simp [insert_into_stage, hself, hlt]
      · simp [insert_into_stage, hself, heq]
      · simp [insert_into_stage, hself, show ¬ current.sequence_number < frame.sequence_number by omega,
          show frame.sequence_number ≠ current.sequence_number by omega]
      · exact List.Perm.swap frame current stage
      · exact pairwise_cons.mpr ⟨fun f hf => hself ▸ hless f hf, hstage⟩
      · simp [frame_of_cons]
      intro ssid hne
      rw [frame_of_cons, frame_of_cons, if_neg hne.symm, if_neg (by omega)]
    rw [if_neg hself] at hpresent
    have hfound : current ∈ stage := mem_of_find?_eq_some hpresent
    have hssid := ssid_of_frame_of hpresent
    have hlt : first.ssid < frame.ssid := hssid ▸ hless current hfound
    obtain ⟨hlow, hsame, hhigh⟩ := ih hstage hpresent
    refine ⟨fun hseq => ?_, fun hseq => ?_, fun hseq => ?_⟩
    · simp [insert_into_stage, hlt, hlow hseq]
    · simp [insert_into_stage, hlt, hsame hseq]
    obtain ⟨stage', hinsert, hperm, hholds⟩ := hhigh hseq
    refine ⟨first :: stage', ?_, ?_, ?_⟩
    · simp [insert_into_stage, hlt, hinsert]
    · exact (List.Perm.swap first current stage').trans
        ((hperm.cons first).trans (List.Perm.swap frame first stage))
    refine hholds.cons hlt h (fun f hf => ?_)
    have hmem : f ∈ frame :: stage := hperm.mem_iff.mp (mem_cons_of_mem current hf)
    simpa using hmem

abbrev ByNumber (f g : Frame) : Prop := f.sequence_number ≤ g.sequence_number

/-- A frame among the frames of its SSID. -/
abbrev in_order (frame : Frame) (frames : List Frame) : List Frame := frames.orderedInsert ByNumber frame

abbrev Increasing (frames : List Frame) : Prop :=
  frames.Pairwise (fun f g => f.sequence_number < g.sequence_number)

theorem in_order_cons_of_le {frame g : Frame} (frames : List Frame) (h : frame.sequence_number ≤ g.sequence_number) :
    in_order frame (g :: frames) = frame :: g :: frames :=
  orderedInsert_cons_of_le ByNumber frames h

theorem in_order_cons_of_lt {frame g : Frame} (frames : List Frame) (h : g.sequence_number < frame.sequence_number) :
    in_order frame (g :: frames) = g :: in_order frame frames :=
  orderedInsert_of_not_le ByNumber frames (Nat.not_le_of_lt h)

theorem in_order_below {frame : Frame}
    (h : ∀ g ∈ frames, frame.sequence_number < g.sequence_number) : in_order frame frames = frame :: frames := by
  cases frames with
  | nil => rfl
  | cons g frames =>
    have hg := h g mem_cons_self
    exact in_order_cons_of_le frames (Nat.le_of_lt hg)

/-- What a change of the frames of one SSID leaves as it was. -/
structure Spread (ssid : Nat) (stages stages' : List Stage) (frames : List Frame) (gaps : Nat) : Prop where
  sorted : ∀ stage ∈ stages', StageSorted stage
  length : stages'.length = stages.length
  own : column ssid stages' = frames.map some ++ List.replicate gaps none
  others : ∀ other, other ≠ ssid → column other stages' = column other stages

variable {stages stages' : List Stage}

theorem Spread.cons {ssid : Nat} {stage stage' : Stage} (h : Spread ssid stages stages' frames gaps) (hsorted : StageSorted stage')
    (hown : frame_of ssid stage' = some f)
    (hothers : ∀ other, other ≠ ssid → frame_of other stage' = frame_of other stage) :
    Spread ssid (stage :: stages) (stage' :: stages') (f :: frames) gaps := by
  constructor
  · intro s hs
    obtain rfl | hs := mem_cons.mp hs
    · exact hsorted
    · exact h.sorted s hs
  · simp [h.length]
  · have htail := h.own
    simp only [column] at htail
    simp [column, hown, htail]
  intro other hne
  have htail := h.others other hne
  simp only [column] at htail
  simp [column, hothers other hne, htail]

theorem insert_from_stage_spec {frame : Frame} (hsorted : ∀ stage ∈ stages, StageSorted stage)
    (hcolumn : column frame.ssid stages = frames.map some ++ List.replicate gaps none) (hframes : Increasing frames) :
    ((∃ g ∈ frames, g.sequence_number = frame.sequence_number) ∧
        insert_from_stage frame stages = (.already_present, stages)) ∨
      ((∀ g ∈ frames, g.sequence_number ≠ frame.sequence_number) ∧ 0 < gaps ∧ ∃ stages',
        insert_from_stage frame stages = (.inserted, stages') ∧ stages'.flatten.Perm (frame :: stages.flatten) ∧
          Spread frame.ssid stages stages' (in_order frame frames) (gaps - 1)) ∨
      ((∀ g ∈ frames, g.sequence_number ≠ frame.sequence_number) ∧ gaps = 0 ∧ ∃ stages' lower last,
        in_order frame frames = lower ++ [last] ∧ insert_from_stage frame stages = (.remainder last, stages') ∧
          (last :: stages'.flatten).Perm (frame :: stages.flatten) ∧ Spread frame.ssid stages stages' lower 0) := by
  induction stages generalizing frame frames with
  | nil =>
    obtain ⟨rfl, rfl⟩ : frames = [] ∧ gaps = 0 := by simpa [column] using hcolumn.symm
    refine .inr (.inr ⟨by simp, rfl, [], [], frame, rfl, rfl, .refl _, ?_⟩)
    exact ⟨by simp, rfl, rfl, fun _ _ => rfl⟩
  | cons stage stages ih =>
    have hstage := hsorted stage mem_cons_self
    have hstages := fun s hs => hsorted s (mem_cons_of_mem stage hs)
    cases frames with
    | nil =>
      -- the first gap
      obtain ⟨gaps, rfl⟩ : ∃ n, gaps = n + 1 := by
        cases gaps with
        | zero => simp [column] at hcolumn
        | succ n => exact ⟨n, rfl⟩
      simp only [column, map_cons, map_nil, nil_append, replicate_succ, List.cons.injEq] at hcolumn
      obtain ⟨stage', hinsert, hperm, hholds⟩ := insert_absent frame hstage hcolumn.1
      refine .inr (.inl ⟨by simp, by omega, stage' :: stages, ?_, ?_, ?_⟩)
      · simp [insert_from_stage, hinsert]
      · simpa using hperm.append_right stages.flatten
      refine Spread.cons ⟨hstages, rfl, ?_, fun _ _ => rfl⟩ hholds.sorted hholds.own hholds.others
      simpa [column] using hcolumn.2
    | cons g frames =>
      simp only [column, map_cons, List.cons_append, List.cons.injEq] at hcolumn
      obtain ⟨hg, hrest⟩ := hcolumn
      obtain ⟨habove, hframes'⟩ := pairwise_cons.mp hframes
      have hssid := ssid_of_frame_of hg
      obtain ⟨hlow, hsame, hhigh⟩ := insert_present frame hstage hg
      obtain hlt | heq | hgt := Nat.lt_trichotomy g.sequence_number frame.sequence_number
      · have hne : (∀ h ∈ frames, h.sequence_number ≠ frame.sequence_number) →
            ∀ h ∈ g :: frames, h.sequence_number ≠ frame.sequence_number := by
          intro hall h hh
          obtain rfl | hh := mem_cons.mp hh
          · omega
          · exact hall h hh
        rw [in_order_cons_of_lt frames hlt]
        obtain ⟨⟨h, hh, hseq⟩, hins⟩ | ⟨hall, hgap, stages', hins, hperm, hspread⟩ |
          ⟨hall, hgap, stages', lower, last, hlast, hins, hperm, hspread⟩ := ih hstages hrest hframes'
        · refine .inl ⟨⟨h, mem_cons_of_mem g hh, hseq⟩, ?_⟩
          simp [insert_from_stage, hlow hlt, hins]
        · refine .inr (.inl ⟨hne hall, hgap, stage :: stages', ?_, ?_, ?_⟩)
          · simp [insert_from_stage, hlow hlt, hins]
          · exact (hperm.append_left stage).trans perm_middle
          · exact hspread.cons hstage hg (fun _ _ => rfl)
        refine .inr (.inr ⟨hne hall, hgap, stage :: stages', g :: lower, last, ?_, ?_, ?_, ?_⟩)
        · rw [hlast, List.cons_append]
        · simp [insert_from_stage, hlow hlt, hins]
        · exact perm_middle.symm.trans ((hperm.append_left stage).trans perm_middle)
        · exact hspread.cons hstage hg (fun _ _ => rfl)
      · exact .inl ⟨⟨g, mem_cons_self, heq⟩, by simp [insert_from_stage, hsame heq.symm]⟩
      have horder : in_order frame (g :: frames) = frame :: in_order g frames := by
        rw [in_order_below habove]
        exact in_order_cons_of_le frames (Nat.le_of_lt hgt)
      have hne : ∀ h ∈ g :: frames, h.sequence_number ≠ frame.sequence_number := by
        intro h hh
        obtain rfl | hh := mem_cons.mp hh
        · omega
        have := habove h hh
        omega
      obtain ⟨stage', hinsert, hswap, hholds⟩ := hhigh hgt
      have hrest' : column g.ssid stages = frames.map some ++ List.replicate gaps none := by
        rw [hssid]
        exact hrest
      rw [horder]
      -- the cascade goes on with the frame that was replaced
      obtain ⟨⟨h, hh, hseq⟩, _⟩ | ⟨_, hgap, stages', hins, hperm, hspread⟩ |
        ⟨_, hgap, stages', lower, last, hlast, hins, hperm, hspread⟩ :=
          ih hstages hrest' hframes'
      · have := habove h hh
        omega
      · rw [hssid] at hspread
        refine .inr (.inl ⟨hne, hgap, stage' :: stages', ?_, ?_, ?_⟩)
        · simp [insert_from_stage, hinsert, hins]
        · calc (stage' :: stages').flatten
              _ = stage' ++ stages'.flatten := rfl
              List.Perm _ (stage' ++ g :: stages.flatten) := hperm.append_left stage'
              List.Perm _ (g :: (stage' ++ stages.flatten)) := perm_middle
              List.Perm _ (frame :: (stage ++ stages.flatten)) := hswap.append_right stages.flatten
        · exact hspread.cons hholds.sorted hholds.own hholds.others
      rw [hssid] at hspread
      refine .inr (.inr ⟨hne, hgap, stage' :: stages', frame :: lower, last, ?_, ?_, ?_, ?_⟩)
      · rw [hlast, List.cons_append]
      · simp [insert_from_stage, hinsert, hins]
      · calc List.Perm (last :: (stage' ++ stages'.flatten)) (stage' ++ last :: stages'.flatten) :=
              perm_middle.symm
            List.Perm _ (stage' ++ g :: stages.flatten) := hperm.append_left stage'
            List.Perm _ (g :: (stage' ++ stages.flatten)) := perm_middle
            List.Perm _ (frame :: (stage ++ stages.flatten)) := hswap.append_right stages.flatten
      · exact hspread.cons hholds.sorted hholds.own hholds.others

theorem drop_frame_from_stage_spec {ssid : Nat} (h : StageSorted stage) (hf : frame_of ssid stage = some f) :
    ∃ stage', drop_frame_from_stage ssid stage = (some f, stage') ∧ (f :: stage').Perm stage ∧ StageSorted stage' ∧
      frame_of ssid stage' = none ∧ ∀ other, other ≠ ssid → frame_of other stage' = frame_of other stage := by
  induction stage with
  | nil => simp [frame_of] at hf
  | cons current stage ih =>
    obtain ⟨hless, hstage⟩ := pairwise_cons.mp h
    rw [frame_of_cons] at hf
    by_cases hself : current.ssid = ssid
    · rw [if_pos hself] at hf
      cases hf
      refine ⟨stage, by simp [drop_frame_from_stage, hself], .refl _, hstage, ?_, ?_⟩
      · rw [frame_of_eq_none]
        intro g hg
        have := hless g hg
        omega
      intro other hne
      rw [frame_of_cons, if_neg (by omega)]
    rw [if_neg hself] at hf
    have hlt : current.ssid < ssid := ssid_of_frame_of hf ▸ hless f (mem_of_find?_eq_some hf)
    obtain ⟨stage', hdrop, hperm, hsorted, hnone, hothers⟩ := ih hstage hf
    refine ⟨current :: stage', ?_, ?_, ?_, ?_, ?_⟩
    · simp [drop_frame_from_stage, hdrop, show ssid ≠ current.ssid by omega, show ¬ ssid < current.ssid by omega]
    · exact (List.Perm.swap current f stage').trans (hperm.cons current)
    · refine pairwise_cons.mpr ⟨fun g hg => ?_, hsorted⟩
      exact hless g (hperm.subset (mem_cons_of_mem f hg))
    · rw [frame_of_cons, if_neg hself, hnone]
    intro other hne
    rw [frame_of_cons, frame_of_cons, hothers other hne]

theorem shift_frames_spec {ssid : Nat} {prev : Stage}
    (hprev : StageSorted prev) (hnone : frame_of ssid prev = none) (hsorted : ∀ stage ∈ stages, StageSorted stage)
    (hcolumn : column ssid stages = frames.map some) :
    ∃ stages', shift_frames ssid prev stages = some stages' ∧ stages'.flatten.Perm (prev ++ stages.flatten) ∧
      Spread ssid (prev :: stages) stages' frames 1 := by
  induction stages generalizing prev frames with
  | nil =>
    obtain rfl : frames = [] := by simpa [column] using hcolumn.symm
    refine ⟨[prev], rfl, by simp, ?_, rfl, ?_, fun _ _ => rfl⟩
    · intro stage hstage
      obtain rfl := mem_singleton.mp hstage
      exact hprev
    · simp [column, hnone]
  | cons stage stages ih =>
    cases frames with
    | nil => simp [column] at hcolumn
    | cons f frames =>
      simp only [column, map_cons, List.cons.injEq] at hcolumn
      obtain ⟨hf, hrest⟩ := hcolumn
      obtain ⟨stage', hdrop, hperm, hstage', hgone, hothers⟩ :=
        drop_frame_from_stage_spec (hsorted stage mem_cons_self) hf
      have hssid := ssid_of_frame_of hf
      obtain ⟨prev', hinsert, hpermprev, hholds⟩ := insert_absent f hprev (by rw [hssid]; exact hnone)
      obtain ⟨stages', hshift, hpermrest, hspread⟩ :=
        ih hstage' hgone (fun s hs => hsorted s (mem_cons_of_mem stage hs)) hrest
      refine ⟨prev' :: stages', ?_, ?_, ?_⟩
      · simp [shift_frames, hdrop, hinsert, hshift]
      · calc List.Perm (prev' ++ stages'.flatten) ((f :: prev) ++ (stage' ++ stages.flatten)) :=
              hpermprev.append hpermrest
            List.Perm _ (prev ++ (f :: (stage' ++ stages.flatten))) := perm_middle.symm
            List.Perm _ (prev ++ (stage ++ stages.flatten)) :=
              (hperm.append_right stages.flatten).append_left prev
      have hbelow : Spread ssid (stage :: stages) stages' frames 1 := by
        refine ⟨hspread.sorted, hspread.length, hspread.own, fun other hne => ?_⟩
        have hcol := hspread.others other hne
        simp only [column, map_cons, hothers other hne] at hcol ⊢
        exact hcol
      refine hbelow.cons hholds.sorted (hssid ▸ hholds.own) (fun other hne => ?_)
      exact hholds.others other (by omega)

theorem drop_oldest_frame_spec {frame : Frame} {first : Frame}
    (hsorted : ∀ stage ∈ stages, StageSorted stage) (hcolumn : column frame.ssid stages = (first :: frames).map some) :
    ∃ stages', drop_oldest_frame frame stages = some (first, stages') ∧
      (first :: stages'.flatten).Perm stages.flatten ∧ Spread frame.ssid stages stages' frames 1 := by
  cases stages with
  | nil => simp [column] at hcolumn
  | cons stage stages =>
    simp only [column, map_cons, List.cons.injEq] at hcolumn
    obtain ⟨hfirst, hrest⟩ := hcolumn
    obtain ⟨stage', hdrop, hperm, hstage', hgone, hothers⟩ :=
      drop_frame_from_stage_spec (hsorted stage mem_cons_self) hfirst
    obtain ⟨stages', hshift, hpermrest, hspread⟩ :=
      shift_frames_spec hstage' hgone (fun s hs => hsorted s (mem_cons_of_mem stage hs)) hrest
    refine ⟨stages', ?_, ?_, hspread.sorted, hspread.length, hspread.own, fun other hne => ?_⟩
    · simp [drop_oldest_frame, hdrop, hshift]
    · exact (hpermrest.cons first).trans (hperm.append_right stages.flatten)
    have hcol := hspread.others other hne
    simp only [column, map_cons, hothers other hne] at hcol ⊢
    exact hcol

theorem in_order_above {frame : Frame}
    (h : ∀ g ∈ frames, g.sequence_number < frame.sequence_number) : in_order frame frames = frames ++ [frame] := by
  induction frames with
  | nil => rfl
  | cons g frames ih =>
    have hg := h g mem_cons_self
    have hrest := ih (fun h' hh' => h h' (mem_cons_of_mem g hh'))
    rw [in_order_cons_of_lt frames hg, hrest, List.cons_append]

theorem increasing_in_order {frame : Frame} (h : Increasing frames)
    (hnew : ∀ g ∈ frames, g.sequence_number ≠ frame.sequence_number) : Increasing (in_order frame frames) := by
  induction frames with
  | nil => exact pairwise_singleton _ _
  | cons g frames ih =>
    obtain ⟨habove, hframes⟩ := pairwise_cons.mp h
    have hne := hnew g mem_cons_self
    by_cases hle : frame.sequence_number ≤ g.sequence_number
    · rw [in_order_cons_of_le frames hle]
      refine pairwise_cons.mpr ⟨fun h' hh' => ?_, h⟩
      obtain rfl | hh' := mem_cons.mp hh'
      · omega
      have := habove h' hh'
      omega
    rw [in_order_cons_of_lt frames (Nat.lt_of_not_le hle)]
    refine pairwise_cons.mpr ⟨fun h' hh' => ?_, ih hframes (fun h' hh' => hnew h' (mem_cons_of_mem g hh'))⟩
    obtain rfl | hh' := mem_orderedInsert _ |>.mp hh'
    · omega
    · exact habove h' hh'

theorem held_congr {ssid : Nat} (h : column ssid stages' = column ssid stages) :
    held ssid stages' = held ssid stages := by
  have heq : ∀ s, held ssid s = (column ssid s).filterMap id := by
    intro s
    simp [held, column, filterMap_map]
  rw [heq, heq, h]

theorem ssid_of_mem_held {ssid : Nat} (h : f ∈ held ssid stages) : f.ssid = ssid := by
  obtain ⟨stage, _, hf⟩ := mem_filterMap.mp h
  exact ssid_of_frame_of hf

theorem Staged.spread {max_stages ssid : Nat}
    (h : Staged max_stages stages) (hspread : Spread ssid stages stages' frames gaps) (hframes : Increasing frames) :
    Staged max_stages stages' := by
  have hown := held_of_column hspread.own
  refine ⟨hspread.sorted, fun other => ?_, fun other => ?_, hspread.length ▸ h.bounded⟩
  · by_cases hother : other = ssid
    · subst hother
      exact ⟨gaps, hown ▸ hspread.own⟩
    obtain ⟨m, hm⟩ := h.filled other
    exact ⟨m, by rw [hspread.others other hother, held_congr (hspread.others other hother), hm]⟩
  by_cases hother : other = ssid
  · subst hother
    exact hown ▸ hframes
  rw [held_congr (hspread.others other hother)]
  exact h.increasing other

/-- What a call of `ov_rtp_frame_buffer_add` does. -/
structure Added (max_stages : Nat) (frame : Frame) (stages : List Stage) (returned : Option Frame)
    (stages' : List Stage) : Prop where
  staged : Staged max_stages stages'
  -- no frame is lost or duplicated
  frames : (returned.toList ++ stages'.flatten).Perm (frame :: stages.flatten)
  others : ∀ ssid, ssid ≠ frame.ssid → held ssid stages' = held ssid stages
  known : (∃ g ∈ held frame.ssid stages, g.sequence_number = frame.sequence_number) →
    returned = some frame ∧ stages' = stages
  -- of the old frames and the new one, those with the largest numbers are left
  new : (∀ g ∈ held frame.ssid stages, g.sequence_number ≠ frame.sequence_number) →
    (returned.toList ++ held frame.ssid stages').Perm (frame :: held frame.ssid stages) ∧
      (held frame.ssid stages').length = min max_stages ((held frame.ssid stages).length + 1) ∧
      ∀ d ∈ returned, ∀ g ∈ held frame.ssid stages', d.sequence_number < g.sequence_number

/-- The stages behind `insert_into_stages`' first look at them. -/
def opened (stages : List Stage) : List Stage := if stages.length = 0 then [[]] else stages

theorem held_opened (ssid : Nat) (stages : List Stage) : held ssid (opened stages) = held ssid stages := by
  unfold opened
  split
  · rename_i hempty
    rw [length_eq_zero_iff.mp hempty]
    rfl
  · rfl

theorem flatten_opened (stages : List Stage) : (opened stages).flatten = stages.flatten := by
  unfold opened
  split
  · rename_i hempty
    rw [length_eq_zero_iff.mp hempty]
    rfl
  · rfl

variable {max_stages : Nat}

theorem Staged.opened (h : Staged max_stages stages)
    (hmax : 1 ≤ max_stages) : Staged max_stages (opened stages) ∧ 1 ≤ (opened stages).length := by
  unfold rtp.opened
  split
  · refine ⟨⟨?_, fun ssid => ⟨1, rfl⟩, fun ssid => List.Pairwise.nil, hmax⟩, le_refl 1⟩
    intro stage hstage
    rw [mem_singleton.mp hstage]
    exact List.Pairwise.nil
  · exact ⟨h, by omega⟩

theorem insert_into_stages_eq (hmax : 1 ≤ max_stages) (frame : Frame) (stages : List Stage) :
    insert_into_stages max_stages frame stages = insert_from_stage frame (opened stages) := by
  unfold insert_into_stages opened
  split
  · rw [if_neg (by omega)]
  · rfl

theorem Spread.snoc {ssid : Nat} {lower : List Frame} {last : Frame}
    (h : Spread ssid stages stages' lower 0) (hlast : last.ssid = ssid) :
    (∀ stage ∈ stages' ++ [[last]], StageSorted stage) ∧
      column ssid (stages' ++ [[last]]) = (lower ++ [last]).map some ∧
      ∀ other, other ≠ ssid → column other (stages' ++ [[last]]) = column other stages ++ [none] := by
  refine ⟨fun stage hstage => ?_, ?_, fun other hne => ?_⟩
  · obtain hold | hnew := mem_append.mp hstage
    · exact h.sorted stage hold
    rw [mem_singleton.mp hnew]
    exact pairwise_singleton _ _
  · have hcolumn := h.own
    simp only [column] at hcolumn
    simp [column, hcolumn, frame_of_cons, hlast]
  have hcolumn := h.others other hne
  simp only [column] at hcolumn
  simp [column, hcolumn, frame_of_cons, show last.ssid ≠ other by omega]
  rfl

theorem Staged.snoc {max_stages ssid : Nat} {lower : List Frame} {last : Frame}
    (h : Staged max_stages stages) (hspread : Spread ssid stages stages' lower 0) (hlast : last.ssid = ssid)
    (hroom : stages'.length < max_stages) (hframes : Increasing (lower ++ [last])) :
    Staged max_stages (stages' ++ [[last]]) ∧ held ssid (stages' ++ [[last]]) = lower ++ [last] ∧
      ∀ other, other ≠ ssid → held other (stages' ++ [[last]]) = held other stages := by
  obtain ⟨hsorted, hcolumn, hothers⟩ := hspread.snoc hlast
  have hown : held ssid (stages' ++ [[last]]) = lower ++ [last] := by
    have hfilled : column ssid (stages' ++ [[last]]) = (lower ++ [last]).map some ++ List.replicate 0 none := by
      simpa using hcolumn
    exact held_of_column hfilled
  have hrest : ∀ other, other ≠ ssid → ∃ m, column other (stages' ++ [[last]]) =
      (held other stages).map some ++ List.replicate m none := by
    intro other hne
    obtain ⟨m, hm⟩ := h.filled other
    exact ⟨m + 1, by rw [hothers other hne, hm, append_assoc, replicate_succ']⟩
  have hheld : ∀ other, other ≠ ssid → held other (stages' ++ [[last]]) = held other stages := by
    intro other hne
    obtain ⟨m, hm⟩ := hrest other hne
    exact held_of_column hm
  refine ⟨⟨hsorted, fun other => ?_, fun other => ?_, ?_⟩, hown, hheld⟩
  · by_cases hother : other = ssid
    · subst hother
      exact ⟨0, by simpa [hown] using hcolumn⟩
    obtain ⟨m, hm⟩ := hrest other hother
    exact ⟨m, hheld other hother ▸ hm⟩
  · by_cases hother : other = ssid
    · subst hother
      exact hown ▸ hframes
    rw [hheld other hother]
    exact h.increasing other
  rw [length_append]
  exact hroom

theorem add_full (hmax : 1 ≤ max_stages) {first last : Frame} (h : Staged max_stages stages)
    (hcolumn : column last.ssid stages = (first :: frames).map some)
    (hframes : Increasing (first :: frames ++ [last])) :
    ∃ dropped stages', drop_oldest_frame last stages = some (first, dropped) ∧
      (insert_into_stages max_stages last dropped).2 = stages' ∧ Staged max_stages stages' ∧
      (first :: stages'.flatten).Perm (last :: stages.flatten) ∧ held last.ssid stages' = frames ++ [last] ∧
      ∀ other, other ≠ last.ssid → held other stages' = held other stages := by
  have hrest : Increasing (frames ++ [last]) := (pairwise_cons.mp hframes).2
  have hbelow : ∀ g ∈ frames, g.sequence_number < last.sequence_number := by
    intro g hg
    exact (pairwise_append.mp hrest).2.2 g hg last (mem_singleton.mpr rfl)
  have hinc : Increasing frames := (pairwise_append.mp hrest).1
  obtain ⟨dropped, hdrop, hperm, hspread⟩ := drop_oldest_frame_spec h.sorted hcolumn
  have hlength : dropped.length ≠ 0 := by
    have hcount := congrArg List.length hcolumn
    simp only [column, length_map, length_cons] at hcount
    rw [hspread.length]
    omega
  have hopened : opened dropped = dropped := if_neg hlength
  obtain ⟨⟨g, hg, hseq⟩, _⟩ | ⟨_, _, stages', hins, hperm', hspread'⟩ | ⟨_, hgap, _⟩ :=
    insert_from_stage_spec hspread.sorted hspread.own hinc
  · have := hbelow g hg
    omega
  · rw [in_order_above hbelow] at hspread'
    have hheld : held last.ssid stages' = frames ++ [last] := held_of_column hspread'.own
    refine ⟨dropped, stages', hdrop, ?_, ?_, ?_, hheld, fun other hne => ?_⟩
    · rw [insert_into_stages_eq hmax, hopened, hins]
    · exact (h.spread hspread hinc).spread hspread' hrest
    · calc List.Perm (first :: stages'.flatten) (first :: last :: dropped.flatten) := hperm'.cons first
          List.Perm _ (last :: first :: dropped.flatten) := List.Perm.swap last first _
          List.Perm _ (last :: stages.flatten) := hperm.cons last
    · rw [held_congr (hspread'.others other hne), held_congr (hspread.others other hne)]
  · omega

theorem add_spec (hmax : 1 ≤ max_stages) (frame : Frame) (h : Staged max_stages stages) :
    ∃ returned stages', add max_stages frame stages = some (returned, stages') ∧
      Added max_stages frame stages returned stages' := by
  obtain ⟨hopened, hnonempty⟩ := h.opened hmax
  obtain ⟨gaps, hcolumn⟩ := hopened.filled frame.ssid
  have hincreasing := hopened.increasing frame.ssid
  have hflatten := flatten_opened stages
  have hheld := fun ssid => held_opened ssid stages
  have hsame : held frame.ssid stages ≠ [] → opened stages = stages := by
    intro hne
    refine if_neg (fun hempty => hne ?_)
    rw [length_eq_zero_iff.mp hempty]
    rfl
  unfold add
  rw [insert_into_stages_eq hmax]
  generalize opened stages = stages₀ at *
  rw [hheld] at hcolumn hincreasing
  have hcount : (held frame.ssid stages).length + gaps = stages₀.length := by
    have hlength := congrArg List.length hcolumn
    simpa [column] using hlength.symm
  have hroom := hopened.bounded
  have hordered := perm_orderedInsert ByNumber frame (held frame.ssid stages)
  obtain ⟨hknown, hins⟩ | ⟨hnew, hgap, stages', hins, hperm, hspread⟩ |
    ⟨hnew, hgap, stages', lower, last, hlast, hins, hperm, hspread⟩ :=
      insert_from_stage_spec hopened.sorted hcolumn hincreasing
  · obtain ⟨g, hg, hseq⟩ := hknown
    obtain rfl := hsame (ne_nil_of_mem hg)
    rw [hins]
    refine ⟨some frame, stages₀, rfl, h, .refl _, fun _ _ => rfl, fun _ => ⟨rfl, rfl⟩, fun hall => ?_⟩
    exact absurd hseq (hall g hg)
  · have hown : held frame.ssid stages' = in_order frame (held frame.ssid stages) := held_of_column hspread.own
    rw [hins]
    refine ⟨none, stages', rfl, ?_, ?_, fun other hne => ?_, fun ⟨g, hg, hseq⟩ => ?_, fun _ => ⟨?_, ?_, by simp⟩⟩
    · exact hopened.spread hspread (increasing_in_order hincreasing hnew)
    · rw [← hflatten]
      exact hperm
    · rw [held_congr (hspread.others other hne), hheld]
    · exact absurd hseq (hnew g hg)
    · rw [hown]
      exact hordered
    rw [hown, hordered.length_eq, length_cons]
    omega
  have hinorder : Increasing (lower ++ [last]) := hlast ▸ increasing_in_order hincreasing hnew
  have hssid : last.ssid = frame.ssid := by
    have hmem : last ∈ in_order frame (held frame.ssid stages) := by simp [hlast]
    obtain rfl | hmem := (mem_orderedInsert _).mp hmem
    · rfl
    · exact ssid_of_mem_held hmem
  have hlower : lower.length = (held frame.ssid stages).length := by
    have hlength := hordered.length_eq
    rw [show List.orderedInsert ByNumber frame (held frame.ssid stages) = lower ++ [last] from hlast] at hlength
    simpa using hlength
  rw [hins]
  dsimp only
  split
  · rename_i hfree
    obtain ⟨hstaged, hown, hothers⟩ := hopened.snoc hspread hssid hfree hinorder
    refine ⟨none, stages' ++ [[last]], rfl, hstaged, ?_, fun other hne => ?_, fun ⟨g, hg, hseq⟩ => ?_,
      fun _ => ⟨?_, ?_, by simp⟩⟩
    · rw [← hflatten, flatten_append]
      exact (perm_append_singleton last stages'.flatten).trans hperm
    · rw [hothers other hne, hheld]
    · exact absurd hseq (hnew g hg)
    · rw [hown, ← hlast]
      exact hordered
    have hlength := hspread.length
    rw [hown, length_append, hlower, length_singleton]
    omega
  rename_i hfull
  have hlength := hspread.length
  obtain ⟨first, frames, rfl⟩ : ∃ first frames, lower = first :: frames := by
    apply exists_cons_of_length_pos
    omega
  have hlowinc : Increasing (first :: frames) := (pairwise_append.mp hinorder).1
  have hfilled : column last.ssid stages' = (first :: frames).map some := by
    rw [hssid]
    simpa using hspread.own
  obtain ⟨dropped, stages'', hdrop, hinsert, hstaged, hperm', hown, hothers⟩ :=
    add_full hmax (hopened.spread hspread hlowinc) hfilled hinorder
  rw [hdrop]
  rw [hssid] at hown hothers
  refine ⟨some first, stages'', ?_, hstaged, ?_, fun other hne => ?_, fun ⟨g, hg, hseq⟩ => ?_, fun _ => ⟨?_, ?_, ?_⟩⟩
  · dsimp only
    rw [hinsert]
  · rw [← hflatten]
    exact hperm'.trans hperm
  · rw [hothers other hne, held_congr (hspread.others other hne), hheld]
  · exact absurd hseq (hnew g hg)
  · rw [hown]
    rw [show List.orderedInsert ByNumber frame (held frame.ssid stages) = first :: frames ++ [last] from hlast]
      at hordered
    exact hordered
  · rw [hown, length_append, length_singleton]
    simp only [length_cons] at hlower
    omega
  intro d hd g hg
  obtain rfl := mem_some.mp hd
  rw [hown] at hg
  exact (pairwise_cons.mp hinorder).1 g hg

theorem Staged.get_current_frames (h : Staged max_stages stages) :
    Staged max_stages (get_current_frames stages).2 := by
  cases stages with
  | nil => exact h
  | cons stage stages =>
    have hfilled : ∀ ssid, ∃ gaps, column ssid stages = (held ssid stages).map some ++ List.replicate gaps none ∧
        Increasing (held ssid stages) := by
      intro ssid
      obtain ⟨gaps, hcolumn⟩ := h.filled ssid
      have hincreasing := h.increasing ssid
      cases hheld : held ssid (stage :: stages) with
      | nil =>
        cases gaps with
        | zero => simp [column, hheld] at hcolumn
        | succ gaps =>
          simp only [column, hheld, map_cons, map_nil, nil_append, replicate_succ, List.cons.injEq] at hcolumn
          have hrest : column ssid stages = ([] : List Frame).map some ++ List.replicate gaps none :=
            hcolumn.2
          rw [held_of_column hrest]
          exact ⟨gaps, hrest, List.Pairwise.nil⟩
      | cons f frames =>
        simp only [column, hheld, map_cons, List.cons_append, List.cons.injEq] at hcolumn
        rw [hheld] at hincreasing
        rw [held_of_column hcolumn.2]
        exact ⟨gaps, hcolumn.2, (pairwise_cons.mp hincreasing).2⟩
    refine ⟨fun s hs => h.sorted s (mem_cons_of_mem stage hs), fun ssid => ?_, fun ssid => ?_, ?_⟩
    · obtain ⟨gaps, hcolumn, _⟩ := hfilled ssid
      exact ⟨gaps, hcolumn⟩
    · obtain ⟨_, _, hincreasing⟩ := hfilled ssid
      exact hincreasing
    have hbounded := h.bounded
    simp only [length_cons] at hbounded
    show stages.length ≤ max_stages
    omega

theorem buffer_step_staged (hmax : 1 ≤ max_stages) (h : Staged max_stages stages) (call : BufferCall) :
    ∃ stages', buffer_step max_stages call stages = some stages' ∧ Staged max_stages stages' := by
  cases call with
  | add frame =>
    obtain ⟨returned, stages', hadd, hadded⟩ := add_spec hmax frame h
    exact ⟨stages', by simp [buffer_step, hadd], hadded.staged⟩
  | get_current_frames => exact ⟨_, rfl, h.get_current_frames⟩

/-- Every sequence of calls is answered, in every state it leads to the stages are
    as they are meant to be, and every further frame is added as it should be. -/
theorem run_frame_buffer (max_stages : Nat) (hmax : 1 ≤ max_stages) (calls : List BufferCall) :
    ∃ stages, machine.run (buffer_step max_stages) calls [] = some stages ∧ Staged max_stages stages ∧
      ∀ frame, ∃ returned stages', add max_stages frame stages = some (returned, stages') ∧
        Added max_stages frame stages returned stages' := by
  have hrun : ∀ calls stages, Staged max_stages stages →
      ∃ stages', machine.run (buffer_step max_stages) calls stages = some stages' ∧ Staged max_stages stages' := by
    intro calls
    induction calls with
    | nil => exact fun stages h => ⟨stages, rfl, h⟩
    | cons call calls ih =>
      intro stages h
      obtain ⟨next, hnext, hstaged⟩ := buffer_step_staged hmax h call
      obtain ⟨stages', hrest, hstaged'⟩ := ih next hstaged
      exact ⟨stages', by simp [machine.run, hnext, hrest], hstaged'⟩
  have hinit : Staged max_stages [] :=
    ⟨by simp, fun _ => ⟨0, rfl⟩, fun _ => List.Pairwise.nil, Nat.zero_le _⟩
  obtain ⟨stages, hstages, hstaged⟩ := hrun calls [] hinit
  exact ⟨stages, hstages, hstaged, fun frame => add_spec hmax frame hstaged⟩

def small_frame (ssrc : BitVec 32) (sequence_number : BitVec 16) : Frame where
  expanded :=
    { version := 2, padding_bit := false, extension_bit := false, marker_bit := false, payload_type := 0
      sequence_number, timestamp := 0, ssrc, csrc_ids := [], payload := {}, padding := {}, extension := {} }
  bytes := []

/-- Three frames of one stream and one of another in a buffer for two. -/
theorem run_frame_buffer_two :
    1 ≤ 2 ∧ ∃ stages, machine.run (buffer_step 2) [.add (small_frame 1 5), .add (small_frame 1 7),
      .add (small_frame 2 3), .add (small_frame 1 6)] [] = some stages ∧ Staged 2 stages := by
  obtain ⟨stages, hrun, hstaged, _⟩ := run_frame_buffer 2 (by decide) [.add (small_frame 1 5),
    .add (small_frame 1 7), .add (small_frame 2 3), .add (small_frame 1 6)]
  exact ⟨by decide, stages, hrun, hstaged⟩

end openvocs.rtp
