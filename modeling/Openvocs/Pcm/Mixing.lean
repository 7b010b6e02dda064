import Mathlib.Data.List.GetD
import Openvocs.Lib.Saturating
import Openvocs.Pcm.Samples

open List Option

namespace openvocs.pcm

open saturating FrameData

/-- The most frames that are mixed. -/
def max_frames : Nat := 50000

/-- The largest magnitude of a sample at the largest volume. -/
def max_magnitude : Nat := 41615

theorem clip_eq (lo hi val : Int) (h : lo ≤ hi) :
    clip lo hi val = if hi < val then hi else if lo > val then lo else val := by
  rw [clip]
  split
  · omega
  · split <;> omega

theorem clip_to_16_bit_toInt (val : BitVec 32) :
    (clip_to_16_bit val).toInt = clip int16_min int16_max val.toInt := by
  rw [clip_eq _ _ _ (by decide), clip_to_16_bit]
  by_cases hhi : int16_max < val.toInt
  · rw [if_pos hhi, if_pos hhi]
    decide
  rw [if_neg hhi, if_neg hhi]
  by_cases hlo : int16_min > val.toInt
  · rw [if_pos hlo, if_pos hlo]
    decide
  rw [if_neg hlo, if_neg hlo]
  rw [int16_max] at hhi
  rw [int16_min] at hlo
  exact BitVec.toInt_ofInt_eq_self (by decide) (by omega) (by omega)

theorem clip_to_32_bit_toInt (val : BitVec 64) :
    (clip_to_32_bit val).toInt = clip int32_min int32_max val.toInt := by
  rw [clip_eq _ _ _ (by decide), clip_to_32_bit]
  by_cases hhi : int32_max < val.toInt
  · rw [if_pos hhi, if_pos hhi]
    decide
  rw [if_neg hhi, if_neg hhi]
  by_cases hlo : int32_min > val.toInt
  · rw [if_pos hlo, if_pos hlo]
    decide
  rw [if_neg hlo, if_neg hlo]
  rw [int32_max] at hhi
  rw [int32_min] at hlo
  exact BitVec.toInt_ofInt_eq_self (by decide) (by omega) (by omega)

theorem add_32_toInt (a b : BitVec 32) : (add_32 a b).toInt = clip int32_min int32_max (a.toInt + b.toInt) := by
  have ha := BitVec.le_toInt a
  have ha' := @BitVec.toInt_lt 32 a
  have hb := BitVec.le_toInt b
  have hb' := @BitVec.toInt_lt 32 b
  rw [add_32, clip_to_32_bit_toInt]
  congr 1
  rw [BitVec.toInt_add, BitVec.toInt_signExtend_of_le (by decide), BitVec.toInt_signExtend_of_le (by decide)]
  apply Int.bmod_eq_of_le <;> omega

/-- The value of a sample of a frame. -/
def FrameData.sample (i : Nat) (frame : FrameData) : Int := (frame.pcm16s_32bit.getD i 0).toInt

variable {n : Nat}

theorem length_add {in1 in2 : List (BitVec 32)} : (ov_pcm_32_add n in1 in2).length = in1.length := by
  induction n generalizing in1 in2 with
  | zero => rfl
  | succ n ih =>
    cases in1 with
    | nil => rfl
    | cons a in1 =>
      cases in2 with
      | nil => rfl
      | cons b in2 => exact congrArg Nat.succ ih

theorem add_getD {i : Nat} {in1 in2 : List (BitVec 32)} (h1 : in1.length = n) (h2 : in2.length = n) (hi : i < n) :
    ((ov_pcm_32_add n in1 in2).getD i 0).toInt =
      clip int32_min int32_max ((in1.getD i 0).toInt + (in2.getD i 0).toInt) := by
  induction n generalizing i in1 in2 with
  | zero => cases hi
  | succ n ih =>
    obtain ⟨a, in1, rfl⟩ := exists_cons_of_length_eq_add_one h1
    obtain ⟨b, in2, rfl⟩ := exists_cons_of_length_eq_add_one h2
    cases i with
    | zero => exact add_32_toInt a b
    | succ i => exact ih (Nat.succ.inj h1) (Nat.succ.inj h2) (Nat.lt_of_succ_lt_succ hi)

/-- The frames that are added: those with as many samples as there are in the result. -/
def used (n : Nat) (frames : List (Option FrameData)) : List FrameData :=
  frames.reduceOption.filter (·.pcm16s_32bit.length = n)

theorem mix_loop_eq {frames : List (Option FrameData)} (result : List (BitVec 32)) :
    frames.foldl (mix_frame (4 * n) n) result =
      (used n frames).foldl (fun result frame => ov_pcm_32_add n result frame.pcm16s_32bit) result := by
  induction frames generalizing result with
  | nil => rfl
  | cons slot frames ih =>
    rw [foldl_cons, ih]
    cases slot with
    | none => rfl
    | some frame =>
      have hlength : 4 * n ≠ frame.length ↔ ¬ frame.pcm16s_32bit.length = n := by
        rw [FrameData.length]
        omega
      rw [used, used, reduceOption_cons_of_some, mix_frame]
      by_cases hused : frame.pcm16s_32bit.length = n
      · rw [if_neg (by rwa [hlength, not_not]), filter_cons_of_pos (by simpa using hused), foldl_cons]
      · rw [if_pos (hlength.mpr hused), filter_cons_of_neg (by simpa using hused)]

variable {frames : List FrameData}

theorem loop_getD {i : Nat} (h : ∀ frame ∈ frames, frame.pcm16s_32bit.length = n)
    (hi : i < n) (result : List (BitVec 32)) (hresult : result.length = n) :
    ((frames.foldl (fun result frame => ov_pcm_32_add n result frame.pcm16s_32bit) result).getD i 0).toInt =
      saturating.sum int32_min int32_max (result.getD i 0).toInt (frames.map (sample i)) := by
  induction frames generalizing result with
  | nil => rfl
  | cons frame frames ih =>
    rw [forall_mem_cons] at h
    rw [foldl_cons, ih h.2 _ (length_add.trans hresult), map_cons, saturating.sum_cons, add_getD hresult h.1 hi]
    rfl

theorem length_loop (frames : List FrameData) (result : List (BitVec 32)) :
    (frames.foldl (fun result frame => ov_pcm_32_add n result frame.pcm16s_32bit) result).length = result.length := by
  induction frames generalizing result with
  | nil => rfl
  | cons frame frames ih => rw [foldl_cons, ih, length_add]

/-- What is heard of frames with so many samples: at every position the sum of their samples,
    cut to 16 bits. -/
def exact_mix (n : Nat) (frames : List FrameData) : List (BitVec 16) :=
  (List.range n).map fun i =>
    BitVec.ofInt 16 (clip int16_min int16_max (frames.map (sample i)).sum)

theorem exact_mix_perm {frames' : List FrameData} (h : frames.Perm frames') :
    exact_mix n frames = exact_mix n frames' := by
  apply map_congr_left
  intro i _
  rw [(h.map (sample i)).sum_eq]

/-- The samples of a frame are in the range that 16 bits have at the largest volume. -/
def FrameData.Moderate (frame : FrameData) : Prop :=
  ∀ sample ∈ frame.pcm16s_32bit, sample.toInt.natAbs ≤ max_magnitude

theorem abs_sample_le {frame : FrameData} (h : frame.Moderate) (i : Nat) :
    |frame.sample i| ≤ (max_magnitude : Int) := by
  rw [sample, Int.abs_eq_natAbs]
  rw [getD_eq_getElem?_getD]
  cases hi : frame.pcm16s_32bit[i]? with
  | none => simp
  | some sample => exact Int.ofNat_le.mpr (h sample (mem_of_getElem? hi))

theorem toInt_ofInt_clip (x : Int) :
    (BitVec.ofInt 16 (clip int16_min int16_max x)).toInt = clip int16_min int16_max x := by
  have hlo : int16_min ≤ clip int16_min int16_max x := le_max_left ..
  have hhi : clip int16_min int16_max x ≤ int16_max := max_le (by decide) (min_le_left ..)
  have hmin : int16_min = -2 ^ 15 := rfl
  have hmax : int16_max = 2 ^ 15 - 1 := rfl
  exact BitVec.toInt_ofInt_eq_self (by decide) (by omega) (by omega)

theorem clip_loop_eq (h : ∀ frame ∈ frames, frame.pcm16s_32bit.length = n)
    (hcount : frames.length ≤ max_frames) (hmoderate : ∀ frame ∈ frames, frame.Moderate) :
    ov_pcm_32_clip_to_16 (frames.foldl (fun result frame => ov_pcm_32_add n result frame.pcm16s_32bit)
      (List.replicate n 0)) = exact_mix n frames := by
  have hlength : (List.replicate n (0 : BitVec 32)).length = n := length_replicate
  apply ext_getElem
  · rw [ov_pcm_32_clip_to_16, length_map, length_loop, hlength, exact_mix, length_map, length_range]
  intro i hi hi'
  have hin : i < n := by simpa [exact_mix] using hi'
  have hloop := loop_getD h hin _ hlength
  have hsum : saturating.sum int32_min int32_max 0 (frames.map (sample i)) =
      0 + (frames.map (sample i)).sum := by
    refine @sum_eq _ _ _ _ int32_max (max_magnitude : Int) 0 _ ?_ int32_min (by decide) ?_
    · intro x hx
      obtain ⟨frame, hframe, rfl⟩ := List.mem_map.mp hx
      exact abs_sample_le (hmoderate frame hframe) i
    rw [max_frames] at hcount
    rw [length_map, max_magnitude, int32_max, abs_zero, nsmul_eq_mul]
    omega
  have hzero : ((List.replicate n (0 : BitVec 32)).getD i 0).toInt = 0 := by
    rw [getD_eq_getElem _ _ (by rwa [hlength]), getElem_replicate]
    rfl
  rw [hzero, hsum, zero_add, getD_eq_getElem _ _ (by rwa [length_loop, hlength])] at hloop
  apply BitVec.eq_of_toInt_eq
  simp only [ov_pcm_32_clip_to_16, exact_mix, getElem_map, getElem_range]
  rw [clip_to_16_bit_toInt, hloop, toInt_ofInt_clip]

/-- The number of samples in the first frame that is not empty. -/
def first_length (frames : List (Option FrameData)) : Nat :=
  ((frames.reduceOption.find? (·.pcm16s_32bit ≠ [])).map (·.num_samples)).getD 0

theorem frame_length_eq (frames : List (Option FrameData)) :
    frame_length_from_frame_list frames = (4 * first_length frames, first_length frames) := by
  induction frames with
  | nil => rfl
  | cons slot frames ih =>
    cases slot with
    | none => exact ih
    | some frame =>
      have hlength : frame.length ≠ 0 ↔ frame.pcm16s_32bit ≠ [] := by
        rw [FrameData.length, ← length_pos_iff]
        omega
      rw [frame_length_from_frame_list, first_length, reduceOption_cons_of_some]
      by_cases hempty : frame.pcm16s_32bit = []
      · rw [if_neg (by simpa [hlength] using hempty), ih, find?_cons_of_neg (by simp [hempty])]
        rfl
      rw [if_pos (hlength.mpr hempty), find?_cons_of_pos (by simp [hempty]), map_some, getD_some, frame.size]
      rfl

theorem mixed_eq (frames : List (Option FrameData)) : mixed frames =
      if first_length frames = 0 then none
      else some (ov_pcm_32_clip_to_16 ((used (first_length frames) frames).foldl
        (fun result frame => ov_pcm_32_add (first_length frames) result frame.pcm16s_32bit)
        (List.replicate (first_length frames) 0))) := by
  rw [mixed, frame_length_eq, mix_nocheck]
  by_cases hzero : first_length frames = 0
  · simp [hzero]
  dsimp only
  rw [if_neg (by omega), if_neg hzero, map_some, mix_loop_eq, Nat.mul_div_cancel_left _ (by decide)]

theorem mixed_of_first_length {slots : List (Option FrameData)} (hn : n ≠ 0)
    (hfirst : first_length slots = n) (hused : (used n slots).Perm frames) (hcount : frames.length ≤ max_frames)
    (hmoderate : ∀ frame ∈ frames, frame.Moderate) : mixed slots = some (exact_mix n frames) := by
  rw [mixed_eq, hfirst, if_neg hn, ← exact_mix_perm hused, clip_loop_eq]
  · intro frame hframe
    simpa using (mem_filter.mp hframe).2
  · exact hused.length_eq ▸ hcount
  · exact fun frame hframe => hmoderate frame (hused.mem_iff.mp hframe)

theorem first_length_of_forall {slots : List (Option FrameData)}
    (h : ∀ frame ∈ slots.reduceOption, frame.pcm16s_32bit.length = n) :
    first_length slots = if slots.reduceOption = [] then 0 else n := by
  rw [first_length]
  cases hframes : slots.reduceOption with
  | nil => rfl
  | cons frame frames =>
    rw [hframes] at h
    rw [if_neg (cons_ne_nil frame frames)]
    by_cases hzero : n = 0
    · rw [find?_eq_none.mpr, hzero]
      · rfl
      intro x hx
      simpa [hzero] using h x hx
    have hframe := h frame (mem_cons_self ..)
    have hne : frame.pcm16s_32bit ≠ [] := ne_nil_of_length_pos (by omega)
    rw [find?_cons_of_pos (by simp [hne]), map_some, getD_some, frame.size, hframe]

/-- Frames of one length are mixed to the exact sum of their samples, whatever their order and
    however many slots are empty between them. Frames of another length than the first one
    that is not empty are not heard. There is no result without samples. -/
theorem mixing_exact {n : Nat} {frames : List FrameData} (hlength : ∀ frame ∈ frames, frame.pcm16s_32bit.length = n)
    (hcount : frames.length ≤ max_frames) (hmoderate : ∀ frame ∈ frames, frame.Moderate) :
    (∀ slots : List (Option FrameData), slots.reduceOption.Perm frames →
      mixed slots = if frames = [] ∨ n = 0 then none else some (exact_mix n frames)) ∧
    ∀ slots : List (Option FrameData), first_length slots = n → (used n slots).Perm frames →
      mixed slots = if n = 0 then none else some (exact_mix n frames) := by
  have hmixed (slots : List (Option FrameData)) (hfirst : first_length slots = n) (hused : (used n slots).Perm frames) :
      mixed slots = if n = 0 then none else some (exact_mix n frames) := by
    by_cases hzero : n = 0
    · rw [if_pos hzero, mixed_eq, hfirst, if_pos hzero]
    · rw [if_neg hzero]
      exact mixed_of_first_length hzero hfirst hused hcount hmoderate
  refine ⟨?_, hmixed⟩
  intro slots hperm
  have hslots : ∀ frame ∈ slots.reduceOption, frame.pcm16s_32bit.length = n :=
    fun frame hframe => hlength frame (hperm.mem_iff.mp hframe)
  have hfirst := first_length_of_forall hslots
  by_cases hnil : frames = []
  · subst hnil
    rw [if_pos (.inl rfl), mixed_eq, hfirst, if_pos hperm.eq_nil, if_pos rfl]
  · have hne : slots.reduceOption ≠ [] := fun h => hnil (nil_perm.mp (h ▸ hperm))
    have hused : used n slots = slots.reduceOption :=
      filter_eq_self.mpr fun frame hframe => by simpa using hslots frame hframe
    rw [if_neg hne] at hfirst
    rw [hmixed slots hfirst (hused.symm ▸ hperm)]
    simp [hnil]

/-- A frame of samples. -/
def frame_of (samples : List (BitVec 32)) : FrameData where
  pcm16s_32bit := samples

/-- Two loud frames, an empty slot between them and a short frame behind them. -/
theorem mixing_exact_two :
    mixed [some (frame_of [30000, -30000]), none, some (frame_of [41615, 7]), some (frame_of [1])] =
      some [32767, -29993] := by
  have hmoderate : ∀ frame ∈ [frame_of [30000, -30000], frame_of [41615, 7]], frame.Moderate := by
    simp [frame_of, Moderate, max_magnitude]
  have hmixed := (@mixing_exact 2 [frame_of [30000, -30000], frame_of [41615, 7]] (by decide) (by decide) hmoderate).2
    [some (frame_of [30000, -30000]), none, some (frame_of [41615, 7]), some (frame_of [1])] rfl (List.Perm.refl _)
  exact hmixed.trans (by decide)

end openvocs.pcm
