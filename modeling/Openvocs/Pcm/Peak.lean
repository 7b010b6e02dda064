import Mathlib.Tactic.Linarith
import Openvocs.Pcm.Samples

open List Option

namespace openvocs.pcm

/-- The largest absolute value. -/
def largest (samples : List Int) : Nat := (samples.map Int.natAbs).foldr max 0

@[simp] theorem largest_nil : largest [] = 0 := rfl

@[simp] theorem largest_cons (x : Int) (samples : List Int) :
    largest (x :: samples) = max x.natAbs (largest samples) := rfl

theorem natAbs_le_largest {x : Int} {samples : List Int} (h : x ∈ samples) : x.natAbs ≤ largest samples := by
  induction samples with
  | nil => cases h
  | cons y samples ih =>
    rw [largest_cons]
    obtain rfl | h := mem_cons.mp h
    · exact Nat.le_max_left ..
    · exact (ih h).trans (Nat.le_max_right ..)

theorem largest_le {n : Nat} {samples : List Int} (h : ∀ x ∈ samples, x.natAbs ≤ n) : largest samples ≤ n := by
  induction samples with
  | nil => exact Nat.zero_le n
  | cons x samples ih =>
    rw [forall_mem_cons] at h
    exact Nat.max_le.mpr ⟨h.1, ih h.2⟩

theorem largest_eq_zero_iff (samples : List Int) : largest samples = 0 ↔ ∀ x ∈ samples, x = 0 := by
  constructor
  · intro h x hx
    have hle := natAbs_le_largest hx
    omega
  intro h
  exact Nat.le_zero.mp (largest_le fun x hx => by simp [h x hx])

/-- The values of samples. -/
def values {w : Nat} (samples : List (BitVec w)) : List Int := samples.map BitVec.toInt

@[simp] theorem values_nil {w : Nat} : values ([] : List (BitVec w)) = [] := rfl

@[simp] theorem values_cons {w : Nat} (x : BitVec w) (samples : List (BitVec w)) :
    values (x :: samples) = x.toInt :: values samples := rfl

theorem mem_values {w : Nat} {x : BitVec w} {samples : List (BitVec w)} (h : x ∈ samples) :
    x.toInt ∈ values samples := List.mem_map_of_mem h

section

variable (samples : List (BitVec 16))

theorem toInt_bounds (x : BitVec 16) : -2 ^ 15 ≤ x.toInt ∧ x.toInt < 2 ^ 15 := by
  have hle := BitVec.le_toInt x
  have hlt := @BitVec.toInt_lt 16 x
  exact ⟨by simpa using hle, by simpa using hlt⟩

theorem toInt_eq_min_iff (x : BitVec 16) : x.toInt = int16_min ↔ x = BitVec.intMin 16 := by
  rw [← BitVec.toInt_inj]
  exact Iff.rfl

theorem abs_16_toInt {x : BitVec 16} (h : x ≠ BitVec.intMin 16) : (abs_16 x).toInt = x.toInt.natAbs := by
  obtain ⟨hle, hlt⟩ := toInt_bounds x
  have hne : x.toInt ≠ -2 ^ 15 := mt (toInt_eq_min_iff x).mp h
  rw [abs_16, Int.abs_eq_natAbs, BitVec.toInt_ofInt_eq_self (by decide) (by omega) (by omega)]

theorem abs_16_min : (abs_16 (BitVec.intMin 16)).toInt = int16_min := by decide

theorem audio_loop_max (audio : Audio) (oldval : BitVec 16) (h : 0 ≤ audio.max.toInt) :
    (audio_loop audio oldval samples).max.toInt =
      max audio.max.toInt (largest (values (samples.filter (· ≠ BitVec.intMin 16)))) := by
  induction samples generalizing audio oldval with
  | nil => simp [audio_loop, h]
  | cons x samples ih =>
    rw [audio_loop]
    by_cases hmin : x = BitVec.intMin 16
    · have hstep : (audio_step audio oldval x).max = audio.max := by
        rw [audio_step, hmin, abs_16_min]
        exact if_neg (by rw [int16_min]; omega)
      rw [ih _ _ (hstep ▸ h), hstep, filter_cons_of_neg (by simp [hmin])]
    have hstep : (audio_step audio oldval x).max.toInt = max audio.max.toInt x.toInt.natAbs := by
      rw [audio_step, ← abs_16_toInt hmin]
      dsimp only
      split <;> omega
    rw [ih _ _ (by rw [hstep]; omega), hstep, filter_cons_of_pos (by simp [hmin]), values_cons, largest_cons]
    omega

theorem largest_filter_iff :
    largest (values (samples.filter (· ≠ BitVec.intMin 16))) = largest (values samples) ↔
      BitVec.intMin 16 ∉ samples := by
  constructor
  · intro h hmem
    have hle := natAbs_le_largest (mem_values hmem)
    have hlt : largest (values (samples.filter (· ≠ BitVec.intMin 16))) ≤ 2 ^ 15 - 1 := by
      apply largest_le
      intro n hn
      obtain ⟨x, hx, rfl⟩ := List.mem_map.mp hn
      have hne : x ≠ BitVec.intMin 16 := by simpa using (mem_filter.mp hx).2
      have hneg : x.toInt ≠ -2 ^ 15 := mt (toInt_eq_min_iff x).mp hne
      have hbounds := toInt_bounds x
      omega
    have hmin : (BitVec.intMin 16).toInt.natAbs = 2 ^ 15 := by decide
    omega
  intro h
  rw [filter_eq_self.mpr]
  intro x hx
  simp only [ne_eq, decide_not, Bool.not_eq_eq_eq_not, Bool.not_true, decide_eq_false_iff_not]
  rintro rfl
  exact h hx

end

section

/-- Every negative sample comes behind one that is not smaller in its absolute value and is
    not negative. -/
def Led (samples : List (BitVec 32)) : Prop :=
  ∀ before x behind, samples = before ++ x :: behind → x.toInt < 0 → ∃ y ∈ before, -x.toInt ≤ y.toInt

/-- The same, for a peak that was found so far. -/
def LedFrom : Nat → List (BitVec 32) → Prop
  | _, [] => True
  | max_val, x :: samples => (x.toInt < 0 → x.toInt.natAbs ≤ max_val) ∧ LedFrom (max max_val x.toInt.toNat) samples

theorem ledFrom_iff (max_val : Nat) (samples : List (BitVec 32)) : LedFrom max_val samples ↔
      ∀ before x behind, samples = before ++ x :: behind → x.toInt < 0 →
        x.toInt.natAbs ≤ max_val ∨ ∃ y ∈ before, -x.toInt ≤ y.toInt := by
  induction samples generalizing max_val with
  | nil =>
    refine iff_of_true trivial ?_
    intro before x behind h
    simp at h
  | cons z samples ih =>
    rw [LedFrom, ih]
    constructor
    · rintro ⟨hfirst, hrest⟩ before x behind h hneg
      cases before with
      | nil =>
        obtain ⟨rfl, rfl⟩ := List.cons.inj h
        exact .inl (hfirst hneg)
      | cons y before =>
        obtain ⟨rfl, rfl⟩ := List.cons.inj h
        obtain hle | ⟨y, hy, hle⟩ := hrest before x behind rfl hneg
        · by_cases hold : x.toInt.natAbs ≤ max_val
          · exact .inl hold
          · exact .inr ⟨z, mem_cons_self .., by omega⟩
        · exact .inr ⟨y, mem_cons_of_mem z hy, hle⟩
    intro h
    refine ⟨?_, ?_⟩
    · intro hneg
      obtain hle | ⟨y, hy, -⟩ := h [] z samples rfl hneg
      · exact hle
      · cases hy
    rintro before x behind rfl hneg
    obtain hle | ⟨y, hy, hle⟩ := h (z :: before) x behind rfl hneg
    · exact .inl (hle.trans (Nat.le_max_left ..))
    obtain rfl | hy := mem_cons.mp hy
    · exact .inl (by omega)
    · exact .inr ⟨y, hy, hle⟩

theorem led_iff (samples : List (BitVec 32)) : Led samples ↔ LedFrom 0 samples := by
  rw [ledFrom_iff]
  refine forall_congr' fun before => forall_congr' fun x => forall_congr' fun behind => forall_congr' fun _ => ?_
  refine forall_congr' fun hneg => ?_
  constructor
  · exact .inr
  rintro (hle | h)
  · omega
  · exact h

theorem toNat_of_nonneg {x : BitVec 32} (h : 0 ≤ x.toInt) : x.toNat = x.toInt.natAbs ∧ x.toNat < 2 ^ 31 := by
  rw [BitVec.toInt_eq_toNat_cond] at h ⊢
  have hlt := x.isLt
  split at h
  · rw [if_pos ‹_›]
    omega
  · omega

theorem toNat_of_neg {x : BitVec 32} (h : x.toInt < 0) :
    2 ^ 31 ≤ x.toNat ∧ x.toInt.natAbs = 2 ^ 32 - x.toNat := by
  rw [BitVec.toInt_eq_toNat_cond] at h ⊢
  have hlt := x.isLt
  split at h
  · omega
  rw [if_neg ‹_›]
  omega

theorem abs_32_toNat {x absval : BitVec 32} (h : abs_32 x = some absval) :
    absval.toNat = x.toInt.natAbs ∧ absval.toNat < 2 ^ 31 := by
  rw [abs_32] at h
  by_cases hneg : x.toInt < 0
  · rw [if_pos hneg] at h
    by_cases hmin : x = BitVec.intMin 32
    · simp [hmin] at h
    rw [if_neg hmin, some.injEq] at h
    obtain ⟨hle, habs⟩ := toNat_of_neg hneg
    have hne : x.toNat ≠ 2 ^ 31 := fun h => hmin (BitVec.eq_of_toNat_eq (h.trans (by decide)))
    have hlt := x.isLt
    rw [← h, habs, BitVec.toNat_neg]
    omega
  rw [if_neg hneg, some.injEq] at h
  rw [← h]
  exact toNat_of_nonneg (by omega)

theorem abs_32_eq_none {x : BitVec 32} (h : abs_32 x = none) : x.toInt < 0 ∧ x.toInt.natAbs = 2 ^ 31 := by
  rw [abs_32] at h
  by_cases hneg : x.toInt < 0
  · rw [if_pos hneg] at h
    by_cases hmin : x = BitVec.intMin 32
    · subst hmin
      decide
    · simp [hmin] at h
  · simp [hneg] at h

theorem peak_loop_of_large {max_val r : BitVec 32} {samples : List (BitVec 32)} (hlarge : 2 ^ 31 ≤ max_val.toNat)
    (h : peak_loop max_val samples = some r) :
    r = max_val ∧ largest (values samples) < 2 ^ 31 := by
  induction samples with
  | nil =>
    rw [peak_loop, some.injEq] at h
    exact ⟨h.symm, by decide⟩
  | cons x samples ih =>
    obtain ⟨absval, habs, h⟩ := bind_eq_some_iff.mp h
    obtain ⟨hvalue, hlt⟩ := abs_32_toNat habs
    rw [if_neg (by omega)] at h
    obtain ⟨hr, hrest⟩ := ih h
    refine ⟨hr, ?_⟩
    rw [values_cons, largest_cons, ← hvalue]
    exact Nat.max_lt.mpr ⟨hlt, hrest⟩

theorem peak_loop_iff (max_val : BitVec 32) (samples : List (BitVec 32)) (h : max_val.toNat < 2 ^ 31) :
    (peak_loop max_val samples).map BitVec.toNat = some (max max_val.toNat (largest (values samples))) ↔
      LedFrom max_val.toNat samples := by
  induction samples generalizing max_val with
  | nil => simp [peak_loop, LedFrom]
  | cons x samples ih =>
    rw [peak_loop, LedFrom, values_cons, largest_cons]
    cases habs : abs_32 x with
    | none =>
      obtain ⟨hneg, hvalue⟩ := abs_32_eq_none habs
      exact iff_of_false (by simp) fun hled => by have hle := hled.1 hneg; omega
    | some absval =>
      obtain ⟨hvalue, hlt⟩ := abs_32_toNat habs
      rw [bind_some, ← hvalue]
      by_cases hneg : x.toInt < 0
      · have hzero : x.toInt.toNat = 0 := by omega
        by_cases hnew : max_val.toNat < absval.toNat
        · rw [if_pos hnew]
          refine iff_of_false ?_ fun hled => absurd (hled.1 hneg) (by omega)
          intro hsome
          obtain ⟨r, hr, hvalue⟩ := map_eq_some_iff.mp hsome
          obtain ⟨rfl, hrest⟩ := peak_loop_of_large (toNat_of_neg hneg).1 hr
          have hle := (toNat_of_neg hneg).1
          omega
        rw [if_neg hnew, hzero, Nat.max_eq_left (Nat.zero_le _)]
        have hmax : max max_val.toNat (max absval.toNat (largest (values samples))) =
            max max_val.toNat (largest (values samples)) := by omega
        rw [hmax, ih max_val h]
        exact ⟨fun hled => ⟨fun _ => by omega, hled⟩, And.right⟩
      have hpos : 0 ≤ x.toInt := by omega
      obtain ⟨hnat, hsmall⟩ := toNat_of_nonneg hpos
      have habsval : absval.toNat = x.toNat := by omega
      have hnext : (if max_val.toNat < absval.toNat then x else max_val).toNat = max max_val.toNat x.toInt.toNat := by
        split <;> omega
      have hmax : max max_val.toNat (max absval.toNat (largest (values samples))) =
          max (max max_val.toNat x.toInt.toNat) (largest (values samples)) := by omega
      have hrest := ih (if max_val.toNat < absval.toNat then x else max_val) (by rw [hnext]; omega)
      rw [hnext] at hrest
      rw [hmax, hrest]
      exact ⟨fun hled => ⟨fun hcontra => absurd hcontra hneg, hled⟩, And.right⟩

end

/-- The peaks by which a conversion divides. -/
def Conversion.divisors {V : Type} : Conversion V → List (BitVec 16)
  | .scale (.normalized _ divisor) => [divisor]
  | .fade (.normalized _ divisor) _ => [divisor]
  | .fade (.given _) (.normalized _ divisor) => [divisor]
  | _ => []

theorem divisors_of_conversion {V : Type} {detected was_detected drop_no_va : Bool} {volume : V}
    {max_amplitude : BitVec 16} {c : Conversion V}
    (h : conversion detected was_detected drop_no_va volume max_amplitude = some c) :
    ∀ divisor ∈ c.divisors, divisor = max_amplitude := by
  rw [conversion] at h
  cases detected <;> cases was_detected <;> cases drop_no_va <;> cases h <;> simp [Conversion.divisors]

/-- The peak of samples of 16 bits is their largest absolute value, and no division by zero
    follows from it but for samples that are all zero. -/
structure Exact16 (samples : List (BitVec 16)) : Prop where
  params :
    (ov_pcm_16_get_audio_params samples).map (fun audio => audio.max.toInt) = some (largest (values samples) : Int)
  scale (scaled : BitVec 16 → BitVec 32) :
    (ov_pcm_16_scale_to_32 scaled samples).map (fun out => out.2.max.toInt) = some (largest (values samples) : Int)
  divisor {V : Type} (detected was_detected drop_no_va : Bool) (volume : V) (c : Conversion V)
    (h : conversion detected was_detected drop_no_va volume ((ov_pcm_16_get_audio_params samples).getD {}).max =
      some c) :
    0 ∈ c.divisors → ∀ x ∈ samples, x = 0

/-- The same for the peak of samples of 32 bits. -/
structure Exact32 (samples : List (BitVec 32)) : Prop where
  peak : (peak samples).map BitVec.toNat = some (largest (values samples))
  divisor : pcm.peak samples = some 0 → ∀ x ∈ samples, x = 0

theorem eq_zero_of_largest {w : Nat} {samples : List (BitVec w)} (h : largest (values samples) = 0) :
    ∀ x ∈ samples, x = 0 := by
  intro x hx
  apply BitVec.eq_of_toInt_eq
  rw [(largest_eq_zero_iff _).mp h _ (mem_values hx)]
  exact BitVec.toInt_zero.symm

variable {samples : List (BitVec 16)}

theorem params_max (h : samples ≠ []) :
    (ov_pcm_16_get_audio_params samples).map (fun audio => audio.max.toInt) =
      some (largest (values (samples.filter (· ≠ BitVec.intMin 16))) : Int) := by
  obtain ⟨first, rest, rfl⟩ := exists_cons_of_ne_nil h
  have hmax := audio_loop_max (first :: rest) {} first (by decide)
  rw [ov_pcm_16_get_audio_params, map_some, hmax]
  exact congrArg some (max_eq_right (Int.natCast_nonneg _))

theorem scale_max (scaled : BitVec 16 → BitVec 32) :
    (ov_pcm_16_scale_to_32 scaled samples).map (fun out => out.2.max.toInt) =
      (ov_pcm_16_get_audio_params samples).map fun audio => audio.max.toInt := by
  cases samples <;> rfl

theorem exact16_iff (h : samples ≠ []) :
    Exact16 samples ↔ BitVec.intMin 16 ∉ samples := by
  have hmax := params_max h
  rw [← largest_filter_iff]
  constructor
  · intro hexact
    have heq := hmax.symm.trans hexact.params
    simpa using heq
  intro heq
  rw [heq] at hmax
  refine ⟨hmax, fun scaled => (scale_max scaled).trans hmax, ?_⟩
  intro V detected was_detected drop_no_va volume c hconversion hzero
  obtain ⟨audio, haudio, hvalue⟩ := map_eq_some_iff.mp hmax
  have hdivisor := divisors_of_conversion hconversion 0 hzero
  rw [haudio, getD_some] at hdivisor
  apply eq_zero_of_largest
  rw [← hdivisor] at hvalue
  have hlargest : (0 : Int) = largest (values samples) := hvalue
  exact Int.natCast_eq_zero.mp hlargest.symm

theorem exact32_iff (samples : List (BitVec 32)) : Exact32 samples ↔ Led samples := by
  have hloop : (peak samples).map BitVec.toNat = some (max 0 (largest (values samples))) ↔ LedFrom 0 samples :=
    peak_loop_iff 0 samples (by decide)
  rw [Nat.zero_max, ← led_iff] at hloop
  constructor
  · exact fun hexact => hloop.mp hexact.peak
  intro hled
  have hpeak := hloop.mpr hled
  refine ⟨hpeak, ?_⟩
  intro hzero
  apply eq_zero_of_largest
  have hpeak : (peak samples).map BitVec.toNat = some (largest (values samples)) := hpeak
  rw [hzero] at hpeak
  exact (some.inj hpeak).symm

/-- The peak of samples of 16 bits is exact if and only if the smallest number is not among
    them, and the peak for normalisation if and only if every negative sample comes behind one
    that is not smaller in its absolute value and is not negative. -/
theorem peaks_exact_iff {in16 : List (BitVec 16)} {in32 : List (BitVec 32)} (h16 : in16 ≠ []) :
    (Exact16 in16 ↔ BitVec.intMin 16 ∉ in16) ∧ (Exact32 in32 ↔ Led in32) :=
  ⟨exact16_iff h16, exact32_iff in32⟩

theorem peaks_exact_of_three : (Exact16 [100, -200, 150] ↔ BitVec.intMin 16 ∉ [100, -200, 150]) ∧
    (Exact32 [300, -200, 150] ↔ Led [300, -200, 150]) := peaks_exact_iff (by simp)

/-- A full-scale negative sample is passed over, and -1 is taken for the largest number. -/
theorem peaks_not_exact : ¬ Exact16 [BitVec.intMin 16] ∧ ¬ Exact32 [-1] :=
  ⟨fun h => absurd h.params (by decide), fun h => absurd h.peak (by decide)⟩

end openvocs.pcm
