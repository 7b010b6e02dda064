import Openvocs.Ice.Candidate

open List

namespace openvocs.candidate

open cstring

/-- The octets of all parts. -/
def total (parts : List (List Byte)) : Nat := parts.flatten.length

/-- The octets of the longest part. -/
def longest (parts : List (List Byte)) : Nat := (parts.map List.length).foldr max 0

@[simp] theorem total_cons (part : List Byte) (parts : List (List Byte)) :
    total (part :: parts) = part.length + total parts := by
  simp [total]

theorem length_le_total {part : List Byte} {parts : List (List Byte)} (h : part ∈ parts) :
    part.length ≤ total parts := by
  induction parts with
  | nil => simp at h
  | cons first parts ih =>
    rw [total_cons]
    rcases mem_cons.mp h with rfl | h
    · omega
    have := ih h
    omega

theorem length_le_longest {part : List Byte} {parts : List (List Byte)} (h : part ∈ parts) :
    part.length ≤ longest parts := by
  induction parts with
  | nil => simp at h
  | cons first parts ih =>
    simp only [longest, map_cons, foldr_cons] at ih ⊢
    rcases mem_cons.mp h with rfl | h
    · omega
    have := ih h
    omega

theorem exists_longest {parts : List (List Byte)} (h : parts ≠ []) :
    ∃ part ∈ parts, part.length = longest parts := by
  induction parts with
  | nil => simp at h
  | cons first parts ih =>
    by_cases hnil : parts = []
    · exact ⟨first, by simp, by simp [longest, hnil]⟩
    obtain ⟨part, hmem, hpart⟩ := ih hnil
    by_cases hle : longest parts ≤ first.length
    · refine ⟨first, by simp, ?_⟩
      simp only [longest, map_cons, foldr_cons] at hle ⊢
      omega
    refine ⟨part, by simp [hmem], ?_⟩
    simp only [longest, map_cons, foldr_cons] at hle hpart ⊢
    omega

variable {size used : Nat} {parts : List (List Byte)} {text whole : List Byte}

theorem write_parts_done (hwhole : whole.length = used) (htext : text = whole.take (size - 1))
    {out : List Byte} (h : write_parts size parts used text = .done out) :
    out = (whole ++ parts.flatten).take (size - 1) ∧ ∀ part ∈ parts, part.length < size := by
  induction parts generalizing used text whole with
  | nil =>
    simp only [write_parts, Round.done.injEq] at h
    simp [← h, htext]
  | cons part parts ih =>
    simp only [write_parts] at h
    split at h
    · simp at h
    rename_i hused
    split at h
    · simp at h
    rename_i hpart
    have hnext : (if used < size then text ++ part.take (size - used - 1) else text) =
        (whole ++ part).take (size - 1) := by
      split
      · rename_i hlt
        have htake : whole.take (size - 1) = whole := take_of_length_le (by omega)
        rw [htext, htake, take_append, htake, hwhole]
        congr 2
        omega
      · rw [htext, take_append_of_le_length (by omega)]
    have hrest := ih (by rw [length_append, hwhole]) hnext h
    refine ⟨by simpa using hrest.1, ?_⟩
    intro other hother
    rcases mem_cons.mp hother with rfl | hother
    · omega
    · exact hrest.2 other hother

theorem write_parts_overflow {part : List Byte} (hpart : part ∈ parts) (hlong : size ≤ part.length)
    (h : write_parts size parts used text = .overflow) : size + part.length < used + total parts := by
  induction parts generalizing used text with
  | nil => simp at hpart
  | cons first parts ih =>
    have hle := length_le_total hpart
    simp only [write_parts] at h
    split at h
    · omega
    split at h
    · simp at h
    rename_i hfirst
    have hmem : part ∈ parts := by
      rcases mem_cons.mp hpart with rfl | hmem
      · omega
      · exact hmem
    have := ih hmem h
    rw [total_cons]
    omega

theorem write_parts_fits (hparts : ∀ part ∈ parts, part ≠ []) (htext : text.length = used)
    (h : used + total parts < size) : write_parts size parts used text = .done (text ++ parts.flatten) := by
  induction parts generalizing used text with
  | nil => simp [write_parts]
  | cons part parts ih =>
    rw [total_cons] at h
    have hpos : 0 < part.length := length_pos_of_ne_nil (hparts part (by simp))
    have htake : part.take (size - used - 1) = part := take_of_length_le (by omega)
    have hused : used < size := by omega
    have hpart : ¬ (part.length = 0 ∨ size ≤ part.length) := by omega
    have hnext := ih (fun p hp => hparts p (by simp [hp]))
      (show (text ++ part).length = used + part.length by rw [length_append, htext]) (by omega)
    simp only [write_parts, if_neg (show ¬ size < used by omega), if_pos hused, htake, if_neg hpart, hnext]
    simp

theorem write_parts_reallocate (hparts : ∀ part ∈ parts, part ≠ [])
    (h : write_parts size parts used text = .reallocate) : ∃ part ∈ parts, size ≤ part.length := by
  induction parts generalizing used text with
  | nil => simp [write_parts] at h
  | cons part parts ih =>
    simp only [write_parts] at h
    split at h
    · simp at h
    split at h
    · rename_i hpart
      have hpos : 0 < part.length := length_pos_of_ne_nil (hparts part (by simp))
      exact ⟨part, by simp, by omega⟩
    obtain ⟨other, hother, hlong⟩ := ih (fun p hp => hparts p (by simp [hp])) h
    exact ⟨other, by simp [hother], hlong⟩

theorem write_rounds_text (hparts : ∀ part ∈ parts, part ≠ []) {rounds : Nat} {out : List Byte}
    (h : write_rounds parts rounds size = .text out) :
    ∃ k < rounds, write_parts (size + 512 * k) parts 0 [] = .done out ∧
      (k ≠ 0 → ∃ part ∈ parts, size + 512 * (k - 1) ≤ part.length) := by
  induction rounds generalizing size with
  | zero => simp [write_rounds] at h
  | succ rounds ih =>
    rw [write_rounds] at h
    cases hround : write_parts size parts 0 [] with
    | done text =>
      rw [hround] at h
      simp only [Written.text.injEq] at h
      exact ⟨0, by omega, by simpa [h] using hround, by simp⟩
    | overflow =>
      rw [hround] at h
      simp at h
    | reallocate =>
      rw [hround] at h
      obtain ⟨k, hk, hdone, hlong⟩ := ih h
      refine ⟨k + 1, by omega, ?_, fun _ => ?_⟩
      · rw [← hdone]
        congr 1
        omega
      by_cases hzero : k = 0
      · obtain ⟨part, hmem, hpart⟩ := write_parts_reallocate hparts hround
        exact ⟨part, hmem, by rw [hzero]; omega⟩
      obtain ⟨part, hmem, hpart⟩ := hlong hzero
      exact ⟨part, hmem, by omega⟩

/-- The whole fits into the first buffer that is larger than the longest part. -/
def Fits (parts : List (List Byte)) : Prop :=
  longest parts < 25600 ∧ total parts / 512 = longest parts / 512

instance (parts : List (List Byte)) : Decidable (Fits parts) := inferInstanceAs (Decidable (_ ∧ _))

theorem write_rounds_eq (hne : parts ≠ []) (hparts : ∀ part ∈ parts, part ≠ []) {rounds k : Nat}
    (htotal : total parts < 512 * (longest parts / 512 + 1)) (hk : 512 * k ≤ longest parts + 512)
    (hpos : 0 < k) (hrounds : longest parts / 512 + 1 < rounds + k) :
    write_rounds parts rounds (512 * k) = .text parts.flatten := by
  induction rounds generalizing k with
  | zero => omega
  | succ rounds ih =>
    rw [write_rounds]
    by_cases hlast : longest parts < 512 * k
    · have hround : write_parts (512 * k) parts 0 [] = .done ([] ++ parts.flatten) :=
        write_parts_fits hparts rfl (by omega)
      rw [hround]
      rfl
    obtain ⟨part, hmem, hpart⟩ := exists_longest hne
    have hround : write_parts (512 * k) parts 0 [] = .reallocate := by
      cases hround : write_parts (512 * k) parts 0 [] with
      | done text =>
        have hempty : ([] : List Byte) = ([] : List Byte).take (512 * k - 1) := by simp
        have := (write_parts_done rfl hempty hround).2 part hmem
        omega
      | overflow =>
        have := write_parts_overflow hmem (by omega) hround
        omega
      | reallocate => rfl
    rw [hround]
    exact ih (k := k + 1) (by omega) (by omega) (by omega)

theorem write_rounds_of_fits (hne : parts ≠ []) (hparts : ∀ part ∈ parts, part ≠ []) (h : Fits parts) :
    write_rounds parts 50 512 = .text parts.flatten := by
  obtain ⟨hlongest, hsame⟩ := h
  exact write_rounds_eq (k := 1) hne hparts (by omega) (by omega) (by omega) (by omega)

theorem write_rounds_text_of_not_fits (hne : parts ≠ []) (hparts : ∀ part ∈ parts, part ≠ []) {out : List Byte}
    (h : write_rounds parts 50 512 = .text out) (hnot : ¬ Fits parts) :
    ∃ n, (∀ part ∈ parts, part.length ≤ n) ∧ n < total parts ∧ out = parts.flatten.take n := by
  obtain ⟨k, hk, hdone, hlong⟩ := write_rounds_text hparts h
  have hempty : ([] : List Byte) = ([] : List Byte).take (512 + 512 * k - 1) := by simp
  obtain ⟨hout, hsmall⟩ := write_parts_done rfl hempty hdone
  obtain ⟨part, hmem, hpart⟩ := exists_longest hne
  have hlt := hsmall part hmem
  refine ⟨512 + 512 * k - 1, fun p hp => ?_, ?_, by simpa using hout⟩
  · have := hsmall p hp
    omega
  by_contra hfit
  have hle := length_le_total hmem
  apply hnot
  by_cases hzero : k = 0
  · exact ⟨by omega, by omega⟩
  obtain ⟨other, hother, hlong⟩ := hlong hzero
  have := length_le_longest hother
  exact ⟨by omega, by omega⟩

end openvocs.candidate
