import Mathlib.Algebra.Order.Group.Abs
import Mathlib.Algebra.BigOperators.Group.List.Basic

namespace saturating

variable {α : Type*} [LinearOrder α]

/-- The number in a range that is nearest. -/
def clip (lo hi x : α) : α := max lo (min hi x)

theorem clip_of_mem {lo hi x : α} (hlo : lo ≤ x) (hhi : x ≤ hi) : clip lo hi x = x := by
  rw [clip, min_eq_right hhi, max_eq_right hlo]

/-- Numbers are added one after the other to a first one. -/
def sum [Add α] (lo hi : α) (first : α) (xs : List α) : α := xs.foldl (fun a x => clip lo hi (a + x)) first

@[simp] theorem sum_nil [Add α] (lo hi first : α) : sum lo hi first [] = first := rfl

@[simp] theorem sum_cons [Add α] (lo hi first x : α) (xs : List α) :
    sum lo hi first (x :: xs) = sum lo hi (clip lo hi (first + x)) xs := rfl

theorem sum_eq [AddCommGroup α] [IsOrderedAddMonoid α] {range bound first : α} {xs : List α} (h : ∀ x ∈ xs, |x| ≤ bound)
    {lo : α} (hlo : lo ≤ -range) (hroom : |first| + xs.length • bound ≤ range) :
    sum lo range first xs = first + xs.sum := by
  induction xs generalizing first with
  | nil => simp
  | cons x xs ih =>
    rw [List.forall_mem_cons] at h
    rw [List.length_cons, succ_nsmul', ← add_assoc] at hroom
    have hbound : 0 ≤ bound := (abs_nonneg x).trans h.1
    have hnext : |first + x| + xs.length • bound ≤ range :=
      (add_le_add_left ((abs_add_le first x).trans (add_le_add_right h.1 _)) _).trans hroom
    have hpartial : |first + x| ≤ range := (le_add_of_nonneg_right (nsmul_nonneg hbound _)).trans hnext
    have hclip : clip lo range (first + x) = first + x :=
      clip_of_mem (hlo.trans (abs_le.mp hpartial).1) (abs_le.mp hpartial).2
    rw [sum_cons, hclip, ih h.2 hnext, List.sum_cons, add_assoc]

end saturating
