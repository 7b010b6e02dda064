import Mathlib.Data.List.Nodup

namespace firsts

variable {α : Type} (drops : α → α → Bool)

/-- The items that one item does not drop. -/
def spared (x : α) (xs : List α) : List α := xs.filter fun y => !drops x y

theorem length_spared_le (x : α) (xs : List α) : (spared drops x xs).length ≤ xs.length :=
  List.length_filter_le _ _

/-- What stays, from the front to the end. -/
def kept : List α → List α
  | [] => []
  | x :: xs => x :: kept (spared drops x xs)
termination_by xs => xs.length
decreasing_by exact Nat.lt_succ_of_le (length_spared_le drops x xs)

theorem kept_nil : kept drops [] = [] := by
  rw [kept]

theorem kept_cons (x : α) (xs : List α) : kept drops (x :: xs) = x :: kept drops (spared drops x xs) := by
  rw [kept]

theorem mem_spared {x y : α} {xs : List α} : y ∈ spared drops x xs ↔ y ∈ xs ∧ drops x y = false := by
  rw [spared, List.mem_filter, Bool.not_eq_true']

theorem kept_sublist (xs : List α) : (kept drops xs).Sublist xs := by
  induction xs using kept.induct drops with
  | case1 => rw [kept_nil]
  | case2 x xs ih =>
    rw [kept_cons]
    exact (ih.trans List.filter_sublist).cons_cons x

theorem pairwise_kept (xs : List α) : (kept drops xs).Pairwise fun x y => drops x y = false := by
  induction xs using kept.induct drops with
  | case1 =>
    rw [kept_nil]
    exact List.Pairwise.nil
  | case2 x xs ih =>
    rw [kept_cons]
    refine List.Pairwise.cons (fun y hy => ?_) ih
    exact ((mem_spared drops).mp ((kept_sublist drops _).subset hy)).2

variable {drops}

theorem spared_append {x y : α} {us vs : List α} (h : drops x y = false) :
    spared drops x (us ++ y :: vs) = spared drops x us ++ y :: spared drops x vs := by
  rw [spared, List.filter_append, List.filter_cons_of_pos (by rw [h]; rfl), spared, spared]

theorem mem_kept_iff (htrans : ∀ x y z, x ≠ z → drops x y = true → drops y z = true → drops x z = true)
    {us vs : List α} {y : α} (hnodup : (us ++ y :: vs).Nodup) :
    y ∈ kept drops (us ++ y :: vs) ↔ ∀ x ∈ us, drops x y = false := by
  induction us using kept.induct drops generalizing vs with
  | case1 =>
    rw [List.nil_append, kept_cons]
    simp
  | case2 x us ih =>
    have hne : y ≠ x := by
      rintro rfl
      exact (List.nodup_cons.mp hnodup).1 (List.mem_append_right _ List.mem_cons_self)
    rw [List.cons_append, kept_cons, List.mem_cons, or_iff_right hne]
    cases hdrop : drops x y with
    | true =>
      have hout : y ∉ kept drops (spared drops x (us ++ y :: vs)) := by
        intro hmem
        have hspared := ((mem_spared drops).mp ((kept_sublist drops _).subset hmem)).2
        rw [hdrop] at hspared
        cases hspared
      refine iff_of_false hout fun hall => ?_
      rw [hall x List.mem_cons_self] at hdrop
      cases hdrop
    | false =>
      have hrest : (spared drops x us ++ y :: spared drops x vs).Nodup := by
        rw [← spared_append hdrop]
        exact (List.nodup_cons.mp hnodup).2.filter _
      rw [spared_append hdrop, ih hrest]
      constructor
      · intro hall z hz
        rcases List.mem_cons.mp hz with rfl | hz
        · exact hdrop
        cases hxz : drops x z with
        | false => exact hall z ((mem_spared drops).mpr ⟨hz, hxz⟩)
        | true =>
          -- what drops `z` would drop `y` too
          cases hzy : drops z y with
          | false => rfl
          | true =>
            rw [htrans x z y hne.symm hxz hzy] at hdrop
            cases hdrop
      intro hall z hz
      exact hall z (List.mem_cons_of_mem _ ((mem_spared drops).mp hz).1)

end firsts
