import Mathlib.Data.List.Basic
import Mathlib.Data.List.Induction
import Mathlib.Logic.Function.Basic

namespace linked

variable {ν : Type} [DecidableEq ν]

/-- The first node of a list and the links of all nodes. -/
structure Nodes (ν : Type) where
  head : Option ν
  next : ν → Option ν
  prev : ν → Option ν

/-- `node->next = target` for a node that may be missing. -/
def Nodes.point_next (s : Nodes ν) (node target : Option ν) : Nodes ν :=
  match node with
  | some node => { s with next := Function.update s.next node target }
  | none => s

/-- `node->prev = target` for a node that may be missing. -/
def Nodes.point_prev (s : Nodes ν) (node target : Option ν) : Nodes ν :=
  match node with
  | some node => { s with prev := Function.update s.prev node target }
  | none => s

/-- The nodes stand behind each other, the first one behind `before` and the last one in
front of `after`. -/
def Segment (s : Nodes ν) : Option ν → List ν → Option ν → Prop
  | _, [], _ => True
  | before, x :: xs, after =>
    s.prev x = before ∧ s.next x = xs.head?.or after ∧ Segment s (some x) xs after

/-- The list of the nodes that can be reached from the head. -/
structure Holds (s : Nodes ν) (xs : List ν) : Prop where
  nodup : xs.Nodup
  head : s.head = xs.head?
  links : Segment s none xs none

variable {s t : Nodes ν} {before after : Option ν} {xs ys : List ν} {x : ν}

@[simp] theorem Nodes.point_next_head (node target : Option ν) :
    (s.point_next node target).head = s.head := by
  cases node <;> rfl

@[simp] theorem Nodes.point_prev_head (node target : Option ν) :
    (s.point_prev node target).head = s.head := by
  cases node <;> rfl

@[simp] theorem Nodes.point_next_prev (node target : Option ν) :
    (s.point_next node target).prev = s.prev := by
  cases node <;> rfl

@[simp] theorem Nodes.point_prev_next (node target : Option ν) :
    (s.point_prev node target).next = s.next := by
  cases node <;> rfl

variable (target : Option ν)

theorem Nodes.point_next_next {node : Option ν} (h : some x ≠ node) :
    (s.point_next node target).next x = s.next x := by
  cases node with
  | none => rfl
  | some node =>
    have hne : x ≠ node := fun heq => h (congrArg some heq)
    simp [point_next, hne]

theorem Nodes.point_prev_prev {node : Option ν} (h : some x ≠ node) :
    (s.point_prev node target).prev x = s.prev x := by
  cases node with
  | none => rfl
  | some node =>
    have hne : x ≠ node := fun heq => h (congrArg some heq)
    simp [point_prev, hne]

@[simp] theorem Nodes.point_next_self :
    (s.point_next (some x) target).next x = target := by
  simp [point_next]

@[simp] theorem Nodes.point_prev_self :
    (s.point_prev (some x) target).prev x = target := by
  simp [point_prev]

omit [DecidableEq ν] in
theorem Segment.congr (h : Segment s before xs after)
    (hnext : ∀ x ∈ xs, t.next x = s.next x) (hprev : ∀ x ∈ xs, t.prev x = s.prev x) :
    Segment t before xs after := by
  induction xs generalizing before with
  | nil => trivial
  | cons x xs ih =>
    obtain ⟨hp, hn, hrest⟩ := h
    refine ⟨(hprev x (by simp)).trans hp, (hnext x (by simp)).trans hn, ?_⟩
    exact ih hrest (fun y hy => hnext y (by simp [hy])) (fun y hy => hprev y (by simp [hy]))

omit [DecidableEq ν] in
theorem segment_append : Segment s before (xs ++ ys) after ↔
    Segment s before xs (ys.head?.or after) ∧ Segment s (xs.getLast?.or before) ys after := by
  induction xs generalizing before with
  | nil => simp [Segment]
  | cons x xs ih =>
    have hlast : ((x :: xs).getLast?.or before) = xs.getLast?.or (some x) := by cases xs <;> simp [List.getLast?_cons]
    have hhead : (xs ++ ys).head?.or after = xs.head?.or (ys.head?.or after) := by cases xs <;> simp
    rw [hlast]
    simp only [List.cons_append, Segment, ih, hhead, and_assoc]

section

variable (h : Segment s before xs after)

include h

theorem Segment.point_last (hnodup : xs.Nodup) (target : Option ν) :
    Segment (s.point_next xs.getLast? target) before xs target := by
  induction xs using List.reverseRecOn generalizing after with
  | nil => trivial
  | append_singleton xs x _ =>
    rw [segment_append] at h ⊢
    have hfresh : ∀ y ∈ xs, some y ≠ some x := by
      rintro y hy heq
      rw [Option.some_inj] at heq
      exact (List.nodup_append.mp hnodup).2.2 y hy x (by simp) heq
    constructor
    · apply h.1.congr
      · intro y hy
        rw [List.getLast?_concat]
        exact Nodes.point_next_next target (hfresh y hy)
      · simp
    · simpa [Segment] using h.2.1

theorem Segment.point_first (hnodup : xs.Nodup) (target : Option ν) :
    Segment (s.point_prev xs.head? target) target xs after := by
  cases xs with
  | nil => trivial
  | cons x xs =>
    obtain ⟨-, hn, hrest⟩ := h
    have hfresh : ∀ y ∈ xs, some y ≠ some x := by
      rintro y hy heq
      rw [Option.some_inj] at heq
      exact (List.nodup_cons.mp hnodup).1 (heq ▸ hy)
    refine ⟨by simp, by simpa using hn, ?_⟩
    apply hrest.congr
    · simp
    intro y hy
    exact Nodes.point_prev_prev target (hfresh y hy)

theorem Segment.point_next_of_not_mem {node : Option ν}
    (hnode : ∀ y ∈ node, y ∉ xs) (target : Option ν) :
    Segment (s.point_next node target) before xs after := by
  apply h.congr
  · intro y hy
    exact Nodes.point_next_next target (fun heq => hnode y heq.symm hy)
  · simp

theorem Segment.point_prev_of_not_mem {node : Option ν}
    (hnode : ∀ y ∈ node, y ∉ xs) (target : Option ν) :
    Segment (s.point_prev node target) before xs after := by
  apply h.congr
  · simp
  intro y hy
  exact Nodes.point_prev_prev target (fun heq => hnode y heq.symm hy)

end

omit [DecidableEq ν] in
theorem Holds.links_at (h : Holds s (xs ++ x :: ys)) : s.prev x = xs.getLast? ∧ s.next x = ys.head? := by
  have hlinks := (segment_append.mp h.links).2
  exact ⟨by simpa using hlinks.1, by simpa using hlinks.2.1⟩

end linked
