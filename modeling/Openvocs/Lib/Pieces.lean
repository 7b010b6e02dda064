import Mathlib.Data.List.Basic

open List

namespace pieces

variable {α β : Type} (text : α → List β)

/-- What is kept of the items to come: a begin of the first text, and not all of it. -/
def Kept (p : List β) : List α → Prop
  | [] => p = []
  | x :: _ => ∃ q, q ≠ [] ∧ text x = p ++ q

variable {text} {items done done' todo todo' : List α} {s p p' rest : List β}

theorem cut (h : items.flatMap text = s ++ rest) :
    ∃ done todo p, items = done ++ todo ∧ s = done.flatMap text ++ p ∧ todo.flatMap text = p ++ rest ∧
      Kept text p todo := by
  induction items generalizing s with
  | nil =>
    rw [flatMap_nil, eq_comm, append_eq_nil_iff] at h
    exact ⟨[], [], [], rfl, h.1, by rw [h.2]; rfl, rfl⟩
  | cons x items ih =>
    rw [flatMap_cons] at h
    obtain ⟨a, rfl, ha⟩ | ⟨a, ha, hrest⟩ := append_eq_append_iff.mp h
    · obtain ⟨done, todo, p, rfl, rfl, htodo, hkept⟩ := ih ha
      exact ⟨x :: done, todo, p, rfl, by rw [flatMap_cons, append_assoc], htodo, hkept⟩
    by_cases hnil : a = []
    · obtain ⟨done, todo, p, rfl, hs, htodo, hkept⟩ := @ih [] (by rw [hrest, hnil]; rfl)
      rw [hnil, List.append_nil] at ha
      refine ⟨x :: done, todo, p, rfl, ?_, htodo, hkept⟩
      rw [flatMap_cons, append_assoc, ← hs, List.append_nil, ha]
    refine ⟨[], x :: items, s, rfl, rfl, ?_, a, hnil, ha⟩
    rw [flatMap_cons, h]

theorem kept_nil (h : ∀ x ∈ items, text x ≠ []) : Kept text [] items := by
  cases items with
  | nil => rfl
  | cons x items => exact ⟨text x, h x mem_cons_self, rfl⟩

theorem Kept.shorter {x : α} (h : Kept text p (x :: todo)) (more : List β) : p ≠ text x ++ more := by
  obtain ⟨q, hq, htext⟩ := h
  intro hp
  have hlength := congrArg List.length hp
  have hpos := length_pos_iff.mpr hq
  rw [htext] at hlength
  simp only [length_append] at hlength
  omega

theorem Kept.unique (hp : Kept text p todo) (hp' : Kept text p' todo') (hitems : done ++ todo = done' ++ todo')
    (h : done.flatMap text ++ p = done'.flatMap text ++ p') : done = done' ∧ todo = todo' ∧ p = p' := by
  obtain ⟨more, rfl, rfl⟩ | ⟨more, rfl, rfl⟩ := append_eq_append_iff.mp hitems
  · rw [flatMap_append, append_assoc, append_cancel_left_eq] at h
    cases more with
    | nil => exact ⟨(List.append_nil _).symm, rfl, h⟩
    | cons x more =>
      rw [flatMap_cons, append_assoc] at h
      exact absurd h (hp.shorter _)
  rw [flatMap_append, append_assoc, append_cancel_left_eq] at h
  cases more with
  | nil => exact ⟨List.append_nil _, rfl, h⟩
  | cons x more =>
    rw [flatMap_cons, append_assoc] at h
    exact absurd h.symm (hp'.shorter _)

end pieces
