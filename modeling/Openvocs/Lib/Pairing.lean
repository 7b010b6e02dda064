import Mathlib.Data.Option.Basic

namespace pairing

variable {α β : Type}

/-- The second function is the inverse of the first. -/
def Paired (f : α → Option β) (g : β → Option α) : Prop := ∀ a b, f a = some b ↔ g b = some a

variable {f f' : α → Option β} {g g' : β → Option α}

theorem Paired.congr (h : Paired f g) (hf : ∀ a, f' a = f a) (hg : ∀ b, g' b = g b) : Paired f' g' := by
  intro a b
  rw [hf, hg]
  exact h a b

theorem Paired.left_injective (h : Paired f g) {a a' : α} {b : β} (ha : f a = some b) (ha' : f a' = some b) :
    a = a' := by
  have hb := (h a b).mp ha
  rw [(h a' b).mp ha'] at hb
  exact (Option.some.inj hb).symm

theorem Paired.right_injective (h : Paired f g) {a : α} {b b' : β} (hb : g b = some a) (hb' : g b' = some a) :
    b = b' := by
  have ha := (h a b).mpr hb
  rw [(h a b').mpr hb'] at ha
  exact (Option.some.inj ha).symm

variable [DecidableEq α] [DecidableEq β]

theorem Paired.pair (h : Paired f g) {a : α} {b : β} (ha : f a = none) (hb : g b = none)
    (hf : ∀ x, f' x = if x = a then some b else f x) (hg : ∀ y, g' y = if y = b then some a else g y) :
    Paired f' g' := by
  intro x y
  rw [hf, hg]
  by_cases hx : x = a
  · by_cases hy : y = b
    · simp [hx, hy]
    have hother : g y ≠ some a := fun hgy => by simp [(h a y).mpr hgy] at ha
    simp [hx, hy, hother, Ne.symm hy]
  by_cases hy : y = b
  · have hother : f x ≠ some b := fun hfx => by simp [(h x b).mp hfx] at hb
    simp [hx, hy, hother, Ne.symm hx]
  · simp [hx, hy, h x y]

theorem Paired.unpair (h : Paired f g) {a : α} {b : β} (hab : f a = some b)
    (hf : ∀ x, f' x = if x = a then none else f x) (hg : ∀ y, g' y = if y = b then none else g y) :
    Paired f' g' := by
  intro x y
  rw [hf, hg]
  by_cases hx : x = a
  · by_cases hy : y = b
    · simp [hx, hy]
    have hother : g y ≠ some a := fun hgy => by
      have hfy := (h a y).mpr hgy
      rw [hab] at hfy
      exact hy (Option.some.inj hfy).symm
    simp [hx, hy, hother]
  by_cases hy : y = b
  · have hother : f x ≠ some b := fun hfx => hx (h.left_injective hfx hab)
    simp [hx, hy, hother]
  · simp [hx, hy, h x y]

end pairing
