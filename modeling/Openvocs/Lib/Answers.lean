import Openvocs.Lib.Machine

namespace answers

variable {σ τ ε α : Type} (step : ε → σ → α × σ) (spec : τ → ε → α → Prop) (after : τ → ε → τ)

/-- Every call is answered as it should be. -/
def Behaves : List ε → σ → τ → Prop
  | [], _, _ => True
  | e :: es, s, t => spec t e (step e s).1 ∧ Behaves es (step e s).2 (after t e)

variable {step spec after}

theorem behaves_iff (R : σ → τ → Prop) (good : σ → ε → Prop)
    (hanswer : ∀ e s t, R s t → (spec t e (step e s).1 ↔ good s e))
    (hnext : ∀ e s t, R s t → R (step e s).2 (after t e)) (es : List ε) {s : σ} {t : τ} (h : R s t) :
    Behaves step spec after es s t ↔ machine.along (fun e s => some (step e s).2) good es s := by
  induction es generalizing s t with
  | nil => exact Iff.rfl
  | cons e es ih =>
    simp [Behaves, machine.along, hanswer e s t h, ih (hnext e s t h)]


end answers
