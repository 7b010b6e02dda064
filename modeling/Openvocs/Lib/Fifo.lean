import Openvocs.Lib.Machine

namespace fifo

variable {σ ε α : Type} (step : ε → σ → Option σ)

/-- What the steps of a run give, in the order of the steps. -/
def gathered (note : ε → σ → List α) : List ε → σ → List α
  | [], _ => []
  | e :: es, s =>
    match step e s with
    | none => []
    | some s' => note e s ++ gathered note es s'

/-- What a step takes is the front of what is held, and what it puts comes behind. -/
def Queued (held : σ → List α) (put taken : ε → σ → List α) : Prop :=
  ∀ e s s', step e s = some s' → taken e s ++ held s' = held s ++ put e s

variable {step} {held : σ → List α} {put taken : ε → σ → List α} {s s' : σ}

theorem gathered_cons {note : ε → σ → List α} {e : ε} (es : List ε) (hstep : step e s = some s') :
    gathered step note (e :: es) s = note e s ++ gathered step note es s' := by
  rw [gathered, hstep]

theorem Queued.run (h : Queued step held put taken) (es : List ε) (hrun : machine.run step es s = some s') :
    gathered step taken es s ++ held s' = held s ++ gathered step put es s := by
  induction es generalizing s with
  | nil =>
    simp only [machine.run, Option.some.injEq] at hrun
    simp [gathered, hrun]
  | cons e es ih =>
    simp only [machine.run, Option.bind_eq_some_iff] at hrun
    obtain ⟨mid, hmid, hrest⟩ := hrun
    rw [gathered_cons es hmid, gathered_cons es hmid, List.append_assoc, ih hrest, ← List.append_assoc,
      h e s mid hmid, List.append_assoc]

theorem Queued.front (h : Queued step held put taken) (es : List ε) (hrun : machine.run step es s = some s')
    (hnone : gathered step taken es s = []) : held s <+: held s' := by
  have hall := h.run es hrun
  rw [hnone, List.nil_append] at hall
  exact ⟨_, hall.symm⟩

end fifo
