import Openvocs.Lib.Assoc

namespace guarded

variable {σ : Type}

/-- Goes on with the next step unless the first one failed. -/
def next (r : Option (Bool × σ)) (f : σ → Option (Bool × σ)) : Option (Bool × σ) :=
  match r with
  | none => none
  | some (false, s) => some (false, s)
  | some (true, s) => f s

@[simp] theorem next_true (s : σ) (f : σ → Option (Bool × σ)) : next (some (true, s)) f = f s := rfl

@[simp] theorem next_false (s : σ) (f : σ → Option (Bool × σ)) :
    next (some (false, s)) f = some (false, s) := rfl

@[simp] theorem next_none (f : σ → Option (Bool × σ)) : next none f = none := rfl

variable {f : σ → Option (Bool × σ)}

theorem next_eq_some {r : Option (Bool × σ)} {ok : Bool} {s' : σ} :
    next r f = some (ok, s') ↔
      (∃ s, r = some (true, s) ∧ f s = some (ok, s')) ∨ (r = some (false, s') ∧ ok = false) := by
  rcases r with _ | ⟨_ | _, s⟩ <;> simp [eq_comm, and_comm]

theorem next_invariant (P : σ → Prop) {r : Option (Bool × σ)}
    (hr : ∀ ok s, r = some (ok, s) → P s)
    (hf : ∀ s ok s', P s → f s = some (ok, s') → P s')
    {ok : Bool} {s' : σ} (h : next r f = some (ok, s')) : P s' := by
  rcases next_eq_some.mp h with ⟨s, hs, hnext⟩ | ⟨hs, _⟩
  · exact hf s ok s' (hr _ s hs) hnext
  · exact hr _ s' hs

end guarded
