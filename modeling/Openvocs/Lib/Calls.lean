import Mathlib.Logic.Relation

namespace calls

/-- How a call ends that reads nothing outside. It was given up, or its bound on rounds was too small,
or it returns. -/
inductive Outcome (ε α : Type) where
  | stopped (why : ε)
  | endless
  | done (value : α)

/-- A call, `none` when it reads outside of its data. -/
def Call (ε α : Type) := Option (Outcome ε α)

namespace Call

variable {ε α β γ : Type}

def outside : Call ε α := none
def stop (why : ε) : Call ε α := some (.stopped why)
def endless : Call ε α := some .endless
def done (value : α) : Call ε α := some (.done value)

/-- A call goes on with what an earlier one has returned. -/
def bind (call : Call ε α) (next : α → Call ε β) : Call ε β :=
  match call with
  | none => outside
  | some (.stopped why) => stop why
  | some .endless => endless
  | some (.done value) => next value

instance : Monad (Call ε) where
  pure := done
  bind := bind

/-- The first element of what is left of some data, with the rest. -/
def head : List β → Call ε (β × List β)
  | [] => outside
  | x :: rest => done (x, rest)

/-- What a call returns, if it does. -/
def returned : Call ε α → Option α
  | some (.done value) => some value
  | _ => none

/-- A call that ends, and reads outside exactly when something is lacking. -/
def Reads (lack : Prop) (post : α → Prop) : Call ε α → Prop
  | none => lack
  | some (.stopped _) => ¬ lack
  | some .endless => False
  | some (.done value) => ¬ lack ∧ post value

/-- The call reads nothing outside, and it ends. -/
def Settled (call : Call ε α) : Prop := ∃ outcome, call = some outcome ∧ outcome ≠ .endless

@[simp] theorem done_bind (value : α) (next : α → Call ε β) : (done value >>= next) = next value := rfl

variable {lack lack' : Prop} {post : α → Prop} {post' : β → Prop} {call : Call ε α} {value : α}

theorem Reads.bind {rest : α → Call ε β} (h : Reads lack post call) (hlack : lack → lack')
    (hstop : ¬ lack → call.returned = none → ¬ lack')
    (hrest : ∀ value, ¬ lack → post value → Reads lack' post' (rest value)) :
    Reads lack' post' (call >>= rest) := by
  match call, h with
  | none, h => exact hlack h
  | some (.stopped why), h => exact hstop h rfl
  | some (.done value), h => exact hrest value h.1 h.2

theorem Reads.mono {post' : α → Prop} (h : Reads lack post call) (hlack : lack ↔ lack')
    (hpost : ∀ value, post value → post' value) : Reads lack' post' call := by
  match call, h with
  | none, h => exact hlack.mp h
  | some (.stopped why), h => exact mt hlack.mpr h
  | some (.done value), h => exact ⟨mt hlack.mpr h.1, hpost value h.2⟩

theorem Reads.settled_iff (h : Reads lack post call) : call.Settled ↔ ¬ lack := by
  match call, h with
  | none, h => exact iff_of_false (fun ⟨_, heq, _⟩ => by cases heq) (not_not_intro h)
  | some (.stopped why), h => exact iff_of_true ⟨_, rfl, nofun⟩ h
  | some (.done value), h => exact iff_of_true ⟨_, rfl, nofun⟩ h.1

theorem Reads.map {f : α → β} (h : Reads lack post call) (hlack : lack ↔ lack')
    (hpost : ∀ value, post value → post' (f value)) : Reads lack' post' (call >>= fun value => done (f value)) :=
  h.bind hlack.mp (fun hnot _ => mt hlack.mpr hnot) fun value hnot hvalue => ⟨mt hlack.mpr hnot, hpost value hvalue⟩

@[simp] theorem head_cons (x : β) (rest : List β) : (head (x :: rest) : Call ε (β × List β)) = done (x, rest) := rfl

end Call

variable {σ ε α β : Type} (step : σ → Option σ) (wrong : σ → Prop)

/-- The machine gets to no wrong configuration. -/
def Safe (c : σ) : Prop := ∀ d, Relation.ReflTransGen (fun c d => step c = some d) c d → ¬ wrong d

variable {step wrong} {c d : σ}

theorem not_safe (h : wrong c) : ¬ Safe step wrong c := fun hsafe => hsafe c .refl h

theorem safe_of_halts (hright : ¬ wrong c) (h : step c = none) : Safe step wrong c := by
  intro d hd
  obtain rfl | ⟨mid, hmid, -⟩ := hd.cases_head
  · exact hright
  rw [h] at hmid
  cases hmid

theorem safe_iff_of_step (hright : ¬ wrong c) (h : step c = some d) : Safe step wrong c ↔ Safe step wrong d := by
  constructor
  · exact fun hsafe e he => hsafe e (.head h he)
  intro hsafe e he
  obtain rfl | ⟨mid, hmid, hrest⟩ := he.cases_head
  · exact hright
  rw [h, Option.some_inj] at hmid
  subst hmid
  exact hsafe e hrest

variable (step wrong) in
/-- What a call comes to when the machine is at a configuration: it reads outside if the machine goes
wrong, and if it returns, the machine goes wrong exactly when it does so from a configuration for
what was returned. -/
def Agrees (post : α → Prop) (next : α → σ) (call : Call ε α) (c : σ) : Prop :=
  match call with
  | none => ¬ Safe step wrong c
  | some (.stopped _) => Safe step wrong c
  | some .endless => False
  | some (.done value) => post value ∧ (Safe step wrong c ↔ Safe step wrong (next value))

variable {post : α → Prop} {next : α → σ} {call : Call ε α}

theorem agrees_outside (h : ¬ Safe step wrong c) : Agrees step wrong post next (.outside : Call ε α) c := h

theorem agrees_stop (why : ε) (h : Safe step wrong c) : Agrees step wrong post next (.stop why : Call ε α) c := h

theorem agrees_done {value : α} (hpost : post value) (h : Safe step wrong c ↔ Safe step wrong (next value)) :
    Agrees step wrong post next (.done value : Call ε α) c :=
  ⟨hpost, h⟩

theorem agrees_iff_of_safe (h : Safe step wrong c ↔ Safe step wrong d) :
    Agrees step wrong post next call c ↔ Agrees step wrong post next call d := by
  match call with
  | none => exact not_congr h
  | some (.stopped _) => exact h
  | some .endless => exact Iff.rfl
  | some (.done value) => exact and_congr_right fun _ => iff_congr h Iff.rfl

theorem agrees_of_step (hright : ¬ wrong c) (hstep : step c = some d) (h : Agrees step wrong post next call d) :
    Agrees step wrong post next call c :=
  (agrees_iff_of_safe (safe_iff_of_step hright hstep)).mpr h

theorem agrees_bind {post' : β → Prop} {next' : β → σ} {rest : α → Call ε β}
    (h : Agrees step wrong post next call c)
    (hrest : ∀ value, post value → Agrees step wrong post' next' (rest value) (next value)) :
    Agrees step wrong post' next' (call >>= rest) c := by
  match call, h with
  | none, h => exact h
  | some (.stopped _), h => exact h
  | some (.done value), h => exact (agrees_iff_of_safe h.2).mpr (hrest value h.1)

theorem agrees_of_reads {lack : Prop} (h : call.Reads lack post) (hwrong : wrong c ↔ lack)
    (hstep : step c = call.returned.map next) : Agrees step wrong post next call c := by
  match call, h with
  | none, h => exact agrees_outside (not_safe (hwrong.mpr h))
  | some (.stopped why), h => exact agrees_stop why (safe_of_halts (mt hwrong.mp h) hstep)
  | some (.done value), h => exact agrees_of_step (mt hwrong.mp h.1) hstep (agrees_done h.2 Iff.rfl)

theorem Agrees.settled_iff (h : Agrees step wrong post next call c)
    (hsafe : ∀ value, post value → Safe step wrong (next value)) : call.Settled ↔ Safe step wrong c := by
  match call, h with
  | none, h =>
    refine iff_of_false ?_ h
    rintro ⟨outcome, houtcome, -⟩
    cases houtcome
  | some (.stopped why), h => exact iff_of_true ⟨_, rfl, nofun⟩ h
  | some (.done value), h => exact iff_of_true ⟨_, rfl, nofun⟩ (h.2.mpr (hsafe value h.1))

end calls
