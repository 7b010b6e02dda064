import Mathlib.Data.List.Basic

/-!
The jumps of a function body go forward, to a label, and its only lock cannot be taken twice.
-/

namespace flow

/-- A statement over the names of tests, actions and labels. -/
inductive Stmt (τ α ι : Type) where
  | act (a : α)
  | goto (label : ι)
  | goto_if (test : τ) (label : ι)
  -- takes the lock, or jumps when it is held already
  | lock (failed : ι)
  -- releases the lock, which does not fail while it is held
  | unlock
  | label (label : ι)
  | ret

/-- What tests and actions do. -/
structure Meaning (τ α σ : Type) where
  test : τ → σ → Bool
  act : α → σ → σ

/-- The lock, and whether it could not be taken at some point of a call. -/
structure Lock where
  locked : Bool := false
  blocked : Bool := false
  deriving DecidableEq, Repr

variable {τ α ι σ : Type} [DecidableEq ι]

/-- Runs a body, or the part of it behind a label. -/
def exec (m : Meaning τ α σ) : List (Stmt τ α ι) → Option ι → σ × Lock → σ × Lock
  | [], _, st => st
  | .label l :: rest, some target, st => exec m rest (if l = target then none else some target) st
  | _ :: rest, some target, st => exec m rest (some target) st
  | .act a :: rest, none, (s, lock) => exec m rest none (m.act a s, lock)
  | .goto l :: rest, none, st => exec m rest (some l) st
  | .goto_if t l :: rest, none, st => exec m rest (if m.test t st.1 then some l else none) st
  | .lock failed :: rest, none, (s, lock) =>
    if lock.locked then exec m rest (some failed) (s, { lock with blocked := true })
    else exec m rest none (s, { lock with locked := true })
  | .unlock :: rest, none, (s, lock) => exec m rest none (s, { lock with locked := false })
  | .label _ :: rest, none, st => exec m rest none st
  | .ret :: _, none, st => st

/-- The states in which a body can leave the lock. -/
def exits : List (Stmt τ α ι) → Option ι → Lock → List Lock
  | [], _, lock => [lock]
  | .label l :: rest, some target, lock => exits rest (if l = target then none else some target) lock
  | _ :: rest, some target, lock => exits rest (some target) lock
  | .act _ :: rest, none, lock => exits rest none lock
  | .goto l :: rest, none, lock => exits rest (some l) lock
  | .goto_if _ l :: rest, none, lock => exits rest (some l) lock ++ exits rest none lock
  | .lock failed :: rest, none, lock =>
    if lock.locked then exits rest (some failed) { lock with blocked := true }
    else exits rest none { lock with locked := true }
  | .unlock :: rest, none, lock => exits rest none { lock with locked := false }
  | .label _ :: rest, none, lock => exits rest none lock
  | .ret :: _, none, lock => [lock]

theorem exec_mem_exits (m : Meaning τ α σ) (body : List (Stmt τ α ι)) (target : Option ι) (s : σ) (lock : Lock) :
    (exec m body target (s, lock)).2 ∈ exits body target lock := by
  induction body generalizing target s lock with
  | nil => simp [exec, exits]
  | cons stmt rest ih =>
    cases target with
    | some target =>
      cases stmt with
      | label l =>
        simp only [exec, exits]
        exact ih _ s lock
      | _ =>
        simp only [exec, exits]
        exact ih _ s lock
    | none =>
      cases stmt with
      | act a => exact ih none (m.act a s) lock
      | goto l => exact ih (some l) s lock
      | goto_if t l =>
        simp only [exec, exits, List.mem_append]
        by_cases htest : m.test t s = true
        · rw [if_pos htest]
          exact .inl (ih (some l) s lock)
        rw [if_neg htest]
        exact .inr (ih none s lock)
      | lock failed =>
        simp only [exec, exits]
        split
        · exact ih (some failed) s _
        · exact ih none s _
      | unlock => exact ih none s _
      | label l => exact ih none s lock
      | ret => simp [exec, exits]

/-- A body that leaves the lock as it should whatever its tests say. -/
def leaves (body : List (Stmt τ α ι)) (lock last : Lock) : Bool :=
  (exits body none lock).all (fun other => decide (other = last))

theorem exec_of_leaves (m : Meaning τ α σ) {body : List (Stmt τ α ι)} {lock last : Lock}
    (h : leaves body lock last = true) (s : σ) : (exec m body none (s, lock)).2 = last := by
  have hall := List.all_eq_true.mp h _ (exec_mem_exits m body none s lock)
  simpa using hall

/-- The statements of a called function: it returns to a label of the caller. -/
def inline (back : ι) (body : List (Stmt τ α ι)) : List (Stmt τ α ι) :=
  body.map fun
    | .ret => .goto back
    | stmt => stmt

/-- One call after the other. -/
def calls : List (List (Stmt τ α ι) × Meaning τ α σ) → σ × Lock → List (σ × Lock)
  | [], _ => []
  | (body, m) :: rest, st =>
    let next := exec m body none st
    next :: calls rest next

theorem calls_keep {P : σ × Lock → Prop} {run : List (List (Stmt τ α ι) × Meaning τ α σ)}
    (h : ∀ call ∈ run, ∀ st, P st → P (exec call.2 call.1 none st)) {st : σ × Lock} (hst : P st) :
    ∀ st' ∈ calls run st, P st' := by
  induction run generalizing st with
  | nil => exact fun st' hmem => absurd hmem List.not_mem_nil
  | cons call rest ih =>
    have hnext : P (exec call.2 call.1 none st) := h call List.mem_cons_self st hst
    intro st' hmem
    obtain rfl | hmem := List.mem_cons.mp hmem
    · exact hnext
    · exact ih (fun other hother => h other (List.mem_cons_of_mem _ hother)) hnext st' hmem

end flow
