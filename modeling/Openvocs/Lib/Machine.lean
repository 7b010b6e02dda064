import Mathlib.Algebra.Group.Nat.Defs
import Mathlib.Data.List.Basic

namespace machine

variable {σ ε : Type} (step : ε → σ → Option σ)

/-- The state after a list of events. -/
def run : List ε → σ → Option σ
  | [], s => some s
  | e :: es, s => (step e s).bind (run es)

/-- Every step of the run meets a condition on its event and on the state before it. -/
def along (allowed : σ → ε → Prop) : List ε → σ → Prop
  | [], _ => True
  | e :: es, s => allowed s e ∧ ∀ s', step e s = some s' → along allowed es s'

/-- Whether a run meets a decidable condition can be found out by running it. -/
instance decidableAlong (allowed : σ → ε → Prop) [∀ s e, Decidable (allowed s e)] :
    ∀ es s, Decidable (along step allowed es s)
  | [], _ => isTrue trivial
  | e :: es, s =>
    match h : step e s with
    | none => decidable_of_iff (allowed s e) (by simp [along, h])
    | some s' =>
      have := decidableAlong allowed es s'
      decidable_of_iff (allowed s e ∧ along step allowed es s') (by simp [along, h])

variable {step}

theorem run_invariant (P : σ → Prop) (allowed : σ → ε → Prop)
    (hstep : ∀ s e s', P s → allowed s e → step e s = some s' → P s')
    (es : List ε) {s s' : σ} (hs : P s) (halong : along step allowed es s)
    (hrun : run step es s = some s') : P s' := by
  induction es generalizing s with
  | nil =>
    simp only [run, Option.some.injEq] at hrun
    exact hrun ▸ hs
  | cons e es ih =>
    simp only [run, Option.bind_eq_some_iff] at hrun
    obtain ⟨mid, hmid, hrest⟩ := hrun
    exact ih (hstep s e mid hs halong.1 hmid) (halong.2 mid hmid) hrest

theorem run_defined (P : σ → Prop) (allowed : σ → ε → Prop)
    (hstep : ∀ s e, P s → allowed s e → ∃ s', step e s = some s' ∧ P s')
    (es : List ε) {s : σ} (hs : P s) (halong : along step allowed es s) :
    ∃ s', run step es s = some s' ∧ P s' := by
  induction es generalizing s with
  | nil => exact ⟨s, rfl, hs⟩
  | cons e es ih =>
    obtain ⟨mid, hmid, hP⟩ := hstep s e hs halong.1
    obtain ⟨last, hlast, hPlast⟩ := ih hP (halong.2 mid hmid)
    exact ⟨last, by simp [run, hmid, hlast], hPlast⟩

theorem along_append (allowed : σ → ε → Prop) (es fs : List ε) {s : σ} : along step allowed (es ++ fs) s ↔
      along step allowed es s ∧ ∀ s', run step es s = some s' → along step allowed fs s' := by
  induction es generalizing s with
  | nil => simp [along, run]
  | cons e es ih =>
    simp only [List.cons_append, along, run, Option.bind_eq_some_iff, and_assoc]
    constructor
    · rintro ⟨hallowed, hrest⟩
      refine ⟨hallowed, fun mid hmid => (ih.mp (hrest mid hmid)).1, ?_⟩
      rintro s' ⟨mid, hmid, hs'⟩
      exact (ih.mp (hrest mid hmid)).2 s' hs'
    rintro ⟨hallowed, hfirst, hlast⟩
    exact ⟨hallowed, fun mid hmid => ih.mpr ⟨hfirst mid hmid, fun s' hs' => hlast s' ⟨mid, hmid, hs'⟩⟩⟩

theorem along_of_forall {allowed : σ → ε → Prop} (es : List ε) (h : ∀ e ∈ es, ∀ s, allowed s e) (s : σ) :
    along step allowed es s := by
  induction es generalizing s with
  | nil => trivial
  | cons e es ih =>
    exact ⟨h e List.mem_cons_self s, fun s' _ => ih (fun f hmem => h f (List.mem_cons_of_mem _ hmem)) s'⟩

theorem along_mono {allowed other : σ → ε → Prop} (himp : ∀ s e, allowed s e → other s e) {es : List ε} {s : σ}
    (h : along step allowed es s) : along step other es s := by
  induction es generalizing s with
  | nil => trivial
  | cons e es ih => exact ⟨himp s e h.1, fun s' hs' => ih (h.2 s' hs')⟩

theorem along_and {allowed other : σ → ε → Prop} {es : List ε} {s : σ} :
    along step (fun s e => allowed s e ∧ other s e) es s ↔ along step allowed es s ∧ along step other es s := by
  induction es generalizing s with
  | nil => exact ⟨fun _ => ⟨trivial, trivial⟩, fun _ => trivial⟩
  | cons e es ih =>
    constructor
    · rintro ⟨⟨hallowed, hother⟩, hrest⟩
      exact ⟨⟨hallowed, fun s' hs' => (ih.mp (hrest s' hs')).1⟩, hother, fun s' hs' => (ih.mp (hrest s' hs')).2⟩
    rintro ⟨⟨hallowed, hrest⟩, hother, hrest'⟩
    exact ⟨⟨hallowed, hother⟩, fun s' hs' => ih.mpr ⟨hrest s' hs', hrest' s' hs'⟩⟩

section logged

variable {ω : Type} (step) (note : ε → σ → List ω)

/-- The machine with a log of what its steps did, the last one first. -/
def logged (e : ε) (s : σ × List ω) : Option (σ × List ω) :=
  (step e s.1).map fun s' => (s', note e s.1 ++ s.2)

variable {step note}

theorem logged_eq_some_iff {e : ε} {s s' : σ × List ω} :
    logged step note e s = some s' ↔ step e s.1 = some s'.1 ∧ s'.2 = note e s.1 ++ s.2 := by
  obtain ⟨state, log⟩ := s'
  simp only [logged, Option.map_eq_some_iff, Prod.mk.injEq]
  constructor
  · rintro ⟨_, hstep, rfl, rfl⟩
    exact ⟨hstep, rfl⟩
  rintro ⟨hstep, rfl⟩
  exact ⟨state, hstep, rfl, rfl⟩

end logged

end machine
