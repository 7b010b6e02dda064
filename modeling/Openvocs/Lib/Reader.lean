import Mathlib.Data.List.Basic

open List Option

namespace reader

variable {σ β ω : Type} (step : σ → β → Option (Option ω × σ))

/-- All that is put out, and the state behind the last item. -/
def run : σ → List β → Option (List ω × σ)
  | s, [] => some ([], s)
  | s, item :: items => (step s item).bind fun (out, s) => (run s items).map fun (outs, s) => (out.toList ++ outs, s)

/-- Where a reader stands that stops when something is put out. -/
inductive Stop (σ β ω : Type) where
  | waiting (s : σ)
  | output (out : ω) (s : σ) (rest : List β)

def first : σ → List β → Option (Stop σ β ω)
  | s, [] => some (.waiting s)
  | s, item :: items => (step s item).bind fun (out, s) =>
    match out with
    | none => first s items
    | some out => some (.output out s items)

/-- How a reader that stops goes on after a step. -/
def onward (items : List β) : Option ω × σ → Option (Stop σ β ω)
  | (none, s) => first step s items
  | (some out, s) => some (.output out s items)

theorem first_cons (s : σ) (item : β) (items : List β) :
    first step s (item :: items) = (step s item).bind (onward step items) := by
  rw [first]
  congr 1
  funext ⟨out, s⟩
  cases out <;> rfl

/-- Two runs behind each other. -/
def follow (r : Option (List ω × σ)) (next : σ → Option (List ω × σ)) : Option (List ω × σ) :=
  r.bind fun (outs, s) => (next s).map fun (more, s) => (outs ++ more, s)

theorem follow_nil (s : σ) (next : σ → Option (List ω × σ)) : follow (some ([], s)) next = next s := by
  simp [follow]

theorem follow_assoc (r : Option (List ω × σ)) (next last : σ → Option (List ω × σ)) :
    follow (follow r next) last = follow r fun s => follow (next s) last := by
  cases r with
  | none => rfl
  | some r =>
    simp only [follow, bind_some]
    cases next r.2 with
    | none => rfl
    | some more =>
      simp only [map_some, bind_some]
      cases last more.2 <;> simp

theorem run_cons (s : σ) (item : β) (items : List β) : run step s (item :: items) =
      follow ((step s item).map fun (out, s) => (out.toList, s)) fun s => run step s items := by
  cases hstep : step s item <;> simp [run, follow, hstep]

variable {step} in
theorem run_silent {s s' : σ} {item : β} (h : step s item = some (none, s')) (items : List β) :
    run step s (item :: items) = run step s' items := by
  rw [run_cons, h]
  exact follow_nil s' _

theorem run_singleton (s : σ) (item : β) :
    run step s [item] = (step s item).map fun (out, s) => (out.toList, s) := by
  rw [run_cons]
  cases step s item <;> simp [follow, run]

theorem run_append (s : σ) (l rest : List β) :
    run step s (l ++ rest) = follow (run step s l) fun s => run step s rest := by
  induction l generalizing s with
  | nil => rw [nil_append, run, follow_nil]
  | cons item items ih =>
    rw [List.cons_append, run_cons, run_cons, follow_assoc]
    congr 1
    funext s
    exact ih s

theorem run_eq_first (s : σ) (l : List β) : run step s l = (first step s l).bind fun stop =>
      match stop with
      | .waiting s => some ([], s)
      | .output out s rest => (run step s rest).map fun (outs, s) => (out :: outs, s) := by
  induction l generalizing s with
  | nil => rfl
  | cons item items ih =>
    rw [run, first]
    cases step s item with
    | none => rfl
    | some r =>
      obtain ⟨out, s⟩ := r
      cases out with
      | none =>
        simp [Option.map_id', ih]
      | some out => simp

theorem first_output_length {s s' : σ} {out : ω} {l rest : List β} (h : first step s l = some (.output out s' rest)) :
    rest.length < l.length := by
  induction l generalizing s with
  | nil => simp [first] at h
  | cons item items ih =>
    simp only [first, bind_eq_some_iff] at h
    obtain ⟨⟨o, mid⟩, -, h⟩ := h
    cases o with
    | none =>
      have hless := ih h
      rw [length_cons]
      omega
    | some o =>
      simp only [some.injEq, Stop.output.injEq] at h
      rw [h.2.2, length_cons]
      omega

/-- All that is put out until a step fails. -/
def outputs : σ → List β → List ω
  | _, [] => []
  | s, item :: items =>
    match step s item with
    | none => []
    | some (out, s) => out.toList ++ outputs s items

theorem outputs_append {s s' : σ} {l : List β} {outs : List ω} (h : run step s l = some (outs, s')) (rest : List β) :
    outputs step s (l ++ rest) = outs ++ outputs step s' rest := by
  induction l generalizing s outs with
  | nil =>
    rw [run, some.injEq, Prod.mk.injEq] at h
    rw [← h.1, ← h.2, nil_append, nil_append]
  | cons item items ih =>
    simp only [run, bind_eq_some_iff, map_eq_some_iff, Prod.mk.injEq] at h
    obtain ⟨⟨out, mid⟩, hstep, ⟨more, last⟩, hrun, rfl, rfl⟩ := h
    simp [outputs, hstep, ih hrun]

theorem outputs_append_none {s : σ} {l : List β} (h : run step s l = none) (rest : List β) :
    outputs step s (l ++ rest) = outputs step s l := by
  induction l generalizing s with
  | nil => simp [run] at h
  | cons item items ih =>
    rw [List.cons_append, outputs, outputs]
    cases hstep : step s item with
    | none => rfl
    | some r =>
      obtain ⟨out, s⟩ := r
      simp only [run, hstep, bind_some, map_eq_none_iff] at h
      simp only [ih h]

theorem outputs_eq_first (s : σ) (l : List β) : outputs step s l =
      match first step s l with
      | none => []
      | some (.waiting _) => []
      | some (.output out s rest) => out :: outputs step s rest := by
  induction l generalizing s with
  | nil => rfl
  | cons item items ih =>
    rw [outputs, first]
    cases step s item with
    | none => rfl
    | some r =>
      obtain ⟨out, s⟩ := r
      cases out with
      | none => simp only [bind_some, toList_none, nil_append, ih]
      | some out => simp

end reader
