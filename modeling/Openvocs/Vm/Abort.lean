import Mathlib.Data.Nat.Count
import Openvocs.Vm.Lifecycle

open List Option

namespace openvocs.vm

open OvVm Program

def Event.is_inversion : Event → Bool
  | .inverted _ => true
  | _ => false

/-- The number of calls of inverse handlers. -/
def inversions (log : List Event) : Nat := (log.filter Event.is_inversion).length

theorem inversions_append (log rest : List Event) : inversions (log ++ rest) = inversions log + inversions rest := by
  rw [inversions, filter_append, length_append]
  rfl

/-- The first rounds of `execute`. -/
def rounds (table : OpcodeTable) (answers : Nat → Retval) : Nat → Slot → Option Slot
  | 0, slot => some slot
  | n + 1, slot =>
    (rounds table answers n slot).bind fun slot =>
      match slot.control with
      | .executing prog => prog.execute_round table (answers n) slot.log
      | _ => some slot

variable (table : OpcodeTable) (answers : Nat → Retval) (finish_current_step : Bool) (prog : Program) (log : List Event)

/-- `abort_program_with`, after some rounds of `execute`. -/
def abort_rounds (n : Nat) : Option Slot := (prog.abort_program_with finish_current_step log).bind (rounds table answers n)

/-- The abort returns after at most `k` calls of inverse handlers, and the program is
    not in the database any more. -/
def EndsWithin (k : Nat) : Prop :=
  ∃ n slot, abort_rounds table answers finish_current_step prog log n = some slot ∧ slot.control = .absent ∧
    inversions slot.log ≤ inversions log + k

/-- Every round calls a handler, and the answers are the values that are returned. -/
def Returns : Prop :=
  ∀ n slot current, abort_rounds table answers finish_current_step prog log n = some slot →
    slot.control = .executing current → returned table (answers n) current = some (answers n)

/-- The first `k` instructions of a program that has completed them. -/
structure Completed (start : Program) (k : Nat) : Prop where
  within : k ≤ start.instructions.length
  in_table : op_past_table ∉ start.instructions.take k

/-- A program that is aborted, in front of the instruction `j`. -/
structure Undoing (start current : Program) (j : Nat) : Prop where
  state : current.state = .aborting
  counter : current.program_counter = j
  instructions : current.instructions = start.instructions

variable {table answers finish_current_step prog log} {start : Program} {k j : Nat}

theorem abort_program_with_eq (log : List Event) (hstate : start.state = .ok)
    (hcounter : stop_counter finish_current_step start + 1 = k) :
    ∃ current, start.abort_program_with finish_current_step log =
        some { control := .executing current, log := log ++ [.stopped] } ∧
      current.state = .aborting ∧ current.program_counter + 1 = k ∧ current.instructions = start.instructions := by
  rw [stop_counter] at hcounter
  simp only [abort_program_with, hstate]
  by_cases hinterrupted : finish_current_step = false ∧ start.last_instr_retval = .wait_and_next
  · rw [if_pos hinterrupted] at hcounter ⊢
    refine ⟨_, rfl, rfl, ?_, rfl⟩
    simp only [propagate_program_counter]
    omega
  rw [if_neg hinterrupted] at hcounter ⊢
  refine ⟨_, rfl, rfl, ?_, rfl⟩
  simp only [propagate_program_counter]
  omega

theorem Undoing.current_instr (h : Undoing start prog j) (hcompleted : Completed start k) (hj : j < k) :
    ∃ opcode, prog.current_instr = some opcode ∧ opcode ≠ op_past_table := by
  have hlt : j < start.instructions.length := Nat.lt_of_lt_of_le hj hcompleted.within
  refine ⟨start.instructions[j], ?_, fun hpast => hcompleted.in_table ?_⟩
  · rw [current_instr_of_counter h.counter, h.instructions, getElem?_eq_getElem hlt]
  rw [← hpast, mem_take_iff_getElem]
  exact ⟨j, by omega, rfl⟩

theorem Undoing.treat_retval (h : Undoing start prog j) (log : List Event) (retval : Retval) :
    ∃ slot, prog.treat_retval retval log = some slot ∧ inversions slot.log = inversions log ∧
      (retval = .error ∨ retval = .finished → slot.control = .absent) ∧
      (retval = .wait_and_repeat → ∃ next, slot.control = .executing next ∧ Undoing start next j) ∧
      (retval = .next ∨ retval = .wait_and_next →
        (j = 0 ∧ slot.control = .absent) ∨
          ∃ i next, j = i + 1 ∧ slot.control = .executing next ∧ Undoing start next i) := by
  have hended : ∀ event, event.is_inversion = false → inversions (log ++ [event]) = inversions log := by
    intro event hevent
    rw [inversions_append, inversions, inversions, filter_cons_of_neg (by rw [hevent]; exact Bool.false_ne_true)]
    rfl
  have hmoved : ∀ value, ∃ slot,
      ({ prog with last_instr_retval := value } : Program).propagate_program_counter.loop_or_release log = slot ∧
        inversions slot.log = inversions log ∧
        ((j = 0 ∧ slot.control = .absent) ∨
          ∃ i next, j = i + 1 ∧ slot.control = .executing next ∧ Undoing start next i) := by
    intro value
    simp only [propagate_program_counter, h.state, Program.loop_or_release, h.counter]
    cases j with
    | zero =>
      rw [if_neg (by omega)]
      exact ⟨_, rfl, hended _ rfl, Or.inl ⟨rfl, rfl⟩⟩
    | succ i =>
      rw [if_pos (by omega)]
      refine ⟨_, rfl, rfl, Or.inr ⟨i, _, rfl, rfl, rfl, ?_, h.instructions⟩⟩
      show ((i + 1 : Nat) : Int) - 1 = i
      omega
  have hstay : -1 < prog.program_counter := by
    rw [h.counter]
    omega
  cases retval with
  | error =>
    refine ⟨{ log := log ++ [.program_failed_to_abort] }, ?_, hended _ rfl, fun _ => rfl, ?_, ?_⟩
    · simp only [Program.treat_retval, abort_program_with, h.state]
      rfl
    · simp
    · simp
  | finished =>
    refine ⟨_, rfl, ?_, fun _ => rfl, ?_, ?_⟩
    · simp only [release_program, h.state]
      exact hended _ rfl
    · simp
    · simp
  | next =>
    obtain ⟨slot, heq, hlog, hcases⟩ := hmoved .next
    refine ⟨slot, ?_, hlog, ?_, ?_, fun _ => hcases⟩
    · rw [Program.treat_retval, completion, if_neg (by simp [h.state]), List.append_nil]
      exact congrArg some heq
    · simp
    · simp
  | wait_and_next =>
    obtain ⟨slot, heq, hlog, hcases⟩ := hmoved .wait_and_next
    refine ⟨slot, ?_, hlog, ?_, ?_, fun _ => hcases⟩
    · rw [Program.treat_retval, if_pos h.state]
      exact congrArg some heq
    · simp
    · simp
  | wait_and_repeat =>
    refine ⟨{ control := .executing { prog with last_instr_retval := .wait_and_repeat }, log }, ?_, rfl, ?_, ?_, ?_⟩
    · rw [Program.treat_retval, if_pos h.state, Program.loop_or_release, if_pos hstay]
    · simp
    · exact fun _ => ⟨_, rfl, h.state, h.counter, h.instructions⟩
    · simp

theorem Undoing.execute_round (h : Undoing start prog j) (table : OpcodeTable) (log : List Event)
    (hcompleted : Completed start k) (hj : j < k) (retval : Retval) :
    (∃ slot, returned table retval prog = none ∧ prog.execute_round table retval log = some slot ∧
        slot.control = .absent ∧ inversions slot.log = inversions log) ∨
      ∃ handler : Handler, returned table retval prog = some (handler.answer retval) ∧
        prog.execute_round table retval log = prog.treat_retval (handler.answer retval) (log ++ [.inverted j]) := by
  obtain ⟨opcode, hinstr, hpast⟩ := h.current_instr hcompleted hj
  cases hhandler : prog.get_handler table opcode with
  | none =>
    refine Or.inl ⟨{ log := log ++ [.program_failed_to_abort] }, ?_, ?_, rfl, ?_⟩
    · rw [returned, hinstr, bind_some, hhandler]
      rfl
    · simp only [Program.execute_round, hinstr, bind_some, if_neg hpast, hhandler, Program.treat_retval,
        abort_program_with, h.state]
      rfl
    rw [inversions_append]
    rfl
  | some handler =>
    have hcall : prog.call_event = .inverted j := by
      rw [call_event, if_pos h.state, Program.index, h.counter, Int.toNat_natCast]
    refine Or.inr ⟨handler, returned_eq hinstr hhandler retval, ?_⟩
    rw [execute_round_eq hinstr hpast hhandler, hcall]

theorem inversions_call (log : List Event) (j : Nat) : inversions (log ++ [.inverted j]) = inversions log + 1 := by
  rw [inversions_append]
  rfl

variable {retval : Retval}

theorem answer_ne_repeat (h : retval ≠ .wait_and_repeat) (handler : Handler) :
    handler.answer retval ≠ .wait_and_repeat := by
  cases handler with
  | custom => exact h
  | end_handler => exact nofun
  | nop_handler => exact nofun
  | invalid_handler => exact nofun
  | inv_handler_dummy => exact nofun

/-- After `n` rounds the program is gone, or `n` instructions were undone. -/
def Descending (start : Program) (k calls n : Nat) (slot : Slot) : Prop :=
  slot.control = .absent ∧ inversions slot.log ≤ calls + n ∨
    ∃ current j, slot.control = .executing current ∧ Undoing start current j ∧ j + n + 1 = k ∧
      inversions slot.log = calls + n

theorem Descending.round (hcompleted : Completed start k) {calls n : Nat} {slot : Slot}
    (h : Descending start k calls n slot) (hanswer : answers n ≠ .wait_and_repeat)
    (hrounds : abort_rounds table answers finish_current_step start log n = some slot) :
    ∃ next, abort_rounds table answers finish_current_step start log (n + 1) = some next ∧
      Descending start k calls (n + 1) next := by
  obtain ⟨first, habort, hfirst⟩ := bind_eq_some_iff.mp hrounds
  have hnext : abort_rounds table answers finish_current_step start log (n + 1) =
      match slot.control with
      | .executing prog => prog.execute_round table (answers n) slot.log
      | _ => some slot := by
    rw [abort_rounds, habort, bind_some, rounds, hfirst]
    rfl
  rw [hnext]
  obtain ⟨habsent, hcalls⟩ | ⟨current, j, hexecuting, hundoing, hj, hcalls⟩ := h
  · rw [habsent]
    exact ⟨slot, rfl, Or.inl ⟨habsent, by omega⟩⟩
  rw [hexecuting]
  obtain ⟨next, _, hround, habsent, hlog⟩ | ⟨handler, _, hround⟩ :=
    hundoing.execute_round table slot.log hcompleted (by omega) (answers n)
  · exact ⟨next, hround, Or.inl ⟨habsent, by omega⟩⟩
  obtain ⟨next, htreat, hlog, hended, _, hmoved⟩ :=
    hundoing.treat_retval (slot.log ++ [.inverted j]) (handler.answer (answers n))
  rw [inversions_call] at hlog
  refine ⟨next, hround.trans htreat, ?_⟩
  have hrepeat := answer_ne_repeat hanswer handler
  cases hvalue : handler.answer (answers n) with
  | error => exact Or.inl ⟨hended (Or.inl hvalue), by omega⟩
  | finished => exact Or.inl ⟨hended (Or.inr hvalue), by omega⟩
  | wait_and_repeat => exact absurd hvalue hrepeat
  | next =>
    obtain ⟨_, habsent⟩ | ⟨i, after, hi, hcontrol, hafter⟩ := hmoved (Or.inl hvalue)
    · exact Or.inl ⟨habsent, by omega⟩
    · exact Or.inr ⟨after, i, hcontrol, hafter, by omega, by omega⟩
  | wait_and_next =>
    obtain ⟨_, habsent⟩ | ⟨i, after, hi, hcontrol, hafter⟩ := hmoved (Or.inr hvalue)
    · exact Or.inl ⟨habsent, by omega⟩
    · exact Or.inr ⟨after, i, hcontrol, hafter, by omega, by omega⟩

theorem abort_rounds_zero (table : OpcodeTable) (answers : Nat → Retval) (log : List Event) (hstate : start.state = .ok) (hcounter : stop_counter finish_current_step start + 1 = k)
    (hpos : 0 < k) :
    ∃ slot current, abort_rounds table answers finish_current_step start log 0 = some slot ∧
      slot.control = .executing current ∧ Undoing start current (k - 1) ∧ inversions slot.log = inversions log := by
  obtain ⟨current, habort, hcurrent, hprogram, hinstructions⟩ := abort_program_with_eq log hstate hcounter
  refine ⟨{ control := .executing current, log := log ++ [.stopped] }, current, ?_, rfl,
    ⟨hcurrent, by omega, hinstructions⟩, ?_⟩
  · rw [abort_rounds, habort, bind_some, rounds]
  rw [inversions_append]
  rfl

theorem ends_of_no_repeat (hstate : start.state = .ok)
    (hcounter : stop_counter finish_current_step start + 1 = k) (hcompleted : Completed start k) (hpos : 0 < k)
    (hanswers : ∀ i < k, answers i ≠ .wait_and_repeat) :
    EndsWithin table answers finish_current_step start log k := by
  have hdescend : ∀ n ≤ k, ∃ slot, abort_rounds table answers finish_current_step start log n = some slot ∧
      Descending start k (inversions log) n slot := by
    intro n hn
    induction n with
    | zero =>
      obtain ⟨slot, current, hrounds, hcontrol, hundoing, hlog⟩ :=
        abort_rounds_zero table answers log hstate hcounter hpos
      exact ⟨slot, hrounds, Or.inr ⟨current, k - 1, hcontrol, hundoing, by omega, hlog⟩⟩
    | succ n ih =>
      obtain ⟨slot, hrounds, hdescending⟩ := ih (by omega)
      exact hdescending.round hcompleted (hanswers n (by omega)) hrounds
  obtain ⟨slot, hrounds, ⟨habsent, hcalls⟩ | ⟨current, j, _, _, hj, _⟩⟩ := hdescend k (Nat.le_refl k)
  · exact ⟨k, slot, hrounds, habsent, hcalls⟩
  · omega

theorem abort_rounds_succ (n : Nat) : abort_rounds table answers finish_current_step start log (n + 1) =
      (abort_rounds table answers finish_current_step start log n).bind fun slot =>
        match slot.control with
        | .executing prog => prog.execute_round table (answers n) slot.log
        | _ => some slot := by
  rw [abort_rounds, abort_rounds, bind_assoc]
  rfl

theorem treat_retval_grows {slot : Slot} (h : prog.treat_retval retval log = some slot) :
    log <+: slot.log := by
  cases retval with
  | error =>
    rw [Program.treat_retval, abort_program_with] at h
    split at h <;> cases h
    · exact prefix_append _ _
    · exact prefix_append _ _
  | next =>
    rw [Program.treat_retval, some.injEq] at h
    subst h
    have hcompletion := prefix_append log prog.completion
    rw [Program.loop_or_release]
    split
    · exact hcompletion
    · exact hcompletion.trans (prefix_append _ _)
  | finished =>
    rw [Program.treat_retval, some.injEq] at h
    subst h
    exact prefix_append _ _
  | wait_and_next =>
    rw [Program.treat_retval] at h
    split at h <;> cases h
    · rw [Program.loop_or_release]
      split
      · exact prefix_rfl
      · exact prefix_append _ _
    · exact prefix_rfl
  | wait_and_repeat =>
    rw [Program.treat_retval] at h
    split at h <;> cases h
    · rw [Program.loop_or_release]
      split
      · exact prefix_rfl
      · exact prefix_append _ _
    · exact prefix_rfl

theorem execute_round_grows {slot : Slot} (h : prog.execute_round table retval log = some slot) :
    log <+: slot.log := by
  obtain ⟨opcode, _, hround⟩ := bind_eq_some_iff.mp h
  split at hround
  · cases hround
  split at hround
  · exact treat_retval_grows hround
  · exact (prefix_append _ _).trans (treat_retval_grows hround)

theorem inversions_mono {rest : List Event} (h : log <+: rest) : inversions log ≤ inversions rest := by
  obtain ⟨tail, rfl⟩ := h
  rw [inversions_append]
  omega

theorem abort_rounds_mono {n : Nat} {slot : Slot}
    (h : abort_rounds table answers finish_current_step start log n = some slot) (m : Nat) {later : Slot}
    (hlater : abort_rounds table answers finish_current_step start log (n + m) = some later) :
    inversions slot.log ≤ inversions later.log := by
  induction m generalizing later with
  | zero =>
    rw [Nat.add_zero, h, some.injEq] at hlater
    rw [hlater]
  | succ m ih =>
    rw [← Nat.add_assoc, abort_rounds_succ] at hlater
    obtain ⟨before, hbefore, hround⟩ := bind_eq_some_iff.mp hlater
    have hle := ih hbefore
    split at hround
    · exact Nat.le_trans hle (inversions_mono (execute_round_grows hround))
    cases hround
    exact hle

theorem standing (hstate : start.state = .ok) (hcounter : stop_counter finish_current_step start + 1 = k)
    (hcompleted : Completed start k) (hreturns : Returns table answers finish_current_step start log) (n : Nat)
    (hgoing : ∀ i < n, answers i ≠ .error ∧ answers i ≠ .finished)
    (hcount : Nat.count (fun i => answers i ≠ .wait_and_repeat) n < k) :
    ∃ slot current j, abort_rounds table answers finish_current_step start log n = some slot ∧
      slot.control = .executing current ∧ Undoing start current j ∧
      j + Nat.count (fun i => answers i ≠ .wait_and_repeat) n + 1 = k ∧
      inversions slot.log = inversions log + n := by
  induction n with
  | zero =>
    obtain ⟨slot, current, hrounds, hcontrol, hundoing, hlog⟩ :=
      abort_rounds_zero table answers log hstate hcounter (by omega)
    refine ⟨slot, current, k - 1, hrounds, hcontrol, hundoing, ?_, hlog⟩
    rw [Nat.count_zero]
    omega
  | succ n ih =>
    rw [Nat.count_succ] at hcount
    obtain ⟨slot, current, j, hrounds, hcontrol, hundoing, hj, hlog⟩ :=
      ih (fun i hi => hgoing i (by omega)) (by omega)
    obtain ⟨herror, hfinished⟩ := hgoing n (by omega)
    have hreturned := hreturns n slot current hrounds hcontrol
    have hnext : abort_rounds table answers finish_current_step start log (n + 1) =
        current.execute_round table (answers n) slot.log := by
      rw [abort_rounds_succ, hrounds, bind_some, hcontrol]
    obtain ⟨_, hnone, _⟩ | ⟨handler, hhandler, hround⟩ :=
      hundoing.execute_round table slot.log hcompleted (by omega) (answers n)
    · rw [hnone] at hreturned
      cases hreturned
    rw [hreturned, some.injEq] at hhandler
    obtain ⟨next, htreat, hcalls, _, hrepeat, hmoved⟩ :=
      hundoing.treat_retval (slot.log ++ [.inverted j]) (handler.answer (answers n))
    rw [← hhandler] at hrepeat hmoved
    rw [inversions_call] at hcalls
    have hrounds' := hnext.trans (hround.trans htreat)
    rw [Nat.count_succ]
    by_cases hvalue : answers n = .wait_and_repeat
    · obtain ⟨after, hafter, hundoing'⟩ := hrepeat hvalue
      rw [if_neg (not_not.mpr hvalue)]
      exact ⟨next, after, j, hrounds', hafter, hundoing', by omega, by omega⟩
    rw [if_pos hvalue] at hcount ⊢
    have hmoves : answers n = .next ∨ answers n = .wait_and_next := by
      cases hanswer : answers n with
      | next => exact Or.inl rfl
      | wait_and_next => exact Or.inr rfl
      | error => exact absurd hanswer herror
      | finished => exact absurd hanswer hfinished
      | wait_and_repeat => exact absurd hanswer hvalue
    obtain ⟨hzero, _⟩ | ⟨i, after, hi, hafter, hundoing'⟩ := hmoved hmoves
    · omega
    · exact ⟨next, after, i, hrounds', hafter, hundoing', by omega, by omega⟩

theorem count_lt_of_not {p : Nat → Prop} [DecidablePred p] {i n : Nat} (hi : i < n) (hp : ¬ p i) : Nat.count p n < n := by
  obtain ⟨m, rfl⟩ := Nat.exists_eq_add_of_lt hi
  have hsplit : Nat.count p (i + m + 1) = Nat.count p i + Nat.count (fun l => p (i + 1 + l)) m := by
    rw [Nat.add_right_comm, Nat.count_add, Nat.count_succ, if_neg hp, Nat.add_zero]
  have hfirst := Nat.count_le (p := p) (n := i)
  have hrest := Nat.count_le (p := fun l => p (i + 1 + l)) (n := m)
  omega

section

variable (hstate : start.state = .ok)

include hstate

theorem undoing_of_executing
    (hcounter : stop_counter finish_current_step start + 1 = k) (hcompleted : Completed start k) (hpos : 0 < k)
    {n : Nat} {slot : Slot} (hrounds : abort_rounds table answers finish_current_step start log n = some slot)
    {current : Program} (hcontrol : slot.control = .executing current) : ∃ j < k, Undoing start current j := by
  induction n generalizing slot current with
  | zero =>
    obtain ⟨first, found, hfirst, hfound, hundoing, _⟩ := abort_rounds_zero table answers log hstate hcounter hpos
    rw [hrounds, some.injEq] at hfirst
    rw [hfirst, hfound, Control.executing.injEq] at hcontrol
    exact ⟨k - 1, by omega, hcontrol ▸ hundoing⟩
  | succ n ih =>
    rw [abort_rounds_succ] at hrounds
    obtain ⟨before, hbefore, hround⟩ := bind_eq_some_iff.mp hrounds
    split at hround
    · rename_i prog hexecuting
      obtain ⟨j, hj, hundoing⟩ := ih hbefore hexecuting
      obtain ⟨next, _, hnext, habsent, _⟩ | ⟨handler, _, hnext⟩ :=
        hundoing.execute_round table before.log hcompleted hj (answers n)
      · rw [hround, some.injEq] at hnext
        rw [hnext, habsent] at hcontrol
        cases hcontrol
      obtain ⟨next, htreat, _, hended, hrepeat, hmoved⟩ :=
        hundoing.treat_retval (before.log ++ [.inverted j]) (handler.answer (answers n))
      rw [hround, htreat, some.injEq] at hnext
      subst hnext
      have hstill : (∃ after, slot.control = .executing after ∧ Undoing start after j) →
          ∃ i < k, Undoing start current i := by
        rintro ⟨after, hafter, hundoing'⟩
        rw [hcontrol, Control.executing.injEq] at hafter
        exact ⟨j, hj, hafter ▸ hundoing'⟩
      have hdown : ((j = 0 ∧ slot.control = .absent) ∨
          ∃ i after, j = i + 1 ∧ slot.control = .executing after ∧ Undoing start after i) →
            ∃ i < k, Undoing start current i := by
        rintro (⟨_, habsent⟩ | ⟨i, after, hi, hafter, hundoing'⟩)
        · rw [habsent] at hcontrol
          cases hcontrol
        rw [hcontrol, Control.executing.injEq] at hafter
        exact ⟨i, by omega, hafter ▸ hundoing'⟩
      cases hvalue : handler.answer (answers n) with
      | error =>
        rw [hended (Or.inl hvalue)] at hcontrol
        cases hcontrol
      | finished =>
        rw [hended (Or.inr hvalue)] at hcontrol
        cases hcontrol
      | wait_and_repeat => exact hstill (hrepeat hvalue)
      | next => exact hdown (hmoved (Or.inl hvalue))
      | wait_and_next => exact hdown (hmoved (Or.inr hvalue))
    · cases hround
      exact ih hbefore hcontrol

theorem returns_of_user (hcounter : stop_counter finish_current_step start + 1 = k)
    (hcompleted : Completed start k) (hpos : 0 < k)
    (huser : ∀ opcode ∈ start.instructions.take k, opcode ≠ op_invalid ∧ (table opcode).inv_handler = some .custom) :
    Returns table answers finish_current_step start log := by
  intro n slot current hrounds hcontrol
  obtain ⟨j, hj, hundoing⟩ := undoing_of_executing hstate hcounter hcompleted hpos hrounds hcontrol
  have hlt : j < start.instructions.length := Nat.lt_of_lt_of_le hj hcompleted.within
  have hmem : start.instructions[j] ∈ start.instructions.take k := by
    rw [mem_take_iff_getElem]
    exact ⟨j, by omega, rfl⟩
  obtain ⟨hvalid, hinverse⟩ := huser _ hmem
  have hinstr : current.current_instr = some start.instructions[j] := by
    rw [current_instr_of_counter hundoing.counter, hundoing.instructions, getElem?_eq_getElem hlt]
  have hhandler : current.get_handler table start.instructions[j] = some .custom := by
    rw [get_handler, if_neg hvalid]
    simp only [hundoing.state, hinverse]
  exact returned_eq hinstr hhandler (answers n)

theorem ends_of_ended (hcounter : stop_counter finish_current_step start + 1 = k)
    (hcompleted : Completed start k) (hreturns : Returns table answers finish_current_step start log)
    (hended : ∃ i < k, answers i = .error ∨ answers i = .finished) :
    EndsWithin table answers finish_current_step start log k := by
  have hfind : ∃ i, answers i = .error ∨ answers i = .finished := hended.imp fun _ h => h.2
  obtain ⟨i, hi, hanswer⟩ := hended
  have hfirst := Nat.find_min' hfind hanswer
  have hvalue := Nat.find_spec hfind
  have hgoing : ∀ n < Nat.find hfind, answers n ≠ .error ∧ answers n ≠ .finished :=
    fun n hn => not_or.mp (Nat.find_min hfind hn)
  generalize Nat.find hfind = n at hfirst hvalue hgoing
  obtain ⟨slot, current, j, hrounds, hcontrol, hundoing, hj, hlog⟩ := standing hstate hcounter hcompleted hreturns n hgoing
    (Nat.lt_of_le_of_lt (Nat.count_le _) (Nat.lt_of_le_of_lt hfirst hi))
  have hreturned := hreturns n slot current hrounds hcontrol
  obtain ⟨_, hnone, _⟩ | ⟨handler, hhandler, hround⟩ :=
    hundoing.execute_round table slot.log hcompleted (by omega) (answers n)
  · rw [hnone] at hreturned
    cases hreturned
  rw [hreturned, some.injEq] at hhandler
  obtain ⟨next, htreat, hcalls, habsent, _⟩ :=
    hundoing.treat_retval (slot.log ++ [.inverted j]) (handler.answer (answers n))
  rw [← hhandler] at habsent
  rw [inversions_call] at hcalls
  refine ⟨n + 1, next, ?_, habsent hvalue, by omega⟩
  rw [abort_rounds_succ, hrounds, bind_some, hcontrol]
  exact hround.trans htreat

theorem ends_iff (hcounter : stop_counter finish_current_step start + 1 = k)
    (hcompleted : Completed start k) (hpos : 0 < k) (hreturns : Returns table answers finish_current_step start log) :
    EndsWithin table answers finish_current_step start log k ↔
      (∀ i < k, answers i ≠ .wait_and_repeat) ∨ ∃ i < k, answers i = .error ∨ answers i = .finished := by
  constructor
  · rintro ⟨n, last, hlast, habsent, hcalls⟩
    by_contra hnot
    rw [not_or] at hnot
    obtain ⟨hrepeats, hgoes⟩ := hnot
    push Not at hrepeats hgoes
    obtain ⟨i, hi, hrepeat⟩ := hrepeats
    have hcount : Nat.count (fun i => answers i ≠ .wait_and_repeat) k < k := count_lt_of_not hi (not_not.mpr hrepeat)
    have hstanding := fun m (hm : m ≤ k) => standing hstate hcounter hcompleted hreturns m
      (fun l hl => hgoes l (by omega)) (Nat.lt_of_le_of_lt (Nat.count_monotone _ hm) hcount)
    by_cases hn : n ≤ k
    · obtain ⟨slot, current, j, hrounds, hcontrol, _⟩ := hstanding n hn
      rw [hlast, some.injEq] at hrounds
      rw [← hrounds, habsent] at hcontrol
      cases hcontrol
    obtain ⟨slot, current, j, hrounds, hcontrol, hundoing, hj, hlog⟩ := hstanding k (Nat.le_refl k)
    have hreturned := hreturns k slot current hrounds hcontrol
    obtain ⟨_, hnone, _⟩ | ⟨handler, _, hround⟩ :=
      hundoing.execute_round table slot.log hcompleted (by omega) (answers k)
    · rw [hnone] at hreturned
      cases hreturned
    -- one call more than there were instructions
    obtain ⟨next, htreat, hmore, _⟩ :=
      hundoing.treat_retval (slot.log ++ [.inverted j]) (handler.answer (answers k))
    rw [inversions_call] at hmore
    have hnext : abort_rounds table answers finish_current_step start log (k + 1) = some next := by
      rw [abort_rounds_succ, hrounds, bind_some, hcontrol]
      exact hround.trans htreat
    obtain ⟨m, rfl⟩ := Nat.exists_eq_add_of_le (Nat.lt_of_not_le hn)
    have hle := abort_rounds_mono hnext m hlast
    omega
  · rintro (hnone | hended)
    · exact ends_of_no_repeat hstate hcounter hcompleted hpos hnone
    · exact ends_of_ended hstate hcounter hcompleted hreturns hended

theorem not_ends_zero (hcounter : stop_counter finish_current_step start + 1 = 0) :
    ¬ EndsWithin table answers finish_current_step start log 0 := by
  rintro ⟨n, last, hlast, habsent, _⟩
  obtain ⟨current, habort, _, hprogram, _⟩ := abort_program_with_eq (k := 0) log hstate hcounter
  have hzero : abort_rounds table answers finish_current_step start log 0 =
      some { control := .executing current, log := log ++ [.stopped] } := by
    rw [abort_rounds, habort, bind_some, rounds]
  have hinstr : current.current_instr = none := by rw [Program.current_instr, if_neg (by omega)]
  have hone : ∀ m, abort_rounds table answers finish_current_step start log (m + 1) = none := by
    intro m
    induction m with
    | zero =>
      rw [abort_rounds_succ, hzero, bind_some]
      simp only [Program.execute_round, hinstr, bind_none]
    | succ m ih => rw [abort_rounds_succ, ih, bind_none]
  cases n with
  | zero =>
    rw [hzero, some.injEq] at hlast
    rw [← hlast] at habsent
    cases habsent
  | succ m =>
    rw [hone m] at hlast
    cases hlast

end

/-- A program that is aborted goes on or is gone. -/
def Unwaiting (slot : Slot) : Prop :=
  slot.control = .absent ∨ ∃ current, slot.control = .executing current ∧ current.state = .aborting

theorem unwaiting_loop_or_release (hstate : prog.state = .aborting) : Unwaiting (prog.loop_or_release log) := by
  rw [Program.loop_or_release]
  split
  · exact Or.inr ⟨prog, rfl, hstate⟩
  · exact Or.inl rfl

theorem treat_retval_unwaiting (hstate : prog.state = .aborting) {slot : Slot}
    (h : prog.treat_retval retval log = some slot) : Unwaiting slot := by
  have hpropagated : ∀ value, ({ prog with last_instr_retval := value } : Program).propagate_program_counter.state =
      .aborting := by
    intro value
    simp only [propagate_program_counter, hstate]
  cases retval with
  | error =>
    simp only [Program.treat_retval, abort_program_with, hstate, some.injEq] at h
    exact Or.inl (h ▸ rfl)
  | next =>
    rw [Program.treat_retval, some.injEq] at h
    exact h ▸ unwaiting_loop_or_release (hpropagated _)
  | finished =>
    rw [Program.treat_retval, some.injEq] at h
    exact Or.inl (h ▸ rfl)
  | wait_and_next =>
    rw [Program.treat_retval, if_pos hstate, some.injEq] at h
    exact h ▸ unwaiting_loop_or_release (hpropagated _)
  | wait_and_repeat =>
    rw [Program.treat_retval, if_pos hstate, some.injEq] at h
    exact h ▸ unwaiting_loop_or_release hstate

theorem abort_rounds_unwaiting {n : Nat} {slot : Slot}
    (h : abort_rounds table answers finish_current_step prog log n = some slot) : Unwaiting slot := by
  induction n generalizing slot with
  | zero =>
    obtain ⟨first, habort, hfirst⟩ := bind_eq_some_iff.mp h
    rw [rounds, some.injEq] at hfirst
    subst hfirst
    rw [abort_program_with] at habort
    split at habort
    · cases habort
      exact Or.inl rfl
    · cases habort
      refine Or.inr ⟨_, rfl, ?_⟩
      split <;> rfl
    · cases habort
  | succ n ih =>
    rw [abort_rounds_succ] at h
    obtain ⟨before, hbefore, hround⟩ := bind_eq_some_iff.mp h
    obtain habsent | ⟨current, hexecuting, hstate⟩ := ih hbefore
    · rw [habsent] at hround
      cases hround
      exact Or.inl habsent
    rw [hexecuting] at hround
    obtain ⟨opcode, _, hcall⟩ := bind_eq_some_iff.mp hround
    split at hcall
    · cases hcall
    split at hcall
    · exact treat_retval_unwaiting hstate hcall
    · exact treat_retval_unwaiting hstate hcall

/-- A program is never waiting while it is aborted. With at least one completed
    instruction the abort returns in time when no inverse handler asks to be repeated,
    and, where every instruction has an inverse handler, if and only if none does so
    among the first `k` calls or one of these ends the program. With no completed
    instruction it reads from in front of the list. -/
theorem abort_ends_when {prog : Program} (hstate : prog.state = .ok) {k : Nat}
    (hcounter : stop_counter finish_current_step prog + 1 = k) (hcompleted : Completed prog k)
    (answers : Nat → Retval) :
    (∀ n slot, abort_rounds table answers finish_current_step prog log n = some slot →
      ∀ current, slot.control ≠ .waiting current) ∧
    (k = 0 → ¬ EndsWithin table answers finish_current_step prog log k) ∧
    (0 < k → (∀ i < k, answers i ≠ .wait_and_repeat) → EndsWithin table answers finish_current_step prog log k) ∧
    (0 < k → Returns table answers finish_current_step prog log →
      (EndsWithin table answers finish_current_step prog log k ↔
        (∀ i < k, answers i ≠ .wait_and_repeat) ∨ ∃ i < k, answers i = .error ∨ answers i = .finished)) := by
  refine ⟨fun n slot hrounds current hwaiting => ?_, fun hzero => ?_, fun hpos => ?_, fun hpos hreturns => ?_⟩
  · obtain habsent | ⟨other, hexecuting, _⟩ := abort_rounds_unwaiting hrounds
    · rw [habsent] at hwaiting
      cases hwaiting
    · rw [hexecuting] at hwaiting
      cases hwaiting
  · subst hzero
    exact not_ends_zero hstate hcounter
  · exact ends_of_no_repeat hstate hcounter hcompleted hpos
  · exact ends_iff hstate hcounter hcompleted hpos hreturns

/-- An opcode with handlers of a user. -/
def user_opcodes : OpcodeTable :=
  registered_opcodes [{ opcode := 1, symbol := some "go", handler := some .custom, inv_handler := some .custom }]

def two_done : Program := { instructions := [1, 1, 1, op_end], program_counter := 2, last_instr_retval := .wait_and_repeat }

theorem two_done_completed : Completed two_done 2 := ⟨by decide, by decide⟩

theorem abort_ends_when_two_done : EndsWithin user_opcodes (fun _ => .wait_and_next) false two_done [] 2 :=
  (@abort_ends_when user_opcodes false [] two_done rfl 2 (by decide) two_done_completed
    (fun _ => .wait_and_next)).2.2.1 (by decide) (fun _ _ => nofun)

/-- An inverse handler that asks to be repeated is called again and again. -/
theorem abort_repeats :
    ¬ ∀ (table : OpcodeTable) (prog : Program) (k : Nat), prog.state = .ok → stop_counter false prog + 1 = k →
      0 < k → Completed prog k → ∀ answers, EndsWithin table answers false prog [] k := by
  intro h
  have hcounter : stop_counter false two_done + 1 = (2 : Nat) := by decide
  have hends := h user_opcodes two_done 2 rfl hcounter (by decide) two_done_completed fun _ => .wait_and_repeat
  have hreturns : Returns user_opcodes (fun _ => .wait_and_repeat) false two_done [] := by
    apply returns_of_user rfl hcounter two_done_completed (by decide)
    intro opcode hmem
    obtain rfl : opcode = 1 := by
      have htake : two_done.instructions.take 2 = [1, 1] := rfl
      rw [htake] at hmem
      simpa using hmem
    exact ⟨by decide, rfl⟩
  obtain hnone | ⟨i, _, hended⟩ := (ends_iff rfl hcounter two_done_completed (by decide) hreturns).mp hends
  · exact hnone 0 (by decide) rfl
  · obtain hvalue | hvalue := hended <;> cases hvalue

end openvocs.vm
