import Mathlib.Data.List.Range
import Openvocs.Vm.Program

open List Option

namespace openvocs.vm

open Function Program

/-- What `ov_vm_create` and `ov_vm_register` make of the table. -/
structure Installed (table : OpcodeTable) : Prop where
  end_def : table op_end = { handler := some .end_handler }
  nop_def : table op_nop = { handler := some .nop_handler }
  past : (table op_past_table).handler = none
  invertible : ∀ opcode, opcode ≠ op_end → opcode ≠ op_nop → opcode ≠ op_invalid →
    (table opcode).handler.isSome → (table opcode).inv_handler.isSome

theorem Installed.standard_opcodes : Installed standard_opcodes where
  end_def := rfl
  nop_def := rfl
  past := rfl
  invertible opcode hend hnop hinvalid h := by simp [vm.standard_opcodes, hend, hnop, hinvalid] at h

theorem Installed.ov_vm_register {table : OpcodeTable} (h : Installed table) (registration : Registration) :
    Installed (ov_vm_register table registration) := by
  unfold vm.ov_vm_register
  by_cases hpast : registration.opcode = op_past_table
  · rwa [if_pos hpast]
  rw [if_neg hpast]
  by_cases hreserved : registration.opcode = op_end ∨ registration.opcode = op_nop
  · rwa [if_pos hreserved]
  rw [if_neg hreserved]
  obtain ⟨hend, hnop⟩ := not_or.mp hreserved
  split
  · refine ⟨?_, ?_, ?_, fun opcode hopcode hopcode' hinvalid => ?_⟩
    · rw [update_of_ne (Ne.symm hend), h.end_def]
    · rw [update_of_ne (Ne.symm hnop), h.nop_def]
    · rw [update_of_ne (Ne.symm hpast), h.past]
    by_cases hsame : opcode = registration.opcode
    · simp [hsame]
    rw [update_of_ne hsame]
    exact h.invertible opcode hopcode hopcode' hinvalid
  · exact h

theorem Installed.registered_opcodes (registrations : List Registration) :
    Installed (registered_opcodes registrations) := by
  unfold vm.registered_opcodes
  have hfold : ∀ table, Installed table → Installed (registrations.foldl vm.ov_vm_register table) := by
    induction registrations with
    | nil => exact fun _ h => h
    | cons registration rest ih => exact fun table h => ih _ (h.ov_vm_register registration)
  exact hfold _ Installed.standard_opcodes

/-- The opcode is one that users have registered. -/
def Registered (table : OpcodeTable) (opcode : Opcode) : Prop :=
  opcode ≠ op_end ∧ opcode ≠ op_nop ∧ opcode ≠ op_invalid ∧ (table opcode).handler.isSome

instance (table : OpcodeTable) (opcode : Opcode) : Decidable (Registered table opcode) :=
  inferInstanceAs (Decidable (_ ∧ _))

/-- A list of instructions that ends in `OP_END`, over registered opcodes and `OP_NOP`. -/
def WellFormed (table : OpcodeTable) (instructions : List Opcode) : Prop :=
  instructions.getLast? = some op_end ∧
    ∀ opcode ∈ instructions, opcode = op_end ∨ opcode = op_nop ∨ Registered table opcode

instance (table : OpcodeTable) (instructions : List Opcode) : Decidable (WellFormed table instructions) :=
  inferInstanceAs (Decidable (_ ∧ _))

/-- The instructions that were completed, in the order in which they were. -/
def completions (log : List Event) : List Nat :=
  log.filterMap fun
    | .completed index => some index
    | _ => none

@[simp] theorem completions_append (log rest : List Event) :
    completions (log ++ rest) = completions log ++ completions rest := by
  simp [completions]

/-- The events of a program that runs forwards. -/
def Event.is_forward : Event → Bool
  | .invoked _ => true
  | .completed _ => true
  | _ => false

/-- The calls of the inverses of the first instructions, the last one first. -/
def inverses : Nat → List Event
  | 0 => []
  | k + 1 => .inverted k :: inverses k

/-- The value that the handler of the current instruction returns, if it has one. -/
def returned (table : OpcodeTable) (retval : Retval) (prog : Program) : Option Retval :=
  prog.current_instr.bind fun opcode => (prog.get_handler table opcode).map (Handler.answer retval)

/-- The lists of instructions are well formed, nothing but its handlers happens to a
    program that executes, an abort stops the current step, and no inverse handler fails. -/
def Allowed (table : OpcodeTable) (slot : Slot) (action : Action) : Prop :=
  match slot.control, action with
  | .absent, .trigger instructions _ => WellFormed table instructions
  | .executing prog, .execute retval => prog.state = .aborting → returned table retval prog ≠ some .error
  | .executing _, _ => False
  | _, .execute _ => False
  | _, .abort finish_current_step => finish_current_step = false
  | _, _ => True

instance (table : OpcodeTable) (slot : Slot) (action : Action) : Decidable (Allowed table slot action) :=
  match slot, action with
  | ⟨.absent, _⟩, .trigger instructions _ => inferInstanceAs (Decidable (WellFormed table instructions))
  | ⟨.executing _, _⟩, .execute _ => inferInstanceAs (Decidable (_ → _))
  | ⟨.executing _, _⟩, .trigger _ _ => isFalse id
  | ⟨.executing _, _⟩, .resume => isFalse id
  | ⟨.executing _, _⟩, .abort _ => isFalse id
  | ⟨.executing _, _⟩, .timeout => isFalse id
  | ⟨.absent, _⟩, .execute _ => isFalse id
  | ⟨.waiting _, _⟩, .execute _ => isFalse id
  | ⟨.absent, _⟩, .abort _ => inferInstanceAs (Decidable (_ = _))
  | ⟨.waiting _, _⟩, .abort _ => inferInstanceAs (Decidable (_ = _))
  | ⟨.waiting _, _⟩, .trigger _ _ => isTrue trivial
  | ⟨.absent, _⟩, .resume => isTrue trivial
  | ⟨.waiting _, _⟩, .resume => isTrue trivial
  | ⟨.absent, _⟩, .timeout => isTrue trivial
  | ⟨.waiting _, _⟩, .timeout => isTrue trivial

/-- The program that the action stops. -/
def stopping (table : OpcodeTable) (slot : Slot) (action : Action) : Option Program :=
  match slot.control, action with
  | .waiting prog, .abort _ => some prog
  | .waiting prog, .timeout => some prog
  | .executing prog, .execute retval =>
    if prog.state = .ok ∧ returned table retval prog = some .error then some prog else none
  | _, _ => none

/-- At least one instruction was completed, and each that was has an inverse. -/
def Reversible (log : List Event) (prog : Program) : Prop :=
  completions log ≠ [] ∧ op_nop ∉ prog.instructions.take (completions log).length

instance (log : List Event) (prog : Program) : Decidable (Reversible log prog) :=
  inferInstanceAs (Decidable (_ ∧ _))

/-- The program whose inverse handler is called, and the value that it returns. -/
def inverting (table : OpcodeTable) (slot : Slot) (action : Action) : Option (Program × Retval) :=
  match slot.control, action with
  | .executing prog, .execute retval =>
    if prog.state = .aborting then (returned table retval prog).map (prog, ·) else none
  | _, _ => none

/-- An inverse handler does not ask to be repeated, and only that of the first
    instruction ends the program. -/
def Inverts (prog : Program) (retval : Retval) : Prop :=
  retval ≠ .wait_and_repeat ∧ (retval = .finished → prog.program_counter = 0)

instance (prog : Program) (retval : Retval) : Decidable (Inverts prog retval) :=
  inferInstanceAs (Decidable (_ ∧ _))

/-- The steps that roll back as they should. -/
def Proper (table : OpcodeTable) (slot : Slot) (action : Action) : Prop :=
  Allowed table slot action ∧ (∀ prog ∈ stopping table slot action, Reversible slot.log prog) ∧
    ∀ call ∈ inverting table slot action, Inverts call.1 call.2

instance (table : OpcodeTable) (slot : Slot) (action : Action) : Decidable (Proper table slot action) :=
  inferInstanceAs (Decidable (_ ∧ _))

variable {table : OpcodeTable}

/-- A program that runs forwards and has completed its first `k` instructions. -/
structure Forward (table : OpcodeTable) (prog : Program) (log : List Event) (k : Nat) : Prop where
  well_formed : WellFormed table prog.instructions
  state : prog.state = .ok
  completed : completions log = List.range k
  forwards : ∀ event ∈ log, event.is_forward
  unfinished : op_end ∉ prog.instructions.take k

/-- A program that runs backwards, was stopped after `before`, and is about to call
    the inverse of instruction `i`. -/
structure Backward (table : OpcodeTable) (prog : Program) (log before : List Event) (k i : Nat) : Prop where
  state : prog.state = .aborting
  counter : prog.program_counter = i
  below : i < k
  within : k ≤ prog.instructions.length
  registered : ∀ opcode ∈ prog.instructions.take k, Registered table opcode
  completed : completions before = List.range k
  forwards : ∀ event ∈ before, event.is_forward
  reversed : ∃ after, log = before ++ .stopped :: after ∧ after ++ inverses (i + 1) = inverses k

/-- What a program that was stopped has done in the end. -/
def Reversed (log before : List Event) (k : Nat) : Prop :=
  completions before = List.range k ∧ (∀ event ∈ before, event.is_forward) ∧
    log = before ++ .stopped :: (inverses k ++ [.program_aborted])

/-- What is true of a slot. -/
def Lawful (table : OpcodeTable) (slot : Slot) : Prop :=
  match slot.control with
  | .absent => .stopped ∉ slot.log ∨ ∃ before k, Reversed slot.log before k
  | .waiting prog => ∃ k, Forward table prog slot.log k ∧
    (prog.last_instr_retval = .wait_and_next ∧ prog.program_counter = k + 1 ∧
        op_end ∉ prog.instructions.take (k + 1) ∨
      prog.last_instr_retval = .wait_and_repeat ∧ prog.program_counter = k)
  | .executing prog => (∃ k, Forward table prog slot.log k ∧ prog.program_counter = k) ∨
    ∃ before k i, Backward table prog slot.log before k i

variable {k : Nat}

theorem WellFormed.length_lt {instructions : List Opcode} (h : WellFormed table instructions)
    (hend : op_end ∉ instructions.take k) : k < instructions.length := by
  by_contra hle
  rw [take_of_length_le (by omega)] at hend
  exact hend (mem_of_getLast? h.1)

variable {log : List Event} {prog : Program}

theorem Forward.log_append (h : Forward table prog log k)
    {event : Event} (hforward : event.is_forward = true) (hcompleted : completions [event] = []) :
    Forward table prog (log ++ [event]) k := by
  refine ⟨h.well_formed, h.state, ?_, ?_, h.unfinished⟩
  · rw [completions_append, hcompleted, List.append_nil, h.completed]
  intro other hother
  rw [mem_append, mem_singleton] at hother
  obtain hold | hnew := hother
  · exact h.forwards other hold
  · rw [hnew, hforward]

theorem Forward.congr {prog other : Program} (h : Forward table prog log k)
    (hinstructions : other.instructions = prog.instructions) (hstate : other.state = .ok) :
    Forward table other log k :=
  ⟨hinstructions ▸ h.well_formed, hstate, h.completed, h.forwards, hinstructions ▸ h.unfinished⟩

section

variable (h : Forward table prog log k)

include h

theorem Forward.complete (hend : op_end ∉ prog.instructions.take (k + 1)) :
    Forward table prog (log ++ [.completed k]) (k + 1) := by
  refine ⟨h.well_formed, h.state, ?_, ?_, hend⟩
  · rw [completions_append, h.completed, range_succ]
    rfl
  intro event hevent
  rw [mem_append, mem_singleton] at hevent
  obtain hold | hnew := hevent
  · exact h.forwards event hold
  rw [hnew]
  rfl

theorem Forward.stopped_not_mem : .stopped ∉ log := by
  intro hmem
  have hforward := h.forwards _ hmem
  simp [Event.is_forward] at hforward

theorem Forward.registered (hnop : op_nop ∉ prog.instructions.take k) :
    ∀ opcode ∈ prog.instructions.take k, Registered table opcode := by
  intro opcode hopcode
  obtain hend | hnop' | hregistered := h.well_formed.2 opcode (mem_of_mem_take hopcode)
  · exact absurd (hend ▸ hopcode) h.unfinished
  · exact absurd (hnop' ▸ hopcode) hnop
  · exact hregistered

theorem Forward.abort_program (hreversible : Reversible log prog)
    (hcounter : prog.last_instr_retval = .wait_and_next ∧ prog.program_counter = k + 1 ∨
      prog.last_instr_retval ≠ .wait_and_next ∧ prog.program_counter = k) :
    ∃ slot, prog.abort_program_with false log = some slot ∧ Lawful table slot := by
  obtain ⟨hcompleted, hnop⟩ := hreversible
  rw [h.completed] at hcompleted hnop
  rw [length_range] at hnop
  have hk : 0 < k := by
    by_contra hzero
    have : k = 0 := by omega
    simp [this] at hcompleted
  have hwithin := (h.well_formed.length_lt h.unfinished).le
  have hbackward : ∀ counter : Int, counter = ((k - 1 : Nat) : Int) →
      Lawful table { control := .executing { prog with state := .aborting, program_counter := counter },
                     log := log ++ [.stopped] } := by
    intro counter hvalue
    refine Or.inr ⟨log, k, k - 1, rfl, hvalue, by omega, hwithin, h.registered hnop, h.completed, h.forwards,
      [], by simp, ?_⟩
    rw [Nat.sub_add_cancel hk]
    rfl
  simp only [abort_program_with, h.state]
  obtain ⟨hlast, hpc⟩ | ⟨hlast, hpc⟩ := hcounter
  · rw [if_pos ⟨trivial, hlast⟩]
    refine ⟨_, rfl, hbackward _ ?_⟩
    simp only [propagate_program_counter, hpc]
    omega
  rw [if_neg (fun hboth => hlast hboth.2)]
  refine ⟨_, rfl, hbackward _ ?_⟩
  simp only [hpc]
  omega

end

variable {opcode : Opcode}

theorem Program.execute_round_eq {handler : Handler}
    (hinstr : prog.current_instr = some opcode) (hpast : opcode ≠ op_past_table)
    (hhandler : prog.get_handler table opcode = some handler) (retval : Retval) (log : List Event) :
    prog.execute_round table retval log =
      prog.treat_retval (handler.answer retval) (log ++ [prog.call_event]) := by
  simp [Program.execute_round, hinstr, hpast, hhandler]

theorem returned_eq {handler : Handler}
    (hinstr : prog.current_instr = some opcode) (hhandler : prog.get_handler table opcode = some handler)
    (retval : Retval) : returned table retval prog = some (handler.answer retval) := by
  simp [returned, hinstr, hhandler]

theorem Program.current_instr_of_counter (hcounter : prog.program_counter = k) :
    prog.current_instr = prog.instructions[k]? := by
  simp [Program.current_instr, Program.index, hcounter]

theorem Registered.ne_past_table (htable : Installed table) (h : Registered table opcode) :
    opcode ≠ op_past_table := by
  intro hpast
  have hsome := h.2.2.2
  rw [hpast, htable.past] at hsome
  simp at hsome

theorem Forward.fetch (htable : Installed table)
    (h : Forward table prog log k) (hcounter : prog.program_counter = k) :
    ∃ opcode handler, prog.instructions[k]? = some opcode ∧ prog.current_instr = some opcode ∧
      opcode ≠ op_past_table ∧ prog.get_handler table opcode = some handler ∧
      (opcode = op_end → handler = .end_handler) := by
  have hlt := h.well_formed.length_lt h.unfinished
  have hopcode : prog.instructions[k]? = some prog.instructions[k] := getElem?_eq_getElem hlt
  have hinstr := (current_instr_of_counter hcounter).trans hopcode
  obtain hend | hnop | hregistered := h.well_formed.2 _ (getElem_mem hlt)
  · refine ⟨_, .end_handler, hopcode, hinstr, ?_, ?_, fun _ => rfl⟩
    · rw [hend]
      decide
    rw [get_handler, hend, if_neg (by decide)]
    simp only [h.state, htable.end_def]
  · refine ⟨_, .nop_handler, hopcode, hinstr, ?_, ?_, ?_⟩
    · rw [hnop]
      decide
    · rw [get_handler, hnop, if_neg (by decide)]
      simp only [h.state, htable.nop_def]
    rw [hnop]
    intro hreserved
    simp [op_nop, op_end] at hreserved
  obtain ⟨handler, hhandler⟩ := isSome_iff_exists.mp hregistered.2.2.2
  refine ⟨_, handler, hopcode, hinstr, hregistered.ne_past_table htable, ?_, ?_⟩
  · simp [get_handler, h.state, hregistered.2.2.1, hhandler]
  · exact fun hend => absurd hend hregistered.1

theorem Backward.fetch (htable : Installed table) {log before : List Event} {k i : Nat}
    (h : Backward table prog log before k i) :
    ∃ opcode handler, prog.current_instr = some opcode ∧ opcode ≠ op_past_table ∧
      prog.get_handler table opcode = some handler := by
  have hlt : i < prog.instructions.length := lt_of_lt_of_le h.below h.within
  have hmem : prog.instructions[i] ∈ prog.instructions.take k := by
    rw [mem_take_iff_getElem]
    exact ⟨i, by have := h.below; omega, rfl⟩
  have hregistered := h.registered _ hmem
  obtain ⟨hend, hnop, hinvalid, hsome⟩ := hregistered
  obtain ⟨handler, hhandler⟩ := isSome_iff_exists.mp (htable.invertible _ hend hnop hinvalid hsome)
  refine ⟨_, handler, ?_, (h.registered _ hmem).ne_past_table htable, ?_⟩
  · rw [current_instr_of_counter h.counter, getElem?_eq_getElem hlt]
  · simp [get_handler, h.state, hinvalid, hhandler]

variable {retval : Retval}

theorem Forward.treat_retval (h : Forward table prog log k)
    (hcounter : prog.program_counter = k) (hopcode : prog.instructions[k]? = some opcode) (hend : opcode = op_end → retval = .finished)
    (herror : retval = .error → Reversible log prog) :
    ∃ slot, prog.treat_retval retval (log ++ [prog.call_event]) = some slot ∧ Lawful table slot := by
  have hcall : prog.call_event = .invoked k := by simp [call_event, Program.index, h.state, hcounter]
  have hinvoked : Forward table prog (log ++ [.invoked k]) k := h.log_append rfl rfl
  have hunfinished : retval ≠ .finished → op_end ∉ prog.instructions.take (k + 1) := by
    intro hretval
    rw [take_add_one, hopcode, mem_append, not_or]
    exact ⟨h.unfinished, by simpa using fun heq => hretval (hend heq.symm)⟩
  rw [hcall]
  cases retval with
  | error =>
    have hreturned : Forward table { prog with last_instr_retval := .error } (log ++ [.invoked k]) k :=
      hinvoked.congr rfl h.state
    apply hreturned.abort_program
    · simpa [Reversible, completions] using herror rfl
    · exact Or.inr ⟨by simp, hcounter⟩
  | next =>
    have hnext := hinvoked.complete (hunfinished (by simp))
    refine ⟨_, rfl, ?_⟩
    simp only [propagate_program_counter, h.state, Program.loop_or_release, hcounter, completion,
      Program.index, Int.toNat_natCast, if_true]
    rw [if_pos (by omega)]
    exact Or.inl ⟨k + 1, hnext.congr rfl rfl, by simp⟩
  | finished =>
    refine ⟨_, rfl, Or.inl ?_⟩
    simp only [release_program, h.state]
    simpa using h.stopped_not_mem
  | wait_and_next =>
    simp only [Program.treat_retval, propagate_program_counter, h.state, reduceCtorEq, if_false]
    exact ⟨_, rfl, k, hinvoked.congr rfl rfl, Or.inl ⟨rfl, by simp [hcounter], hunfinished (by simp)⟩⟩
  | wait_and_repeat =>
    simp only [Program.treat_retval, h.state, reduceCtorEq, if_false]
    exact ⟨_, rfl, k, hinvoked.congr rfl rfl, Or.inr ⟨rfl, hcounter⟩⟩

theorem Backward.call {log before : List Event} {k i : Nat} (h : Backward table prog log before k i) :
    prog.call_event = .inverted i ∧
      ∃ after, log ++ [.inverted i] = before ++ .stopped :: after ∧ after ++ inverses i = inverses k := by
  obtain ⟨after, hlog, hreversed⟩ := h.reversed
  refine ⟨by simp [call_event, Program.index, h.state, h.counter], after ++ [.inverted i], ?_, ?_⟩
  · simp [hlog]
  · simpa [inverses] using hreversed

/-- A slot after the inverse of instruction `i`: the program ends with the first
    instruction, and else goes on with the one before. -/
def Unwound (table : OpcodeTable) (slot : Slot) (before : List Event) (k : Nat) : Nat → Prop
  | 0 => slot.control = .absent ∧ Reversed slot.log before k
  | i + 1 => ∃ prog, slot.control = .executing prog ∧ Backward table prog slot.log before k i

theorem Unwound.lawful {slot : Slot} {before : List Event} {k i : Nat} (h : Unwound table slot before k i) :
    Lawful table slot := by
  cases i with
  | zero =>
    simp only [Lawful, h.1]
    exact Or.inr ⟨before, k, h.2⟩
  | succ i =>
    obtain ⟨prog, hcontrol, hbackward⟩ := h
    simp only [Lawful, hcontrol]
    exact Or.inr ⟨before, k, i, hbackward⟩

theorem Backward.release {prog other : Program} {log before : List Event}
    (h : Backward table prog log before k 0) (hstate : other.state = .aborting) :
    Unwound table (other.release_program (log ++ [.inverted 0])) before k 0 := by
  obtain ⟨after, hlog, hafter⟩ := h.call.2
  refine ⟨rfl, h.completed, h.forwards, ?_⟩
  rw [inverses, List.append_nil] at hafter
  simp only [release_program, hstate, hlog, hafter]
  simp

theorem Backward.propagate {log before : List Event} {k i : Nat}
    (h : Backward table prog log before k i) (retval : Retval) :
    Unwound table ({ prog with last_instr_retval := retval : Program }.propagate_program_counter.loop_or_release
      (log ++ [.inverted i])) before k i := by
  simp only [propagate_program_counter, h.state, Program.loop_or_release, h.counter]
  cases i with
  | zero =>
    rw [if_neg (by omega)]
    exact h.release rfl
  | succ i =>
    rw [if_pos (by omega)]
    have hbelow := h.below
    exact ⟨_, rfl, rfl, by simp, by omega, h.within, h.registered, h.completed, h.forwards, h.call.2⟩

theorem Backward.treat_retval {log before : List Event} {k i : Nat}
    (h : Backward table prog log before k i) (herror : retval ≠ .error)
    (hinverts : Inverts prog retval) :
    ∃ slot, prog.treat_retval retval (log ++ [prog.call_event]) = some slot ∧ Unwound table slot before k i := by
  have hcompletion : prog.completion = [] := by simp [completion, h.state]
  rw [h.call.1]
  cases retval with
  | error => exact absurd rfl herror
  | next =>
    rw [Program.treat_retval, hcompletion, List.append_nil]
    exact ⟨_, rfl, h.propagate .next⟩
  | wait_and_next =>
    rw [Program.treat_retval, if_pos h.state]
    exact ⟨_, rfl, h.propagate .wait_and_next⟩
  | wait_and_repeat => exact absurd rfl hinverts.1
  | finished =>
    have hzero : i = 0 := by
      have hcounter := hinverts.2 rfl
      rw [h.counter] at hcounter
      omega
    subst hzero
    exact ⟨_, rfl, h.release h.state⟩

theorem Backward.execute_round (htable : Installed table) {slot : Slot} {before : List Event}
    {k i : Nat} (hcontrol : slot.control = .executing prog)
    (h : Backward table prog slot.log before k i) (hproper : Proper table slot (.execute retval)) :
    ∃ next, slot_step table (.execute retval) slot = some next ∧ Unwound table next before k i := by
  obtain ⟨opcode, handler, hinstr, hpast, hhandler⟩ := h.fetch htable
  obtain ⟨hallowed, -, hinverts⟩ := hproper
  have hreturned := returned_eq hinstr hhandler retval
  simp only [Allowed, hcontrol, h.state, hreturned] at hallowed
  simp only [inverting, hcontrol, h.state, hreturned] at hinverts
  simp only [slot_step, hcontrol]
  rw [execute_round_eq hinstr hpast hhandler]
  exact h.treat_retval (by simpa using hallowed) (hinverts (prog, handler.answer retval) (by simp))

theorem Forward.execute_round (htable : Installed table) {slot : Slot}
    (hcontrol : slot.control = .executing prog) (h : Forward table prog slot.log k)
    (hcounter : prog.program_counter = k) (hproper : Proper table slot (.execute retval)) :
    ∃ next, slot_step table (.execute retval) slot = some next ∧ Lawful table next := by
  obtain ⟨opcode, handler, hopcode, hinstr, hpast, hhandler, hend⟩ := h.fetch htable hcounter
  have hstopping := hproper.2.1
  simp only [stopping, hcontrol, h.state, returned_eq hinstr hhandler retval] at hstopping
  simp only [slot_step, hcontrol]
  rw [execute_round_eq hinstr hpast hhandler]
  apply h.treat_retval hcounter hopcode
  · intro hreserved
    rw [hend hreserved]
    rfl
  intro herror
  exact hstopping prog (by simp [herror])

theorem Lawful.trigger {instructions : List Opcode} (h : WellFormed table instructions) :
    Lawful table { control := .executing { instructions } } :=
  Or.inl ⟨0, ⟨h, rfl, rfl, by simp, by simp⟩, rfl⟩

theorem Lawful.waiting {slot : Slot} (h : Lawful table slot) (hcontrol : slot.control = .waiting prog) :
    ∃ k, Forward table prog slot.log k ∧
      (prog.last_instr_retval = .wait_and_next ∧ prog.program_counter = k + 1 ∧
          op_end ∉ prog.instructions.take (k + 1) ∨
        prog.last_instr_retval = .wait_and_repeat ∧ prog.program_counter = k) := by
  simpa only [Lawful, hcontrol] using h

theorem Lawful.resume {slot : Slot} (h : Lawful table slot) (hcontrol : slot.control = .waiting prog) :
    Lawful table (prog.resume slot.log) := by
  obtain ⟨k, hforward, ⟨hlast, hcounter, hend⟩ | ⟨hlast, hcounter⟩⟩ := h.waiting hcontrol
  · -- the instruction that waited is completed now, and the counter is behind it already
    have hindex : prog.index - 1 = k := by
      rw [Program.index, hcounter]
      omega
    simp only [Program.resume, hlast, if_true, hindex]
    exact Or.inl ⟨k + 1, hforward.complete hend, by simpa using hcounter⟩
  simp only [Program.resume, hlast, reduceCtorEq, if_false]
  exact Or.inl ⟨k, hforward, hcounter⟩

theorem Lawful.abort_program {slot : Slot} (h : Lawful table slot)
    (hcontrol : slot.control = .waiting prog) (hreversible : Reversible slot.log prog) :
    ∃ next, prog.abort_program_with false slot.log = some next ∧ Lawful table next := by
  obtain ⟨k, hforward, ⟨hlast, hcounter, -⟩ | ⟨hlast, hcounter⟩⟩ := h.waiting hcontrol
  · exact hforward.abort_program hreversible (Or.inl ⟨hlast, hcounter⟩)
  · exact hforward.abort_program hreversible (Or.inr ⟨by simp [hlast], hcounter⟩)

theorem Lawful.slot_step (htable : Installed table) {slot : Slot} {action : Action} (h : Lawful table slot)
    (hproper : Proper table slot action) :
    ∃ next, slot_step table action slot = some next ∧ Lawful table next := by
  have hallowed := hproper.1
  have hstopping := hproper.2.1
  cases hcontrol : slot.control with
  | absent =>
    simp only [Allowed, hcontrol] at hallowed
    simp only [vm.slot_step, hcontrol]
    cases action with
    | trigger instructions available =>
      refine ⟨_, rfl, ?_⟩
      split
      · exact Lawful.trigger hallowed
      · exact h
    | resume => exact ⟨slot, rfl, h⟩
    | abort finish_current_step => exact ⟨slot, rfl, h⟩
    | timeout => exact ⟨slot, rfl, h⟩
    | execute retval => exact absurd hallowed id
  | waiting prog =>
    simp only [Allowed, hcontrol] at hallowed
    simp only [stopping, hcontrol] at hstopping
    simp only [vm.slot_step, hcontrol]
    cases action with
    | trigger instructions available => exact ⟨slot, rfl, h⟩
    | resume => exact ⟨_, rfl, h.resume hcontrol⟩
    | abort finish_current_step =>
      simp only at hallowed
      rw [hallowed]
      exact h.abort_program hcontrol (hstopping prog rfl)
    | timeout => exact h.abort_program hcontrol (hstopping prog rfl)
    | execute retval => exact absurd hallowed id
  | executing prog =>
    cases action with
    | execute retval =>
      have hcases := h
      simp only [Lawful, hcontrol] at hcases
      obtain ⟨k, hforward, hcounter⟩ | ⟨before, k, i, hbackward⟩ := hcases
      · exact hforward.execute_round htable hcontrol hcounter hproper
      obtain ⟨next, hnext, hunwound⟩ := hbackward.execute_round htable hcontrol hproper
      exact ⟨next, hnext, hunwound.lawful⟩
    | trigger instructions available => simp [Allowed, hcontrol] at hallowed
    | resume => simp [Allowed, hcontrol] at hallowed
    | abort finish_current_step => simp [Allowed, hcontrol] at hallowed
    | timeout => simp [Allowed, hcontrol] at hallowed

theorem Backward.rounds (htable : Installed table) {before : List Event} (i : Nat) :
    ∀ {slot : Slot} {prog : Program}, slot.control = .executing prog →
      Backward table prog slot.log before k i → ∀ retvals : List Retval, retvals.length = i + 1 →
      machine.along (vm.slot_step table) (Proper table) (retvals.map .execute) slot →
      ∃ last, machine.run (vm.slot_step table) (retvals.map .execute) slot = some last ∧
        last.control = .absent ∧ Reversed last.log before k := by
  induction i with
  | zero =>
    intro slot prog hcontrol h retvals hlength halong
    obtain ⟨retval, rfl⟩ := length_eq_one_iff.mp hlength
    obtain ⟨next, hnext, hunwound⟩ := h.execute_round htable hcontrol halong.1
    exact ⟨next, by simp [machine.run, hnext], hunwound⟩
  | succ i ih =>
    intro slot prog hcontrol h retvals hlength halong
    obtain ⟨retval, rest, rfl⟩ := exists_cons_of_length_eq_add_one hlength
    obtain ⟨next, hnext, prog', hcontrol', h'⟩ := h.execute_round htable hcontrol halong.1
    obtain ⟨last, hlast, hreversed⟩ := ih hcontrol' h' rest (by simpa using hlength) (halong.2 next hnext)
    exact ⟨last, by simp [machine.run, hnext, hlast], hreversed⟩

/-- The first `k` instructions were completed when the program was stopped. Since then
    the inverses of exactly these were called, the last one first, and the program
    has ended as aborted, or it ends so after one more round for each inverse that is left. -/
def RollsBack (table : OpcodeTable) (slot : Slot) : Prop :=
  .stopped ∈ slot.log → ∃ before after k, slot.log = before ++ .stopped :: after ∧
    (∀ event ∈ before, event.is_forward) ∧ completions before = List.range k ∧
    match slot.control with
    | .absent => after = inverses k ++ [.program_aborted]
    | .waiting _ => False
    | .executing prog => ∃ i : Nat, prog.program_counter = i ∧ after ++ inverses (i + 1) = inverses k ∧
      ∀ retvals : List Retval, retvals.length = i + 1 →
        machine.along (slot_step table) (Proper table) (retvals.map .execute) slot →
        ∃ last, machine.run (slot_step table) (retvals.map .execute) slot = some last ∧
          last.control = .absent ∧ last.log = before ++ .stopped :: (inverses k ++ [.program_aborted])

theorem Lawful.rolls_back (htable : Installed table) {slot : Slot} (h : Lawful table slot) : RollsBack table slot := by
  intro hstopped
  cases hcontrol : slot.control with
  | absent =>
    simp only [Lawful, hcontrol] at h
    obtain hrunning | ⟨before, k, hcompleted, hforwards, hlog⟩ := h
    · exact absurd hstopped hrunning
    · exact ⟨before, _, k, hlog, hforwards, hcompleted, rfl⟩
  | waiting prog =>
    obtain ⟨k, hforward, -⟩ := h.waiting hcontrol
    exact absurd hstopped hforward.stopped_not_mem
  | executing prog =>
    simp only [Lawful, hcontrol] at h
    obtain ⟨k, hforward, -⟩ | ⟨before, k, i, hbackward⟩ := h
    · exact absurd hstopped hforward.stopped_not_mem
    obtain ⟨after, hlog, hafter⟩ := hbackward.reversed
    refine ⟨before, after, k, hlog, hbackward.forwards, hbackward.completed, i, hbackward.counter, hafter, ?_⟩
    intro retvals hlength halong
    obtain ⟨last, hlast, habsent, hreversed⟩ := hbackward.rounds htable i hcontrol retvals hlength halong
    exact ⟨last, hlast, habsent, hreversed.2.2⟩

theorem step_lawful (htable : Installed table) (vm : Vm) (event : String × Action)
    (h : ∀ id, Lawful table (vm id)) (hproper : Proper table (vm event.1) event.2) :
    ∃ next, step table event vm = some next ∧ ∀ id, Lawful table (next id) := by
  obtain ⟨slot, hslot, hlawful⟩ := (h event.1).slot_step htable hproper
  refine ⟨update vm event.1 slot, by simp [step, hslot], fun id => ?_⟩
  by_cases hid : id = event.1
  · rw [hid, update_self]
    exact hlawful
  rw [update_of_ne hid]
  exact h id

/-- In every run of proper steps, every instruction is read from inside its list, and
    every program that is stopped is rolled back. -/
theorem run_rolls_back (registrations : List Registration) (events : List (String × Action))
    (hproper : machine.along (step (registered_opcodes registrations))
      (fun vm event => Proper (registered_opcodes registrations) (vm event.1) event.2) events Vm.empty) :
    ∃ vm, machine.run (step (registered_opcodes registrations)) events Vm.empty = some vm ∧
      ∀ id, RollsBack (registered_opcodes registrations) (vm id) := by
  have htable := Installed.registered_opcodes registrations
  have hempty : ∀ id, Lawful (registered_opcodes registrations) (Vm.empty id) :=
    fun id => Or.inl not_mem_nil
  obtain ⟨vm, hrun, hlawful⟩ := machine.run_defined
    (fun vm => ∀ id, Lawful (registered_opcodes registrations) (vm id)) _ (step_lawful htable) events hempty hproper
  exact ⟨vm, hrun, fun id => (hlawful id).rolls_back htable⟩

/-- A program that fails after an instruction that waited, beside one that times out. -/
theorem run_rolls_back_waiting :
    let registrations : List Registration :=
      [⟨1, some "S1", some .custom, some .custom⟩, ⟨2, some "S2", some .custom, none⟩]
    let events : List (String × Action) :=
      [("p", .trigger [1, 2, 1, op_end] true), ("p", .execute .next), ("p", .execute .wait_and_next),
        ("q", .trigger [2, 1, op_nop, op_end] true), ("q", .execute .next), ("q", .execute .wait_and_next),
        ("p", .resume), ("p", .execute .error), ("p", .execute .next), ("q", .timeout), ("q", .execute .next),
        ("p", .execute .finished)]
    ∃ vm, machine.run (step (registered_opcodes registrations)) events Vm.empty = some vm ∧
      ∀ id, RollsBack (registered_opcodes registrations) (vm id) := by
  intro registrations events
  exact run_rolls_back registrations events (by decide +kernel)

/-- A program that fails with its first instruction has its next instruction read from
    before the list, and one that has completed an `OP_NOP` fails to abort. -/
theorem run_without_inverses : (¬ ∀ (registrations : List Registration) (events : List (String × Action)),
      machine.along (step (registered_opcodes registrations))
        (fun vm event => Allowed (registered_opcodes registrations) (vm event.1) event.2) events Vm.empty →
      ∃ vm, machine.run (step (registered_opcodes registrations)) events Vm.empty = some vm ∧
        ∀ id, RollsBack (registered_opcodes registrations) (vm id)) ∧
    (machine.run (step (registered_opcodes [⟨1, some "S1", some .custom, some .custom⟩]))
      [("p", .trigger [op_nop, 1, op_end] true), ("p", .execute .next), ("p", .execute .error),
        ("p", .execute .next)] Vm.empty).map (fun vm => (vm "p").log) =
      some [.invoked 0, .completed 0, .invoked 1, .stopped, .program_failed_to_abort] := by
  refine ⟨fun h => ?_, by decide +kernel⟩
  obtain ⟨vm, hrun, -⟩ := h [⟨1, some "S1", some .custom, some .custom⟩]
    [("p", .trigger [1, op_end] true), ("p", .execute .error), ("p", .execute .next)] (by decide +kernel)
  have hundefined : (machine.run (step (registered_opcodes [⟨1, some "S1", some .custom, some .custom⟩]))
      [("p", .trigger [1, op_end] true), ("p", .execute .error), ("p", .execute .next)] Vm.empty).isSome = false := by
    decide +kernel
  rw [hrun] at hundefined
  simp at hundefined

end openvocs.vm
