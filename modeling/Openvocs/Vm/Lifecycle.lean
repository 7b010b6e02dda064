import Openvocs.Vm.ProgDb
import Openvocs.Vm.Rollback

open List Option

namespace openvocs.vm

open Event Function ProgDb Program

def Event.is_notification : Event → Bool
  | .program_done => true
  | .program_aborted => true
  | .program_failed_to_abort => true
  | _ => false

/-- `ov_vm`, with what its callbacks were told. -/
structure OvVm (δ : Type) where
  db : ProgDb δ
  /-- The slot of the program that `execute` is at. -/
  running : Option Nat := none
  /-- The programs that were triggered, by their numbers. -/
  triggered : List (String × Option δ) := []
  /-- The number of the last program in a slot. -/
  number : Nat → Nat := fun _ => 0
  notified : List (Nat × Event) := []
  released : List (Nat × δ) := []

/-- The calls from outside, the rounds of `prune_overdue_requests` and of `execute`.
    An alias is added by a handler or from outside. -/
inductive Deed (δ : Type) where
  | trigger (now : Nat) (id : String) (instructions : Option (List Opcode)) (data : Option δ)
  | resume (id : String)
  | abort (id : String) (finish_current_step : Bool)
  | prune (now timeout_usecs : Nat)
  | execute (retval : Retval)
  | add_alias (id name : String)

namespace OvVm

variable {δ : Type} (bucket : String → Nat) (table : OpcodeTable) (vm : OvVm δ)

def create (slots : Nat) : OvVm δ where
  db := ProgDb.ov_vm_prog_db_create slots

/-- The program in a slot. -/
def prog_at (slot : Nat) : Option Program := vm.db.pool[slot]?.bind ProgState.prog

def set_prog (slot : Nat) (prog : Program) : OvVm δ :=
  { vm with db := { vm.db with pool := vm.db.pool.modify slot ({ · with prog := some prog }) } }

def notify (slot : Nat) (log : List Event) : OvVm δ :=
  { vm with notified := vm.notified ++ (log.filter is_notification).map (vm.number slot, ·) }

/-- The part of `release_program` behind the notification. -/
def remove_program (slot : Nat) : Option (OvVm δ) :=
  vm.db.pool[slot]?.bind fun state =>
    (vm.db.ov_vm_prog_db_remove state.id).map fun (data, db) =>
      { vm with db, running := none, released := vm.released ++ data.toList.map (vm.number slot, ·) }

/-- What becomes of the program in a slot. -/
def settle (slot : Nat) (result : Slot) : Option (OvVm δ) :=
  match result.control with
  | .executing prog => some { (vm.notify slot result.log).set_prog slot prog with running := some slot }
  | .waiting prog => some { (vm.notify slot result.log).set_prog slot prog with running := none }
  | .absent => (vm.notify slot result.log).remove_program slot

/-- `ov_vm_trigger`, up to the call of `execute`. It is false for `OV_EXEC_TRIGGER_FAIL`. -/
def ov_vm_trigger (now : Nat) (id : String) (instructions : Option (List Opcode)) (data : Option δ) :
    Bool × OvVm δ :=
  match vm.db.ov_vm_prog_db_insert bucket now id instructions data with
  | (none, db) => (false, { vm with db })
  | (some slot, db) =>
    (true, { vm with
      db
      running := some slot
      triggered := vm.triggered ++ [(id, data)]
      number := update vm.number slot vm.triggered.length })

/-- The slot and the program of an id. -/
def found (id : String) : Option (Nat × Program) :=
  (vm.db.ov_vm_prog_db_get id).bind fun slot => (vm.prog_at slot).map (slot, ·)

def ov_vm_continue (id : String) : Option (OvVm δ) :=
  match vm.found id with
  | none => some vm
  | some (slot, prog) => vm.settle slot (prog.resume [])

def ov_vm_abort_with (id : String) (finish_current_step : Bool) : Option (OvVm δ) :=
  match vm.found id with
  | none => some vm
  | some (slot, prog) => (prog.abort_program_with finish_current_step []).bind (vm.settle slot)

/-- The time before which a program is overdue, in 64 bits. -/
def overdue (now timeout_usecs : Nat) : Nat := (now + 2 ^ 64 - timeout_usecs) % 2 ^ 64

/-- One round of the loop in `prune_overdue_requests`. -/
def prune_next (now timeout_usecs : Nat) : Option (OvVm δ) :=
  match vm.db.ov_vm_prog_db_next_due (overdue now timeout_usecs) with
  | none => some vm
  | some id => vm.ov_vm_abort_with id false

/-- One round of the loop in `execute`. -/
def execute_next (retval : Retval) : Option (OvVm δ) :=
  match vm.running with
  | none => some vm
  | some slot =>
    (vm.prog_at slot).bind fun prog => (prog.execute_round table retval []).bind (vm.settle slot)

/-- A step of the machine. While a program executes there is no call from outside:
    such a deed is one that does not happen. -/
def step : Deed δ → OvVm δ → Option (OvVm δ)
  | .execute retval, vm => vm.execute_next table retval
  | .add_alias id name, vm => some { vm with db := (vm.db.ov_vm_prog_db_alias bucket id name).2 }
  | deed, vm =>
    if vm.running = none then
      match deed with
      | .trigger now id instructions data => some (vm.ov_vm_trigger bucket now id instructions data).2
      | .resume id => vm.ov_vm_continue id
      | .abort id finish_current_step => vm.ov_vm_abort_with id finish_current_step
      | .prune now timeout_usecs => vm.prune_next now timeout_usecs
      | _ => some vm
    else some vm

/-- The program counter after a stop. -/
def stop_counter (finish_current_step : Bool) (prog : Program) : Int :=
  if finish_current_step = false ∧ prog.last_instr_retval = .wait_and_next then prog.program_counter - 2
  else prog.program_counter - 1

/-- The program of an id stays in front of an instruction when it is stopped. -/
def Stoppable (id : String) (finish_current_step : Bool) : Prop :=
  ∀ found ∈ vm.found id, 0 ≤ stop_counter finish_current_step found.2

/-- The value that the current instruction is treated with. -/
def answer (retval : Retval) (prog : Program) : Retval := (returned table retval prog).getD .error

/-- The steps that read no instruction and no alias from outside of an array: programs have
    an end and opcodes of the table, are not stopped before one of their instructions was
    completed, and have at most five aliases when they are released. -/
def Sound : OvVm δ → Deed δ → Prop
  | _, .trigger _ _ instructions _ => ∀ list ∈ instructions, op_end ∈ list ∧ op_past_table ∉ list
  | vm, .abort id finish_current_step => vm.Stoppable id finish_current_step
  | vm, .prune now timeout_usecs =>
    ∀ id ∈ vm.db.ov_vm_prog_db_next_due (overdue now timeout_usecs), vm.Stoppable id false
  | vm, .execute retval => ∀ slot ∈ vm.running, ∀ state ∈ vm.db.pool[slot]?,
    (aliases_of vm.db.aliases state.id).length ≤ 5 ∧
      ∀ prog ∈ state.prog, prog.state = .ok → answer table retval prog = .error → 0 < prog.program_counter
  | _, .resume _ => True
  | _, .add_alias _ _ => True

instance (id : String) (finish_current_step : Bool) : Decidable (vm.Stoppable id finish_current_step) :=
  inferInstanceAs (Decidable (∀ _ ∈ vm.found id, _))

instance (vm : OvVm δ) : ∀ deed, Decidable (Sound table vm deed)
  | .trigger _ _ instructions _ => inferInstanceAs (Decidable (∀ _ ∈ instructions, _))
  | .abort id finish_current_step => inferInstanceAs (Decidable (vm.Stoppable id finish_current_step))
  | .prune _ _ => inferInstanceAs (Decidable (∀ _ ∈ vm.db.ov_vm_prog_db_next_due _, _))
  | .execute _ => inferInstanceAs (Decidable (∀ _ ∈ vm.running, _))
  | .resume _ => isTrue trivial
  | .add_alias _ _ => isTrue trivial

/-- What the callbacks were told about a program. -/
def notifications (t : Nat) : List Event := (vm.notified.filter fun entry => entry.1 = t).map Prod.snd

def releases (t : Nat) : List δ := (vm.released.filter fun entry => entry.1 = t).map Prod.snd

/-- The program with a number is in the store, under its id and with its data. -/
def Stored (t : Nat) (id : String) (data : Option δ) : Prop :=
  ∃ slot state, vm.db.ov_vm_prog_db_get id = some slot ∧ vm.db.pool[slot]? = some state ∧
    vm.number slot = t ∧ state.id = id ∧ state.data = data ∧ state.prog.isSome

/-- A program is in the store and nobody was told about it, or it has stopped, with one
    notification and with its data released once. -/
def Accounted (t : Nat) (id : String) (data : Option δ) : Prop :=
  vm.Stored t id data ∧ vm.notifications t = [] ∧ vm.releases t = [] ∨
    (∀ other slot, vm.db.store.get other = some slot → vm.number slot ≠ t) ∧
      (∃ event, event.is_notification = true ∧ vm.notifications t = [event]) ∧ vm.releases t = data.toList

end OvVm

/-- A program that runs forwards, in front of one of its instructions. -/
structure Runs (prog : Program) : Prop where
  state : prog.state = .ok
  counter : 0 ≤ prog.program_counter
  ended : op_end ∈ prog.instructions
  unfinished : op_end ∉ prog.instructions.take prog.index
  in_table : op_past_table ∉ prog.instructions

/-- A program that runs backwards, in front of one of its instructions. -/
structure Undoes (prog : Program) : Prop where
  state : prog.state = .aborting
  counter : 0 ≤ prog.program_counter
  within : prog.index < prog.instructions.length
  in_table : op_past_table ∉ prog.instructions

/-- A program goes on or waits and nobody is told, or it has stopped and one callback is. -/
def Outcome (result : Slot) : Prop :=
  match result.control with
  | .executing prog => (Runs prog ∨ Undoes prog) ∧ result.log.filter is_notification = []
  | .waiting prog => Runs prog ∧ result.log.filter is_notification = []
  | .absent => ∃ event, event.is_notification = true ∧ result.log.filter is_notification = [event]

variable {table : OpcodeTable} {prog : Program} {log : List Event}

theorem Runs.within (h : Runs prog) : prog.index < prog.instructions.length := by
  by_contra hle
  have hall := h.unfinished
  rw [take_of_length_le (by omega)] at hall
  exact hall h.ended

theorem Runs.congr {other : Program} (h : Runs prog) (hinstructions : other.instructions = prog.instructions)
    (hcounter : other.program_counter = prog.program_counter) (hstate : other.state = .ok) : Runs other := by
  refine ⟨hstate, hcounter ▸ h.counter, hinstructions ▸ h.ended, ?_, hinstructions ▸ h.in_table⟩
  rw [hinstructions, Program.index, hcounter]
  exact h.unfinished

theorem Runs.advance {other : Program} (h : Runs prog) (hinstr : prog.instructions[prog.index]? ≠ some op_end)
    (hinstructions : other.instructions = prog.instructions)
    (hcounter : other.program_counter = prog.program_counter + 1) (hstate : other.state = .ok) : Runs other := by
  have hindex : other.index = prog.index + 1 := by
    have hnonneg := h.counter
    simp only [Program.index, hcounter]
    omega
  refine ⟨hstate, ?_, hinstructions ▸ h.ended, ?_, hinstructions ▸ h.in_table⟩
  · have hnonneg := h.counter
    omega
  rw [hinstructions, hindex, take_add_one, mem_append, not_or]
  refine ⟨h.unfinished, ?_⟩
  rw [mem_toList]
  exact hinstr

theorem outcome_release_program (prog : Program) (hlog : log.filter is_notification = []) :
    Outcome (prog.release_program log) := by
  simp only [Outcome, release_program, filter_append, hlog, nil_append]
  cases prog.state with
  | ok => exact ⟨.program_done, rfl, rfl⟩
  | aborting => exact ⟨.program_aborted, rfl, rfl⟩
  | failed_to_abort => exact ⟨.program_failed_to_abort, rfl, rfl⟩

theorem Runs.abort_program (h : Runs prog) {finish_current_step : Bool}
    (hcounter : 0 ≤ OvVm.stop_counter finish_current_step prog)
    (hlog : log.filter is_notification = []) :
    ∃ result, prog.abort_program_with finish_current_step log = some result ∧ Outcome result ∧
      result.control ≠ .absent := by
  have hwithin := h.within
  have hnonneg := h.counter
  simp only [Program.index] at hwithin
  have hfilter : (log ++ [Event.stopped]).filter is_notification = [] := by
    rw [filter_append, hlog]
    rfl
  have hundoes : ∀ counter : Int, 0 ≤ counter → counter < prog.program_counter →
      Undoes { prog with state := .aborting, program_counter := counter } := by
    intro counter hpositive hsmall
    refine ⟨rfl, hpositive, ?_, h.in_table⟩
    simp only [Program.index]
    omega
  simp only [abort_program_with, h.state]
  by_cases hinterrupted : finish_current_step = false ∧ prog.last_instr_retval = .wait_and_next
  · rw [if_pos hinterrupted]
    rw [OvVm.stop_counter, if_pos hinterrupted] at hcounter
    refine ⟨_, rfl, ⟨Or.inr ?_, hfilter⟩, by simp⟩
    simp only [propagate_program_counter]
    exact hundoes _ (by omega) (by omega)
  rw [if_neg hinterrupted]
  rw [OvVm.stop_counter, if_neg hinterrupted] at hcounter
  refine ⟨_, rfl, ⟨Or.inr ?_, hfilter⟩, by simp⟩
  simp only [propagate_program_counter]
  exact hundoes _ (by omega) (by omega)

theorem execute_round_eq_treat (hcounter : 0 ≤ prog.program_counter)
    (hwithin : prog.index < prog.instructions.length) (htable : op_past_table ∉ prog.instructions)
    (retval : Retval) :
    ∃ log, log.filter is_notification = [] ∧
      prog.execute_round table retval [] = prog.treat_retval (OvVm.answer table retval prog) log := by
  have hinstr : prog.current_instr = some prog.instructions[prog.index] := by
    rw [Program.current_instr, if_pos hcounter, getElem?_eq_getElem hwithin]
  have hpast : prog.instructions[prog.index] ≠ op_past_table := by
    intro heq
    exact htable (heq ▸ getElem_mem hwithin)
  rw [Program.execute_round, hinstr, bind_some, if_neg hpast, OvVm.answer, returned, hinstr, bind_some]
  cases prog.get_handler table prog.instructions[prog.index] with
  | none => exact ⟨[], rfl, rfl⟩
  | some handler =>
    refine ⟨[prog.call_event], ?_, rfl⟩
    rw [call_event]
    by_cases haborting : prog.state = .aborting
    · rw [if_pos haborting]
      rfl
    rw [if_neg haborting]
    rfl

theorem Runs.answer_end (htable : Installed table) (h : Runs prog) (retval : Retval)
    (hinstr : prog.instructions[prog.index]? = some op_end) : OvVm.answer table retval prog = .finished := by
  have hcurrent : prog.current_instr = some op_end := by rw [Program.current_instr, if_pos h.counter, hinstr]
  have hhandler : prog.get_handler table op_end = some .end_handler := by
    rw [get_handler, if_neg (by decide)]
    simp only [h.state, htable.end_def]
  rw [OvVm.answer, returned_eq hcurrent hhandler]
  rfl

theorem Runs.execute_round (htable : Installed table) (h : Runs prog) (retval : Retval)
    (hstop : OvVm.answer table retval prog = .error → 0 < prog.program_counter) :
    ∃ result, prog.execute_round table retval [] = some result ∧ Outcome result := by
  obtain ⟨log, hlog, hround⟩ := execute_round_eq_treat h.counter h.within h.in_table retval
  have hcompletion : (log ++ prog.completion).filter is_notification = [] := by
    rw [filter_append, hlog, completion, if_pos h.state]
    rfl
  have hnonneg := h.counter
  have hend : OvVm.answer table retval prog ≠ .finished → prog.instructions[prog.index]? ≠ some op_end :=
    fun hanswer hinstr => hanswer (h.answer_end htable retval hinstr)
  rw [hround]
  generalize OvVm.answer table retval prog = answer at hstop hend
  cases answer with
  | error =>
    have hcounter := hstop rfl
    have hreturned : Runs { prog with last_instr_retval := .error } := h.congr rfl rfl h.state
    have hstop_counter : 0 ≤ OvVm.stop_counter false { prog with last_instr_retval := .error } := by
      rw [OvVm.stop_counter, if_neg (by simp)]
      simp only
      omega
    obtain ⟨result, hresult, houtcome, _⟩ := hreturned.abort_program hstop_counter hlog
    exact ⟨result, hresult, houtcome⟩
  | next =>
    refine ⟨_, rfl, ?_⟩
    simp only [propagate_program_counter, h.state]
    rw [Program.loop_or_release, if_pos (by simp only; omega)]
    exact ⟨Or.inl (h.advance (hend (by simp)) rfl rfl rfl), hcompletion⟩
  | wait_and_next =>
    refine ⟨_, by rw [Program.treat_retval, if_neg (by simp [h.state])], ?_⟩
    refine ⟨h.advance (hend (by simp)) ?_ ?_ ?_, hlog⟩ <;> simp only [propagate_program_counter, h.state]
  | wait_and_repeat =>
    refine ⟨_, by rw [Program.treat_retval, if_neg (by simp [h.state])], ?_⟩
    exact ⟨h.congr rfl rfl h.state, hlog⟩
  | finished => exact ⟨_, rfl, outcome_release_program _ hlog⟩

theorem Undoes.loop_or_release (h : Undoes prog) {other : Program} (hlog : log.filter is_notification = [])
    (hinstructions : other.instructions = prog.instructions)
    (hcounter : other.program_counter ≤ prog.program_counter) (hstate : other.state = .aborting) :
    Outcome (other.loop_or_release log) := by
  have hwithin := h.within
  rw [Program.loop_or_release]
  by_cases hpositive : -1 < other.program_counter
  · rw [if_pos hpositive]
    refine ⟨Or.inr ⟨hstate, by omega, ?_, hinstructions ▸ h.in_table⟩, hlog⟩
    simp only [Program.index] at hwithin ⊢
    rw [hinstructions]
    omega
  rw [if_neg hpositive]
  exact outcome_release_program other hlog

theorem Undoes.retreat (h : Undoes prog) (hlog : log.filter is_notification = []) (retval : Retval) :
    Outcome (({ prog with last_instr_retval := retval } : Program).propagate_program_counter.loop_or_release log) := by
  simp only [propagate_program_counter, h.state]
  refine h.loop_or_release hlog rfl ?_ rfl
  simp only
  omega

theorem Undoes.execute_round (h : Undoes prog) (retval : Retval) :
    ∃ result, prog.execute_round table retval [] = some result ∧ Outcome result := by
  obtain ⟨log, hlog, hround⟩ := execute_round_eq_treat h.counter h.within h.in_table retval
  have hcompletion : prog.completion = [] := by simp [completion, h.state]
  rw [hround]
  generalize OvVm.answer table retval prog = answer
  cases answer with
  | error =>
    refine ⟨_, by rw [Program.treat_retval, abort_program_with, h.state], ?_⟩
    exact outcome_release_program _ hlog
  | next =>
    refine ⟨_, rfl, ?_⟩
    rw [hcompletion, List.append_nil]
    exact h.retreat hlog .next
  | wait_and_next =>
    refine ⟨_, by rw [Program.treat_retval, if_pos h.state], ?_⟩
    exact h.retreat hlog .wait_and_next
  | wait_and_repeat =>
    refine ⟨_, by rw [Program.treat_retval, if_pos h.state], ?_⟩
    exact h.loop_or_release hlog rfl (Int.le_refl _) h.state
  | finished => exact ⟨_, rfl, outcome_release_program _ hlog⟩

namespace OvVm

variable {δ : Type} {vm : OvVm δ}

/-- What is true of the machine between two steps. -/
structure Sane (vm : OvVm δ) : Prop where
  consistent : vm.db.Consistent
  running : ∀ slot, vm.running = some slot → ∃ id, vm.db.store.get id = some slot
  programs : ∀ id slot, vm.db.store.get id = some slot →
    ∃ prog, vm.prog_at slot = some prog ∧ (Runs prog ∨ Undoes prog ∧ vm.running = some slot)
  numbered : ∀ id slot, vm.db.store.get id = some slot →
    ∃ state, vm.db.pool[slot]? = some state ∧ vm.triggered[vm.number slot]? = some (id, state.data)
  distinct : ∀ id slot other slot', vm.db.store.get id = some slot → vm.db.store.get other = some slot' →
    vm.number slot = vm.number slot' → slot = slot'
  accounted : ∀ t id data, vm.triggered[t]? = some (id, data) → vm.Accounted t id data
  notified : ∀ entry ∈ vm.notified, entry.1 < vm.triggered.length
  released : ∀ entry ∈ vm.released, entry.1 < vm.triggered.length

theorem Sane.create (slots : Nat) : Sane (create slots : OvVm δ) := by
  have hempty : ∀ id, (vm.OvVm.create slots : OvVm δ).db.store.get id = none := fun _ => rfl
  refine ⟨.ov_vm_prog_db_create slots, ?_, ?_, ?_, ?_, ?_, ?_, ?_⟩
  · intro slot hrunning
    simp [vm.OvVm.create] at hrunning
  · intro id slot hstored
    rw [hempty] at hstored
    simp at hstored
  · intro id slot hstored
    rw [hempty] at hstored
    simp at hstored
  · intro id slot other slot' hstored
    rw [hempty] at hstored
    simp at hstored
  · intro t id data ht
    simp [vm.OvVm.create] at ht
  · intro entry hentry
    simp [vm.OvVm.create] at hentry
  intro entry hentry
  simp [vm.OvVm.create] at hentry

theorem getElem_set_prog (vm : OvVm δ) (slot : Nat) (prog : Program) (other : Nat) :
    (vm.set_prog slot prog).db.pool[other]? =
      if slot = other then vm.db.pool[other]?.map ({ · with prog := some prog }) else vm.db.pool[other]? := by
  simp only [set_prog, getElem?_modify]
  by_cases hsame : slot = other
  · simp [hsame]
  · simp [hsame]

variable {id : String}

theorem Sane.set_prog (h : Sane vm) {slot : Nat} (hstored : vm.db.store.get id = some slot)
    {prog : Program} {running : Option Nat} (hprog : Runs prog ∨ Undoes prog ∧ running = some slot)
    (hbefore : vm.running = none ∨ vm.running = some slot) (hafter : running = none ∨ running = some slot) :
    Sane { vm.set_prog slot prog with running := running } := by
  have hpool : ∀ (other : Nat) (state : ProgState δ), vm.db.pool[other]? = some state →
      ∃ state' : ProgState δ, (vm.set_prog slot prog).db.pool[other]? = some state' ∧ state'.id = state.id ∧
        state'.data = state.data ∧ (state.prog.isSome → state'.prog.isSome) := by
    intro other state hstate
    rw [getElem_set_prog, hstate]
    by_cases hsame : slot = other
    · exact ⟨{ state with prog := some prog }, by rw [if_pos hsame]; rfl, rfl, rfl, fun _ => rfl⟩
    · exact ⟨state, by rw [if_neg hsame], rfl, rfl, fun hsome => hsome⟩
  have hconsistent : (vm.set_prog slot prog).db.Consistent :=
    h.consistent.modify hstored fun state => ⟨rfl, fun _ => rfl⟩
  refine ⟨hconsistent, ?_, ?_, ?_, h.distinct, ?_, h.notified, h.released⟩
  · intro slot' hrunning
    obtain hnone | hsome := hafter
    · simp [hnone] at hrunning
    simp only [hsome, some.injEq] at hrunning
    exact ⟨id, hrunning ▸ hstored⟩
  · intro other slot' hother
    by_cases hsame : slot = slot'
    · obtain ⟨_, state, hstate, _⟩ := h.consistent.stored id slot hstored
      refine ⟨prog, ?_, hsame ▸ hprog⟩
      simp only [prog_at]
      rw [getElem_set_prog, if_pos hsame, ← hsame, hstate]
      rfl
    obtain ⟨prog', hprog', hruns⟩ := h.programs other slot' hother
    refine ⟨prog', ?_, ?_⟩
    · simp only [prog_at]
      rw [getElem_set_prog, if_neg hsame]
      exact hprog'
    obtain hruns | ⟨_, hrunning⟩ := hruns
    · exact Or.inl hruns
    obtain hnone | hsome := hbefore
    · simp [hnone] at hrunning
    rw [hsome, some.injEq] at hrunning
    exact absurd hrunning hsame
  · intro other slot' hother
    obtain ⟨state, hstate, hnumber⟩ := h.numbered other slot' hother
    obtain ⟨state', hstate', _, hdata, _⟩ := hpool slot' state hstate
    exact ⟨state', hstate', hdata ▸ hnumber⟩
  intro t id' data ht
  obtain ⟨⟨slot', state, hget, hstate, hnumber, hid, hdata, hsome⟩, hquiet⟩ | hgone := h.accounted t id' data ht
  · obtain ⟨state', hstate', hid', hdata', hsome'⟩ := hpool slot' state hstate
    exact Or.inl ⟨⟨slot', state', hget, hstate', hnumber, hid' ▸ hid, hdata' ▸ hdata, hsome' hsome⟩, hquiet⟩
  · exact Or.inr hgone

theorem notify_quiet (vm : OvVm δ) (slot : Nat) {log : List Event} (hlog : log.filter is_notification = []) :
    vm.notify slot log = vm := by
  simp [notify, hlog]

/-- The machine without the program of an id in a slot, after one notification. -/
def without (id : String) (slot : Nat) (event : Event) (data : Option δ) (vm : OvVm δ) : OvVm δ :=
  { vm with
    db := vm.db.removed id
    running := none
    notified := vm.notified ++ [(vm.number slot, event)]
    released := vm.released ++ data.toList.map (vm.number slot, ·) }

variable {state : ProgState δ}

theorem remove_program_eq (h : vm.db.Consistent) {slot : Nat}
    (hstored : vm.db.store.get id = some slot) (hstate : vm.db.pool[slot]? = some state)
    (hfew : (aliases_of vm.db.aliases id).length ≤ 5) {log : List Event} {event : Event}
    (hlog : log.filter is_notification = [event]) :
    (vm.notify slot log).remove_program slot = some (vm.without id slot event state.data) := by
  have hid : state.id = id := by
    obtain ⟨_, state', hstate', hown, _⟩ := h.stored id slot hstored
    rw [hstate, some.injEq] at hstate'
    rw [hstate', hown]
  have hunaliased : get_unaliased_id vm.db.aliases id = id :=
    h.unaliased_of_stored (by simp [hstored])
  have hdata : vm.db.data_of id = state.data := by simp [data_of, hstored, hstate]
  simp [remove_program, notify, hstate, hid, ov_vm_prog_db_remove, hunaliased, h.remove_internal_eq hfew,
    hdata, hlog, without]

theorem notifications_without (vm : OvVm δ) (id : String) (slot : Nat) (event : Event) (data : Option δ) (t : Nat) :
    (vm.without id slot event data).notifications t =
      vm.notifications t ++ if vm.number slot = t then [event] else [] := by
  by_cases hsame : vm.number slot = t
  · simp [notifications, without, hsame]
  · simp [notifications, without, hsame]

theorem releases_without (vm : OvVm δ) (id : String) (slot : Nat) (event : Event) (data : Option δ) (t : Nat) :
    (vm.without id slot event data).releases t =
      vm.releases t ++ if vm.number slot = t then data.toList else [] := by
  cases data with
  | none => simp [releases, without]
  | some value =>
    by_cases hsame : vm.number slot = t
    · simp [releases, without, hsame]
    · simp [releases, without, hsame]

theorem stored_of_own_id {db : ProgDb δ} (h : db.Consistent) {slot : Nat}
    (hget : db.ov_vm_prog_db_get id = some slot) (hstate : db.pool[slot]? = some state) (hid : state.id = id) :
    db.store.get id = some slot := by
  have hunaliased := stored_of_get hget
  obtain ⟨_, own, hown, hown_id, _⟩ := h.stored _ slot hunaliased
  rw [hstate, some.injEq] at hown
  rwa [← hown_id, ← hown, hid] at hunaliased

theorem stored_of_without (h : vm.db.Consistent) {id other : String} {slot slot' : Nat}
    (hstored : vm.db.store.get id = some slot) (hother : (vm.db.removed id).store.get other = some slot') :
    vm.db.store.get other = some slot' ∧ slot' ≠ slot ∧
      (vm.db.removed id).pool[slot']? = vm.db.pool[slot']? := by
  have hne : other ≠ id := by
    intro heq
    simp [ProgDb.removed, heq] at hother
  have hold : vm.db.store.get other = some slot' := by simpa [ProgDb.removed, hne] using hother
  have hslot : slot' ≠ slot := fun heq => hne (h.id_unique (heq ▸ hold) hstored)
  refine ⟨hold, hslot, ?_⟩
  rw [getElem_pool_removed, if_neg]
  rw [hstored, some.injEq]
  exact fun heq => hslot heq.symm

theorem Sane.without (h : Sane vm) {slot : Nat}
    (hstored : vm.db.store.get id = some slot) (hstate : vm.db.pool[slot]? = some state)
    (hbefore : vm.running = none ∨ vm.running = some slot) {event : Event} (hevent : event.is_notification = true) :
    Sane (vm.without id slot event state.data) := by
  obtain ⟨state', hstate', hnumber⟩ := h.numbered id slot hstored
  rw [hstate, some.injEq] at hstate'
  rw [← hstate'] at hnumber
  have hlt : vm.number slot < vm.triggered.length := (List.getElem?_eq_some_iff.mp hnumber).1
  have hconsistent := h.consistent.removed id
  refine ⟨hconsistent, ?_, ?_, ?_, ?_, ?_, ?_, ?_⟩
  · intro slot' hrunning
    simp [OvVm.without] at hrunning
  · intro other slot' hother
    obtain ⟨hold, hne, hpool⟩ := stored_of_without h.consistent hstored hother
    obtain ⟨prog, hprog, hruns | ⟨_, hrunning⟩⟩ := h.programs other slot' hold
    · refine ⟨prog, ?_, Or.inl hruns⟩
      rw [prog_at, OvVm.without, hpool]
      exact hprog
    obtain hnone | hsome := hbefore
    · simp [hnone] at hrunning
    rw [hsome, some.injEq] at hrunning
    exact absurd hrunning.symm hne
  · intro other slot' hother
    obtain ⟨hold, _, hpool⟩ := stored_of_without h.consistent hstored hother
    obtain ⟨state'', hstate'', hnumber''⟩ := h.numbered other slot' hold
    exact ⟨state'', hpool.trans hstate'', hnumber''⟩
  · intro other slot' another slot'' hother hanother
    exact h.distinct other slot' another slot'' (stored_of_without h.consistent hstored hother).1
      (stored_of_without h.consistent hstored hanother).1
  · intro t id' data ht
    by_cases hsame : vm.number slot = t
    · -- the program that has stopped: it was stored, and nobody had been told
      rw [← hsame] at ht ⊢
      rw [show (vm.without id slot event state.data).triggered = vm.triggered from rfl, hnumber,
        some.injEq, Prod.mk.injEq] at ht
      obtain ⟨_, hquiet⟩ | hgone := h.accounted _ _ _ hnumber
      · refine Or.inr ⟨?_, ⟨event, hevent, ?_⟩, ?_⟩
        · intro other slot' hother hequal
          obtain ⟨hold, hne, _⟩ := stored_of_without h.consistent hstored hother
          exact hne (h.distinct other slot' id slot hold hstored hequal)
        · rw [notifications_without, hquiet.1, if_pos rfl, nil_append]
        · rw [releases_without, hquiet.2, if_pos rfl, nil_append, ht.2]
      · exact absurd rfl (hgone.1 id slot hstored)
    rw [Accounted, notifications_without, releases_without, if_neg hsame, if_neg hsame, List.append_nil,
      List.append_nil]
    obtain ⟨⟨slot', state'', hget, hstate'', hnumber'', hid, hdata, hsome⟩, hquiet⟩ | hgone := h.accounted t id' data ht
    · have hne : slot' ≠ slot := fun heq => hsame (heq ▸ hnumber'')
      have hstored' := stored_of_own_id h.consistent hget hstate'' hid
      have hid' : id' ≠ id := by
        intro heq
        rw [heq, hstored, some.injEq] at hstored'
        exact hne hstored'.symm
      have hkept : (vm.db.removed id).store.get id' = some slot' := by simpa [ProgDb.removed, hid'] using hstored'
      refine Or.inl ⟨⟨slot', state'', hconsistent.get_of_stored hkept, ?_, hnumber'', hid, hdata, hsome⟩, hquiet⟩
      exact (stored_of_without h.consistent hstored hkept).2.2.trans hstate''
    refine Or.inr ⟨fun other slot' hother => ?_, hgone.2⟩
    exact hgone.1 other slot' (stored_of_without h.consistent hstored hother).1
  · intro entry hentry
    simp only [OvVm.without, mem_append, mem_singleton] at hentry
    obtain hold | hnew := hentry
    · exact h.notified entry hold
    rw [hnew]
    exact hlt
  · intro entry hentry
    simp only [OvVm.without, mem_append, List.mem_map] at hentry
    obtain hold | ⟨value, _, hnew⟩ := hentry
    · exact h.released entry hold
    rw [← hnew]
    exact hlt

theorem Sane.settle (h : Sane vm) {slot : Nat}
    (hstored : vm.db.store.get id = some slot) (hstate : vm.db.pool[slot]? = some state)
    (hbefore : vm.running = none ∨ vm.running = some slot) {result : Slot} (houtcome : Outcome result)
    (hfew : result.control = .absent → (aliases_of vm.db.aliases id).length ≤ 5) :
    ∃ vm', vm.settle slot result = some vm' ∧ Sane vm' := by
  obtain ⟨control, log⟩ := result
  cases control with
  | executing prog =>
    obtain ⟨hprog, hlog⟩ := houtcome
    refine ⟨_, rfl, ?_⟩
    rw [notify_quiet vm slot hlog]
    refine h.set_prog hstored ?_ hbefore (Or.inr rfl)
    obtain hruns | hundoes := hprog
    · exact Or.inl hruns
    · exact Or.inr ⟨hundoes, rfl⟩
  | waiting prog =>
    obtain ⟨hprog, hlog⟩ := houtcome
    refine ⟨_, rfl, ?_⟩
    rw [notify_quiet vm slot hlog]
    exact h.set_prog hstored (Or.inl hprog) hbefore (Or.inl rfl)
  | absent =>
    obtain ⟨event, hevent, hlog⟩ := houtcome
    exact ⟨_, remove_program_eq h.consistent hstored hstate (hfew rfl) hlog, h.without hstored hstate hbefore hevent⟩

theorem stored_of_inserted {db : ProgDb δ} (h : db.Consistent) {bucket : String → Nat} {id other : String}
    {slot slot' : Nat} {rest : List Nat} (havailable : db.available = slot :: rest) {now : Nat} {list : List Opcode}
    {data : Option δ}
    (hother : (db.inserted bucket now id list data slot rest).store.get other = some slot') :
    other = id ∧ slot' = slot ∨ db.store.get other = some slot' ∧ slot' ≠ slot ∧
      (db.inserted bucket now id list data slot rest).pool[slot']? = db.pool[slot']? := by
  simp only [ProgDb.inserted, Dict.get_set] at hother
  by_cases hsame : other = id
  · rw [if_pos hsame, some.injEq] at hother
    exact Or.inl ⟨hsame, hother.symm⟩
  rw [if_neg hsame] at hother
  have hne : slot' ≠ slot := by
    intro heq
    rw [heq] at hother
    exact h.not_mem_of_stored hother (by rw [havailable]; exact mem_cons_self)
  refine Or.inr ⟨hother, hne, ?_⟩
  rw [ProgDb.inserted, getElem?_set_ne (Ne.symm hne)]

theorem Sane.inserted (h : Sane vm) (hidle : vm.running = none) {bucket : String → Nat} {slot : Nat}
    {rest : List Nat} (hvalid : is_id_valid id) (havailable : vm.db.available = slot :: rest)
    (halias : vm.db.aliases.get id = none) (hstore : vm.db.store.get id = none) (now : Nat) {list : List Opcode}
    (hended : op_end ∈ list) (hin_table : op_past_table ∉ list) (data : Option δ) :
    Sane { vm with
      db := vm.db.inserted bucket now id list data slot rest
      running := some slot
      triggered := vm.triggered ++ [(id, data)]
      number := update vm.number slot vm.triggered.length } := by
  have hconsistent : (vm.db.inserted bucket now id list data slot rest).Consistent :=
    h.consistent.inserted hvalid havailable halias hstore now list data
  obtain ⟨_, hcleared⟩ := h.consistent.cleared slot (by rw [havailable]; exact mem_cons_self)
  have hlt : slot < vm.db.pool.length := (List.getElem?_eq_some_iff.mp hcleared).1
  have hnew : (vm.db.inserted bucket now id list data slot rest).store.get id = some slot := by
    simp [ProgDb.inserted, Dict.get_set]
  have hstate : (vm.db.inserted bucket now id list data slot rest).pool[slot]? =
      some (init_prog_state now id list data) := by
    rw [ProgDb.inserted, getElem?_set_self hlt]
  have hold_number : ∀ other slot', vm.db.store.get other = some slot' →
      vm.number slot' < vm.triggered.length := by
    intro other slot' hother
    obtain ⟨_, _, hnumber⟩ := h.numbered other slot' hother
    exact (List.getElem?_eq_some_iff.mp hnumber).1
  refine ⟨hconsistent, ?_, ?_, ?_, ?_, ?_, ?_, ?_⟩
  · intro slot' hrunning
    simp only [some.injEq] at hrunning
    exact ⟨id, hrunning ▸ hnew⟩
  · intro other slot' hother
    obtain ⟨_, heq⟩ | ⟨hold, _, hpool⟩ := stored_of_inserted h.consistent havailable hother
    · refine ⟨{ instructions := list }, ?_, Or.inl ⟨rfl, Int.le_refl 0, hended, by simp [Program.index], hin_table⟩⟩
      rw [prog_at, heq, hstate]
      rfl
    obtain ⟨prog, hprog, hruns | ⟨_, hrunning⟩⟩ := h.programs other slot' hold
    · exact ⟨prog, by rw [prog_at, hpool]; exact hprog, Or.inl hruns⟩
    · simp [hidle] at hrunning
  · intro other slot' hother
    obtain ⟨hid, heq⟩ | ⟨hold, hne, hpool⟩ := stored_of_inserted h.consistent havailable hother
    · refine ⟨init_prog_state now id list data, by rw [heq]; exact hstate, ?_⟩
      simp [heq, hid, init_prog_state]
    obtain ⟨state, hstate', hnumber⟩ := h.numbered other slot' hold
    refine ⟨state, hpool.trans hstate', ?_⟩
    simp only [update_of_ne hne]
    rw [getElem?_append_left (hold_number other slot' hold)]
    exact hnumber
  · intro other slot' another slot'' hother hanother hequal
    obtain ⟨_, heq⟩ | ⟨hold, hne, _⟩ := stored_of_inserted h.consistent havailable hother
    · obtain ⟨_, heq'⟩ | ⟨hold', hne', _⟩ := stored_of_inserted h.consistent havailable hanother
      · rw [heq, heq']
      have hsmall := hold_number another slot'' hold'
      simp only [heq, update_self, update_of_ne hne'] at hequal
      omega
    obtain ⟨_, heq'⟩ | ⟨hold', hne', _⟩ := stored_of_inserted h.consistent havailable hanother
    · have hsmall := hold_number other slot' hold
      simp only [heq', update_self, update_of_ne hne] at hequal
      omega
    simp only [update_of_ne hne, update_of_ne hne'] at hequal
    exact h.distinct other slot' another slot'' hold hold' hequal
  · intro t id' data' ht
    by_cases hlast : t < vm.triggered.length
    · simp only [getElem?_append_left hlast] at ht
      obtain ⟨⟨slot', state, hget, hstate', hnumber, hid, hdata, hsome⟩, hquiet⟩ | hgone := h.accounted t id' data' ht
      · have hstored := stored_of_own_id h.consistent hget hstate' hid
        have hne : slot' ≠ slot := by
          intro heq
          rw [heq] at hstored
          exact h.consistent.not_mem_of_stored hstored (by rw [havailable]; exact mem_cons_self)
        have hid' : id' ≠ id := by
          intro heq
          rw [heq, hstore] at hstored
          simp at hstored
        have hkept : (vm.db.inserted bucket now id list data slot rest).store.get id' = some slot' := by
          simpa [ProgDb.inserted, Dict.get_set, hid'] using hstored
        refine Or.inl ⟨⟨slot', state, hconsistent.get_of_stored hkept, ?_, ?_, hid, hdata, hsome⟩, hquiet⟩
        · simp only [ProgDb.inserted]
          rw [getElem?_set_ne (Ne.symm hne)]
          exact hstate'
        simp only [update_of_ne hne]
        exact hnumber
      refine Or.inr ⟨fun other slot' hother => ?_, hgone.2⟩
      obtain ⟨_, heq⟩ | ⟨hold, hne, _⟩ := stored_of_inserted h.consistent havailable hother
      · simp only [heq, update_self]
        omega
      simp only [update_of_ne hne]
      exact hgone.1 other slot' hold
    -- the new program: nobody was told about its number
    have hlength := (List.getElem?_eq_some_iff.mp ht).1
    simp only [length_append, length_singleton] at hlength
    have ht' : t = vm.triggered.length := by omega
    rw [ht'] at ht ⊢
    simp only [getElem?_concat_length, some.injEq, Prod.mk.injEq] at ht
    refine Or.inl ⟨⟨slot, _, ?_, hstate, ?_, ?_, ?_, rfl⟩, ?_, ?_⟩
    · rw [← ht.1]
      exact hconsistent.get_of_stored hnew
    · simp
    · simp [init_prog_state, ht.1]
    · simp [init_prog_state, ht.2]
    · simp only [notifications, map_eq_nil_iff, filter_eq_nil_iff, decide_eq_true_eq]
      intro entry hentry heq
      have hsmall := h.notified entry hentry
      omega
    simp only [releases, map_eq_nil_iff, filter_eq_nil_iff, decide_eq_true_eq]
    intro entry hentry heq
    have hsmall := h.released entry hentry
    omega
  · intro entry hentry
    have hsmall := h.notified entry hentry
    simp only [length_append, length_singleton]
    omega
  · intro entry hentry
    have hsmall := h.released entry hentry
    simp only [length_append, length_singleton]
    omega

theorem Sane.trigger_fails_iff (h : Sane vm) (bucket : String → Nat) (now : Nat) (id : String)
    (instructions : Option (List Opcode)) (data : Option δ) :
    ((vm.ov_vm_trigger bucket now id instructions data).1 = false ↔
        instructions = none ∨ ¬ is_id_valid id ∨ vm.db.ov_vm_prog_db_get id ≠ none ∨ vm.db.available = []) ∧
      ((vm.ov_vm_trigger bucket now id instructions data).1 = false →
        (vm.ov_vm_trigger bucket now id instructions data).2 = vm) := by
  obtain ⟨hsame, hreason⟩ | ⟨list, slot, rest, hlist, hvalid, havailable, halias, hstore, heq⟩ :=
    h.consistent.insert_cases bucket now id instructions data
  · simp [ov_vm_trigger, hsame, hreason]
  have hget : vm.db.ov_vm_prog_db_get id = none := by
    simp [ov_vm_prog_db_get, prog_for_id, get_unaliased_id, halias, hstore]
  rw [hlist] at heq ⊢
  simp [ov_vm_trigger, heq, hvalid, havailable, hget]

theorem Sane.ov_vm_trigger (h : Sane vm) (hidle : vm.running = none) (bucket : String → Nat) (now : Nat) (id : String)
    {instructions : Option (List Opcode)} (hsound : ∀ list ∈ instructions, op_end ∈ list ∧ op_past_table ∉ list)
    (data : Option δ) : Sane (vm.ov_vm_trigger bucket now id instructions data).2 := by
  obtain ⟨hsame, _⟩ | ⟨list, slot, rest, hlist, hvalid, havailable, halias, hstore, heq⟩ :=
    h.consistent.insert_cases bucket now id instructions data
  · simpa only [OvVm.ov_vm_trigger, hsame] using h
  obtain ⟨hended, hin_table⟩ := hsound list hlist
  simp only [OvVm.ov_vm_trigger, heq]
  exact h.inserted hidle hvalid havailable halias hstore now hended hin_table data

theorem Sane.ov_vm_alias (h : Sane vm) (bucket : String → Nat) (id name : String) :
    Sane { vm with db := (vm.db.ov_vm_prog_db_alias bucket id name).2 } := by
  have hconsistent : (vm.db.ov_vm_prog_db_alias bucket id name).2.Consistent :=
    h.consistent.ov_vm_prog_db_alias id name
  obtain hsame | ⟨_, _, heq⟩ := h.consistent.alias_cases bucket id name
  · rwa [hsame]
  rw [heq] at hconsistent ⊢
  refine ⟨hconsistent, h.running, h.programs, h.numbered, h.distinct, ?_, h.notified, h.released⟩
  intro t id' data ht
  obtain ⟨⟨slot, state, hget, hstate, hnumber, hid, hrest⟩, hquiet⟩ | hgone := h.accounted t id' data ht
  · have hstored := stored_of_own_id h.consistent hget hstate hid
    exact Or.inl ⟨⟨slot, state, hconsistent.get_of_stored hstored, hstate, hnumber, hid, hrest⟩, hquiet⟩
  · exact Or.inr hgone

theorem Sane.found_runs (h : Sane vm) (hidle : vm.running = none) {slot : Nat} {prog : Program}
    (hfound : vm.found id = some (slot, prog)) :
    ∃ own state, vm.db.store.get own = some slot ∧ vm.db.pool[slot]? = some state ∧ Runs prog := by
  simp only [found, bind_eq_some_iff, map_eq_some_iff, Prod.mk.injEq] at hfound
  obtain ⟨slot', hget, prog', hprog, hslot, hsame⟩ := hfound
  rw [hslot] at hget hprog
  have hstored := stored_of_get hget
  obtain ⟨_, state, hstate, _⟩ := h.consistent.stored _ slot hstored
  obtain ⟨prog'', hprog'', hruns | ⟨_, hrunning⟩⟩ := h.programs _ slot hstored
  · rw [hprog, some.injEq] at hprog''
    exact ⟨_, state, hstored, hstate, by rwa [← hsame, hprog'']⟩
  · simp [hidle] at hrunning

theorem Sane.ov_vm_continue (h : Sane vm) (hidle : vm.running = none) (id : String) :
    ∃ vm', vm.ov_vm_continue id = some vm' ∧ Sane vm' := by
  cases hfound : vm.found id with
  | none => exact ⟨vm, by simp [OvVm.ov_vm_continue, hfound], h⟩
  | some found =>
    obtain ⟨slot, prog⟩ := found
    obtain ⟨own, state, hstored, hstate, hruns⟩ := h.found_runs hidle hfound
    simp only [OvVm.ov_vm_continue, hfound]
    refine h.settle hstored hstate (Or.inl hidle) ⟨Or.inl hruns, ?_⟩ (by simp [Program.resume])
    simp only [Program.resume]
    by_cases hwaits : prog.last_instr_retval = .wait_and_next
    · rw [if_pos hwaits]
      rfl
    rw [if_neg hwaits]
    rfl

theorem Sane.ov_vm_abort_with (h : Sane vm) (hidle : vm.running = none) {finish_current_step : Bool}
    (hsound : vm.Stoppable id finish_current_step) :
    ∃ vm', vm.ov_vm_abort_with id finish_current_step = some vm' ∧ Sane vm' := by
  cases hfound : vm.found id with
  | none => exact ⟨vm, by simp [OvVm.ov_vm_abort_with, hfound], h⟩
  | some found =>
    obtain ⟨slot, prog⟩ := found
    obtain ⟨own, state, hstored, hstate, hruns⟩ := h.found_runs hidle hfound
    have hquiet : ([] : List Event).filter is_notification = [] := rfl
    obtain ⟨result, hresult, houtcome, hpresent⟩ := hruns.abort_program (hsound _ hfound) hquiet
    simp only [OvVm.ov_vm_abort_with, hfound, hresult, bind_some]
    exact h.settle hstored hstate (Or.inl hidle) houtcome fun habsent => absurd habsent hpresent

theorem Sane.execute_next {table : OpcodeTable} (htable : Installed table) (h : Sane vm) {retval : Retval}
    (hsound : Sound table vm (.execute retval)) : ∃ vm', vm.execute_next table retval = some vm' ∧ Sane vm' := by
  cases hrunning : vm.running with
  | none => exact ⟨vm, by simp [OvVm.execute_next, hrunning], h⟩
  | some slot =>
    obtain ⟨id, hstored⟩ := h.running slot hrunning
    obtain ⟨_, state, hstate, hid, _⟩ := h.consistent.stored id slot hstored
    obtain ⟨prog, hprog, hruns⟩ := h.programs id slot hstored
    obtain ⟨hfew, herror⟩ := hsound slot hrunning state hstate
    have hstate_prog : state.prog = some prog := by simpa [prog_at, hstate] using hprog
    have hround : ∃ result, prog.execute_round table retval [] = some result ∧ Outcome result := by
      obtain hforward | ⟨hbackward, _⟩ := hruns
      · exact hforward.execute_round htable retval (herror prog hstate_prog hforward.state)
      · exact hbackward.execute_round retval
    obtain ⟨result, hresult, houtcome⟩ := hround
    simp only [OvVm.execute_next, hrunning, hprog, hresult, bind_some]
    exact h.settle hstored hstate (Or.inr hrunning) houtcome fun _ => hid ▸ hfew

theorem step_sane {table : OpcodeTable} (htable : Installed table) (bucket : String → Nat) (h : Sane vm)
    (deed : Deed δ) (hsound : Sound table vm deed) : ∃ vm', step bucket table deed vm = some vm' ∧ Sane vm' := by
  by_cases hidle : vm.running = none
  · cases deed with
    | trigger now id instructions data =>
      exact ⟨_, by rw [step, if_pos hidle], h.ov_vm_trigger hidle bucket now id hsound data⟩
    | resume id =>
      obtain ⟨vm', hstep, hsane⟩ := h.ov_vm_continue hidle id
      exact ⟨vm', by rw [step, if_pos hidle, ← hstep], hsane⟩
    | abort id finish_current_step =>
      obtain ⟨vm', hstep, hsane⟩ := h.ov_vm_abort_with hidle hsound
      exact ⟨vm', by rw [step, if_pos hidle, ← hstep], hsane⟩
    | prune now timeout_usecs =>
      cases hdue : vm.db.ov_vm_prog_db_next_due (overdue now timeout_usecs) with
      | none => exact ⟨vm, by rw [step, if_pos hidle]; simp [prune_next, hdue], h⟩
      | some id =>
        obtain ⟨vm', hstep, hsane⟩ := h.ov_vm_abort_with hidle (hsound id hdue)
        exact ⟨vm', by rw [step, if_pos hidle]; simp [prune_next, hdue, hstep], hsane⟩
    | execute retval => exact h.execute_next htable hsound
    | add_alias id name => exact ⟨_, rfl, h.ov_vm_alias bucket id name⟩
  cases deed with
  | execute retval => exact h.execute_next htable hsound
  | add_alias id name => exact ⟨_, rfl, h.ov_vm_alias bucket id name⟩
  | trigger now id instructions data => exact ⟨vm, by rw [step, if_neg hidle], h⟩
  | resume id => exact ⟨vm, by rw [step, if_neg hidle], h⟩
  | abort id finish_current_step => exact ⟨vm, by rw [step, if_neg hidle], h⟩
  | prune now timeout_usecs => exact ⟨vm, by rw [step, if_neg hidle], h⟩

/-- In every run without a read from outside of an array, each program that was triggered
    waits or executes without a notification, with its data and under its id, or has
    stopped with one notification and one release of its data. A trigger that fails
    changes nothing. -/
theorem run_lifecycle (bucket : String → Nat) (registrations : List Registration) (slots : Nat)
    (deeds : List (Deed δ))
    (hsound : machine.along (step bucket (registered_opcodes registrations)) (Sound (registered_opcodes registrations))
      deeds (create slots)) :
    ∃ vm, machine.run (step bucket (registered_opcodes registrations)) deeds (create slots) = some vm ∧
      (∀ t id data, vm.triggered[t]? = some (id, data) → vm.Accounted t id data) ∧
      ∀ now id instructions data,
        ((vm.ov_vm_trigger bucket now id instructions data).1 = false ↔
            instructions = none ∨ ¬ is_id_valid id ∨ vm.db.ov_vm_prog_db_get id ≠ none ∨ vm.db.available = []) ∧
          ((vm.ov_vm_trigger bucket now id instructions data).1 = false →
            (vm.ov_vm_trigger bucket now id instructions data).2 = vm) := by
  have htable := Installed.registered_opcodes registrations
  obtain ⟨vm, hrun, h⟩ := machine.run_defined Sane (Sound (registered_opcodes registrations))
    (fun vm deed hvm hdeed => step_sane htable bucket hvm deed hdeed) deeds (Sane.create slots) hsound
  exact ⟨vm, hrun, h.accounted, fun now id instructions data => h.trigger_fails_iff bucket now id instructions data⟩

/-- A program waits at its second instruction, is aborted, and rolls back the first. -/
theorem run_lifecycle_one_abort : ∃ vm : OvVm Unit,
      machine.run (step (fun _ => 0) (registered_opcodes [⟨1, some "CALL", some .custom, some .custom⟩]))
        [.trigger 7 "call" (some [1, 1, op_end]) (some ()), .execute .next, .execute .wait_and_next,
          .abort "call" false, .execute .next] (create 2) = some vm ∧
      vm.Accounted 0 "call" (some ()) := by
  obtain ⟨vm, hrun, haccounted, _⟩ := run_lifecycle (fun _ => 0) [⟨1, some "CALL", some .custom, some .custom⟩] 2
    [.trigger 7 "call" (some [1, 1, op_end]) (some ()), .execute .next, .execute .wait_and_next,
      .abort "call" false, .execute .next]
    (by decide : machine.along (step _ _) (Sound _) _ (create 2 : OvVm Unit))
  refine ⟨vm, hrun, haccounted 0 "call" (some ()) ?_⟩
  have htriggered : (machine.run (step (fun _ => 0) (registered_opcodes [⟨1, some "CALL", some .custom, some .custom⟩]))
      [.trigger 7 "call" (some [1, 1, op_end]) (some ()), .execute .next, .execute .wait_and_next,
        .abort "call" false, .execute .next] (create 2 : OvVm Unit)).map triggered =
      some [("call", some ())] := by decide
  rw [hrun, map_some, some.injEq] at htriggered
  rw [htriggered]
  rfl

/-- The handler of the first instruction fails, and what `execute` reads next is in front of
    the instructions. -/
theorem first_instruction_fails :
    let run := machine.run
      (step (fun _ => 0) (registered_opcodes [⟨1, some "CALL", some .custom, some .custom⟩]))
    let deeds : List (Deed Unit) := [.trigger 7 "call" (some [1, op_end]) (some ()), .execute .error]
    (run deeds (create 2)).map (fun vm => (vm.prog_at 1).map program_counter) = some (some (-1)) ∧
      ∀ retval, run (deeds ++ [.execute retval]) (create 2) = none := by
  refine ⟨by decide, ?_⟩
  intro retval
  rw [← isNone_iff_eq_none]
  cases retval <;> decide

end OvVm

end openvocs.vm
