import Mathlib.Logic.Function.Basic
import Openvocs.Lib.Machine

/-!
One step is one call from outside, or one round of the loop in `execute`: a handler is whatever its
answers are.
-/

namespace openvocs.vm

abbrev Opcode := UInt8

def op_end : Opcode := 0
def op_nop : Opcode := 0xfd
def op_invalid : Opcode := 0xfe

/-- `opcode[UINT8_MAX]` has no place for this one. -/
def op_past_table : Opcode := 0xff

inductive Retval where
  | error
  | next
  | finished
  | wait_and_next
  | wait_and_repeat
deriving DecidableEq

/-- The handlers of `ov_vm.c`, and those of its users. -/
inductive Handler where
  | end_handler
  | nop_handler
  | invalid_handler
  | inv_handler_dummy
  | custom
deriving DecidableEq

/-- What a handler returns. Only those of the users have a choice. -/
def Handler.answer (retval : Retval) : Handler → Retval
  | .end_handler => .finished
  | .nop_handler => .next
  | .invalid_handler => .error
  | .inv_handler_dummy => .next
  | .custom => retval

structure OpcodeDef where
  handler : Option Handler := none
  inv_handler : Option Handler := none

abbrev OpcodeTable := Opcode → OpcodeDef

/-- The table after `ov_vm_create`. -/
def standard_opcodes : OpcodeTable := fun opcode =>
  if opcode = op_end then { handler := some .end_handler }
  else if opcode = op_nop then { handler := some .nop_handler }
  else if opcode = op_invalid then { handler := some .invalid_handler }
  else {}

/-- The arguments of `ov_vm_register`. -/
structure Registration where
  opcode : Opcode
  symbol : Option String
  handler : Option Handler
  inv_handler : Option Handler := none

def sanitize_inv_handler (handler : Option Handler) : Handler := handler.getD .inv_handler_dummy

def ov_vm_register (table : OpcodeTable) (registration : Registration) : OpcodeTable :=
  if registration.opcode = op_past_table then table
  else if registration.opcode = op_end ∨ registration.opcode = op_nop then table
  else
    match registration.symbol, registration.handler with
    | some _, some handler =>
      Function.update table registration.opcode
        { handler := some handler, inv_handler := some (sanitize_inv_handler registration.inv_handler) }
    | _, _ => table

/-- The table after a sequence of registrations. -/
def registered_opcodes (registrations : List Registration) : OpcodeTable :=
  registrations.foldl ov_vm_register standard_opcodes

/-- `ov_vm_prog_status`, without the state that stands for a missing program. -/
inductive Status where
  | ok
  | aborting
  | failed_to_abort
deriving DecidableEq

/-- `ov_vm_prog`. The arguments of the instructions are for the handlers only. -/
structure Program where
  instructions : List Opcode
  program_counter : Int := 0
  state : Status := .ok
  last_instr_retval : Retval := .next

/-- What can be seen of a program from the outside, with the moments when it is
    stopped and when an instruction is completed. -/
inductive Event where
  | invoked (index : Nat)
  | completed (index : Nat)
  | stopped
  | inverted (index : Nat)
  | program_done
  | program_aborted
  | program_failed_to_abort
deriving DecidableEq

/-- Where the control is. -/
inductive Control where
  | absent
  | waiting (prog : Program)
  | executing (prog : Program)

/-- An id of the database: its program, and the events since it was triggered last. -/
structure Slot where
  control : Control := .absent
  log : List Event := []

namespace Program

variable (prog : Program)

/-- The index that a handler sees as its current instruction. -/
def index : Nat := prog.program_counter.toNat

/-- `ov_vm_prog_current_instr`. It is `none` when the instruction would be read
    from outside the list. -/
def current_instr : Option Opcode :=
  if 0 ≤ prog.program_counter then prog.instructions[prog.index]? else none

def propagate_program_counter : Program :=
  match prog.state with
  | .ok => { prog with program_counter := prog.program_counter + 1 }
  | .aborting => { prog with program_counter := prog.program_counter - 1 }
  | .failed_to_abort => prog

def release_program (log : List Event) : Slot where
  log := log ++ [match prog.state with
    | .ok => .program_done
    | .aborting => .program_aborted
    | .failed_to_abort => .program_failed_to_abort]

/-- `abort_program_with`, up to the call of `execute`. It is `none` at the assertion. -/
def abort_program_with (finish_current_step : Bool) (log : List Event) : Option Slot :=
  match prog.state with
  | .aborting => some ({ prog with state := .failed_to_abort : Program }.release_program log)
  | .ok =>
    let aborting : Program := { prog with state := .aborting }
    let interrupted :=
      if finish_current_step = false ∧ prog.last_instr_retval = .wait_and_next then
        aborting.propagate_program_counter
      else aborting
    some { control := .executing interrupted.propagate_program_counter, log := log ++ [.stopped] }
  | .failed_to_abort => none

/-- The test at the end of the loop in `execute`, and what comes after the loop. -/
def loop_or_release (log : List Event) : Slot :=
  if -1 < prog.program_counter then { control := .executing prog, log } else prog.release_program log

/-- `get_handler_for_current_instr`, for the instruction that was read. -/
def get_handler (table : OpcodeTable) (opcode : Opcode) : Option Handler :=
  if opcode = op_invalid then none
  else
    match prog.state with
    | .ok => (table opcode).handler
    | .aborting => (table opcode).inv_handler
    | .failed_to_abort => none

/-- The event of a handler that is called. -/
def call_event : Event :=
  if prog.state = .aborting then .inverted prog.index else .invoked prog.index

/-- An instruction that returns `OC_NEXT` is completed, if the program runs forwards. -/
def completion : List Event :=
  if prog.state = .ok then [.completed prog.index] else []

/-- The `switch` in `execute`. -/
def treat_retval (retval : Retval) (log : List Event) : Option Slot :=
  let returned : Program := { prog with last_instr_retval := retval }
  match retval with
  | .error => returned.abort_program_with false log
  | .next => some (returned.propagate_program_counter.loop_or_release (log ++ prog.completion))
  | .wait_and_next =>
    if prog.state = .aborting then some (returned.propagate_program_counter.loop_or_release log)
    else some { control := .waiting returned.propagate_program_counter, log }
  | .wait_and_repeat =>
    if prog.state = .aborting then some (returned.loop_or_release log)
    else some { control := .waiting returned, log }
  | .finished => some (returned.release_program log)

/-- One round of the loop in `execute`, with the value that a handler of the user
    returns when it is called. -/
def execute_round (table : OpcodeTable) (retval : Retval) (log : List Event) : Option Slot :=
  prog.current_instr.bind fun opcode =>
    if opcode = op_past_table then none
    else
      match prog.get_handler table opcode with
      | none => prog.treat_retval .error log
      | some handler => prog.treat_retval (handler.answer retval) (log ++ [prog.call_event])

/-- `ov_vm_continue`, up to the call of `execute`: the instruction that waited is
    completed, unless it is to be repeated. -/
def resume (log : List Event) : Slot where
  control := .executing prog
  log := if prog.last_instr_retval = .wait_and_next then log ++ [.completed (prog.index - 1)] else log

end Program

/-- The calls from outside, the timer, and the rounds of `execute`. -/
inductive Action where
  | trigger (instructions : List Opcode) (available : Bool)
  | resume
  | abort (finish_current_step : Bool)
  | timeout
  | execute (retval : Retval)

/-- A step for one id. While the program is executing, nothing but its handlers
    can happen to it. -/
def slot_step (table : OpcodeTable) (action : Action) (slot : Slot) : Option Slot :=
  match action, slot.control with
  | .trigger instructions available, .absent =>
    some (if available then { control := .executing { instructions } } else slot)
  | .trigger _ _, .waiting _ => some slot
  | .resume, .absent => some slot
  | .resume, .waiting prog => some (prog.resume slot.log)
  | .abort _, .absent => some slot
  | .abort finish_current_step, .waiting prog => prog.abort_program_with finish_current_step slot.log
  | .timeout, .absent => some slot
  | .timeout, .waiting prog => prog.abort_program_with false slot.log
  | .execute retval, .executing prog => prog.execute_round table retval slot.log
  | _, _ => none

/-- The database of the programs, by id. -/
abbrev Vm := String → Slot

def Vm.empty : Vm := fun _ => {}

def step (table : OpcodeTable) (event : String × Action) (vm : Vm) : Option Vm :=
  (slot_step table event.2 (vm event.1)).map (Function.update vm event.1)

end openvocs.vm
