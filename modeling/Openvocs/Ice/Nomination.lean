import Openvocs.Ice.Unfreeze
import Openvocs.Lib.Machine

/-!
Pairs and candidates are pointers; what they point to stands in tables. A step that reads memory that
was freed, or that frees the session itself, has no result.
-/

namespace openvocs.ice.nomination

open firsts

inductive IceState where
  | error
  | init
  | running
  | completed
  | failed
  deriving DecidableEq

/-- The part of `ov_ice_candidate` that is read here. -/
structure Candidate where
  addr : List Byte
  port : BitVec 16
  /-- `gathering` is `OV_ICE_GATHERING_SUCCESS`. -/
  gathered : Bool
  trickled : Bool := false
  foundation : List Byte
  priority : BitVec 32

/-- `ov_ice_pair`, without DTLS, SRTP and its timers. -/
structure Pair (κ : Type) where
  stream : Nat
  state : PairState := .frozen
  priority : BitVec 64
  nominated : Bool := false
  success_count : BitVec 16 := 0
  progress_count : BitVec 16 := 0
  local_candidate : κ
  remote_candidate : κ

structure Stream (ν κ : Type) where
  pairs : List ν
  valid : List ν
  trigger : List ν
  selected : Option ν
  state : IceState
  stun : IceState
  dtls : IceState
  srtp : IceState
  /-- `type` is `OV_ICE_DTLS_ACTIVE`. -/
  dtls_active : Bool
  local_gathered : Bool
  remote_gathered : Bool
  local_candidates : List κ
  remote_candidates : List κ

/-- `ov_ice_session`, with the memory that its pointers lead to. -/
structure Session (ν κ : Type) where
  controlling : Bool
  nominate_started : Bool
  trickling_started : Bool
  tiebreaker : BitVec 64
  state : IceState
  /-- The timer for the next connectivity check is set. -/
  connectivity : Bool
  count : Nat
  stream : Nat → Stream ν κ
  pair : ν → Pair κ
  candidate : κ → Candidate

/-- What a step finds out of the system: whether a binding request can be sent, whether a DTLS
handshake can be started and a timer be set. The connectivity checks call themselves at most `rounds`
times, and `room` fingerprints find room in the buffer of a response. -/
structure World (ν κ : Type) where
  sends : Session ν κ → ν → Bool
  handshakes : Session ν κ → ν → Bool
  timer : Session ν κ → Bool
  rounds : Nat
  room : Nat

set_option linter.unusedSectionVars false

variable {ν κ : Type} [DecidableEq ν] [DecidableEq κ]

namespace Session

variable (s : Session ν κ)

def set_pair (p : ν) (f : Pair κ → Pair κ) : Session ν κ :=
  { s with pair := Function.update s.pair p (f (s.pair p)) }

def set_state (p : ν) (state : PairState) : Session ν κ := s.set_pair p fun pair => { pair with state := state }

def set_stream (i : Nat) (f : Stream ν κ → Stream ν κ) : Session ν κ :=
  { s with stream := Function.update s.stream i (f (s.stream i)) }

variable {s}

@[simp] theorem set_pair_self (p : ν) (f : Pair κ → Pair κ) : (s.set_pair p f).pair p = f (s.pair p) :=
  Function.update_self ..

theorem set_pair_of_ne {p q : ν} (f : Pair κ → Pair κ) (h : q ≠ p) : (s.set_pair p f).pair q = s.pair q :=
  Function.update_of_ne h ..

@[simp] theorem set_pair_stream (p : ν) (f : Pair κ → Pair κ) : (s.set_pair p f).stream = s.stream := rfl

@[simp] theorem set_stream_self (i : Nat) (f : Stream ν κ → Stream ν κ) :
    (s.set_stream i f).stream i = f (s.stream i) :=
  Function.update_self ..

theorem set_stream_of_ne {i j : Nat} (f : Stream ν κ → Stream ν κ) (h : j ≠ i) :
    (s.set_stream i f).stream j = s.stream j :=
  Function.update_of_ne h ..

@[simp] theorem set_stream_pair (i : Nat) (f : Stream ν κ → Stream ν κ) : (s.set_stream i f).pair = s.pair := rfl

variable (s)

/-- The memory of the pair was not freed. -/
def alive (p : ν) : Bool := p ∈ (s.stream (s.pair p).stream).pairs

def pair_free (p : ν) : Session ν κ :=
  s.set_stream (s.pair p).stream fun stream =>
    { stream with
      pairs := stream.pairs.erase p
      valid := stream.valid.erase p
      trigger := stream.trigger.erase p
      selected := if stream.selected = some p then none else stream.selected }

/-- `ov_list_queue_push` on the trigger list, for a pair that is not in it. -/
def push_trigger (i : Nat) (p : ν) : Session ν κ :=
  s.set_stream i fun stream =>
    { stream with trigger := if p ∈ stream.trigger then stream.trigger else p :: stream.trigger }

def trickle_candidates (i : Nat) : Session ν κ :=
  if !s.trickling_started then s
  else
    let candidates := (s.stream i).local_candidates
    let trickled := { s with
      candidate := fun c =>
        if c ∈ candidates ∧ (s.candidate c).gathered then { s.candidate c with trickled := true }
        else s.candidate c }
    if candidates.all fun c => (s.candidate c).trickled || (s.candidate c).gathered then
      trickled.set_stream i fun stream => { stream with local_gathered := true }
    else trickled

/-- The inner loop of `ov_ice_stream_update` frees all frozen and waiting pairs. -/
def free_unchecked (i : Nat) : Session ν κ :=
  (s.stream i).pairs.foldl
    (fun s p => if (s.pair p).state = .frozen ∨ (s.pair p).state = .waiting then s.pair_free p else s) s

/-- What the valid pairs are asked for before they may be nominated. -/
def eligible (v : ν) : Bool := !(s.pair v).nominated && 5 ≤ (s.pair v).success_count.toNat

end Session

/-- The element behind `v` in a list. -/
def behind (v : ν) (list : List ν) : Option ν := (list.dropWhile (· ≠ v)).tail.head?

/-- The loop of `ov_ice_stream_update` over the valid pairs. The element behind is read before the
current one is looked at; it is gone when its pair was freed since. -/
def update_loop (i : Nat) : Nat → Option ν → Option ν → Session ν κ → Option (Session ν κ × Option ν)
  | _, none, selected, s => some (s, selected)
  | 0, some _, _, _ => none
  | fuel + 1, some v, selected, s =>
    if v ∉ (s.stream i).valid ∨ !s.alive v then none
    else
      let next := behind v (s.stream i).valid
      if (s.pair v).nominated then update_loop i fuel next selected (s.free_unchecked i)
      else if s.controlling && s.nominate_started && 5 ≤ (s.pair v).success_count.toNat then
        match selected with
        | none => update_loop i fuel next (some v) s
        | some w =>
          if !s.alive w then none
          else if (s.pair w).priority < (s.pair v).priority then update_loop i fuel next (some v) s
          else update_loop i fuel next (some w) s
      else update_loop i fuel next selected s

/-- What is done with the pair that the loop selected. -/
def nominate (i : Nat) (p : ν) (s : Session ν κ) : Session ν κ :=
  (s.push_trigger i p).set_pair p fun pair => { pair with nominated := true }

/-- The first thing an update does. -/
def Stream.note_completed (stream : Stream ν κ) : Stream ν κ :=
  { stream with
    state :=
      if stream.stun = .completed ∧ stream.dtls = .completed ∧ stream.srtp = .completed then .completed
      else stream.state }

def stream_update (i : Nat) (s : Session ν κ) : Option (Session ν κ) :=
  let s := s.set_stream i Stream.note_completed
  if !(s.stream i).local_gathered then some (s.trickle_candidates i)
  else if (s.stream i).remote_gathered ∧ ∀ p ∈ (s.stream i).pairs, (s.pair p).state = .failed then
    some (s.set_stream i fun stream => { stream with state := .failed })
  else
    match update_loop i ((s.stream i).valid.length + 1) (s.stream i).valid.head? none s with
    | none => none
    | some (s, none) => some s
    | some (s, some p) => if s.alive p then some (nominate i p s) else none

def drop_unselected (s : Session ν κ) : Session ν κ :=
  (List.range s.count).foldl
    (fun s i => (s.stream i).pairs.foldl (fun s p => if (s.stream i).selected = some p then s else s.pair_free p) s) s

def session_unfreeze (s : Session ν κ) : Session ν κ :=
  if s.count = 0 then s
  else
    let pairs := (s.stream 0).pairs
    let thawed := unfreeze.unfreeze_loop []
      (pairs.map fun p => ⟨(s.pair p).state, (s.candidate (s.pair p).local_candidate).foundation⟩)
    (pairs.zip thawed).foldl (fun s entry => s.set_state entry.1 entry.2.state) s

def unfreeze_foundation (foundation : List Byte) (s : Session ν κ) : Session ν κ :=
  (List.range s.count).foldl
    (fun s i => (s.stream i).pairs.foldl
      (fun s p =>
        if (s.pair p).state = .frozen ∧
          unfreeze.key foundation = unfreeze.key (s.candidate (s.pair p).local_candidate).foundation then
          s.set_state p .waiting
        else s) s) s

/-- The state and the counter of a pair for which a request was sent. -/
def Pair.sent (pair : Pair κ) : Pair κ :=
  { pair with
    progress_count := pair.progress_count + 1
    state := if pair.state = .success then .success else .progress }

def send_binding_request (w : World ν κ) (p : ν) (s : Session ν κ) : Session ν κ × Bool :=
  if !w.sends s p then (s.set_state p .failed, false)
  else
    let s := s.set_pair p Pair.sent
    if 100 < (s.pair p).progress_count.toNat then (s.set_state p .failed, false) else (s, true)

/-- The pair that is checked next: `ov_list_queue_pop` takes the last one of the trigger list. -/
def next_check (j : Nat) (s : Session ν κ) : Session ν κ × Option ν :=
  match (s.stream j).trigger.getLast? with
  | some p => (s.set_stream j fun stream => { stream with trigger := stream.trigger.dropLast }, some p)
  | none => (s, (s.stream j).pairs.find? fun p => (s.pair p).state = .waiting)

/-- The timer for the next check is set, if it is not set yet. -/
def set_timer (w : World ν κ) (s : Session ν κ) : Session ν κ × Bool :=
  if s.connectivity then (s, true)
  else if w.timer s then ({ s with connectivity := true }, true)
  else (s, false)

/-- What is behind the label `reschedule_session`. -/
def reschedule_session (w : World ν κ) (s : Session ν κ) : Session ν κ × Bool :=
  match set_timer w s with
  | (s, true) => (session_unfreeze s, true)
  | (s, false) => (s, false)

/-- `perform_connectivity_check`, from the stream `i` on. -/
def perform_connectivity_check (w : World ν κ) : Nat → Nat → Session ν κ → Option (Session ν κ × Bool)
  | 0, _, _ => none
  | rounds + 1, i, s =>
    match (List.range' i (s.count - i)).find? fun j => (s.stream j).state = .running ∧ (s.stream j).pairs ≠ [] with
    | none => some (reschedule_session w s)
    | some j =>
      match next_check j s with
      | (s, none) =>
        if j + 1 < s.count then perform_connectivity_check w rounds (j + 1) s else some (reschedule_session w s)
      | (s, some p) =>
        if !s.alive p then none
        else if (s.pair p).state = .progress ∧ 100 < (s.pair p).progress_count.toNat then
          perform_connectivity_check w rounds 0 (s.set_state p .failed)
        else
          match send_binding_request w p s with
          | (s, false) => perform_connectivity_check w rounds j (s.set_state p .failed)
          | (s, true) => some (set_timer w s)

def checklists_run (w : World ν κ) (s : Session ν κ) : Option (Session ν κ) :=
  if s.state = .error then some { s with state := .failed }
  else if s.state = .completed ∨ s.connectivity ∨ s.count = 0 then some s
  else
    match perform_connectivity_check w w.rounds 0 (session_unfreeze s) with
    | none => none
    | some (s, true) => some { s with state := .running }
    | some (s, false) => some { s with state := .failed }

/-- `ov_ice_pair_create`, once the sockets were found to be similar. -/
def pair_create (i : Nat) (p : ν) (l r : κ) (s : Session ν κ) : Session ν κ :=
  let priority := (pair_calculate_priority s.controlling
    ⟨⟨(s.candidate l).priority⟩, ⟨(s.candidate r).priority⟩, 0⟩).priority
  let created : Session ν κ := { s with
    pair := Function.update s.pair p
      { stream := i, priority := priority, local_candidate := l, remote_candidate := r } }
  created.set_stream i fun stream => { stream with pairs := stream.pairs ++ [p] }

/-- `ov_ice_stream_order`, an insertion sort. -/
def stream_order (i : Nat) (s : Session ν κ) : Session ν κ :=
  s.set_stream i fun stream =>
    { stream with
      pairs := stream.pairs.reverse.insertionSort fun p q => (s.pair q).priority ≤ (s.pair p).priority }

/-- The pairs of a stream as pruning sees them. -/
def Session.check_list (s : Session ν κ) (i : Nat) : CheckList ν κ where
  nodes := ⟨none, fun _ => none, fun _ => none⟩
  state := fun p => (s.pair p).state
  local_candidate := fun p => (s.pair p).local_candidate
  remote_candidate := fun p => (s.pair p).remote_candidate
  selected := (s.stream i).selected
  valid := (s.stream i).valid
  trigger := (s.stream i).trigger

/-- `ov_ice_stream_prune`: the pairs that do not stay are freed. -/
def stream_prune (i : Nat) (s : Session ν κ) : Session ν κ :=
  let stays := kept (s.check_list i).drops (s.stream i).pairs
  (s.stream i).pairs.foldl (fun s p => if p ∈ stays then s else s.pair_free p) s

/-- A new candidate, and a pair with it that is not pruned: it is successful when the pairs are. -/
def add_reflexive (i : Nat) (p : ν) (l r : κ) (s : Session ν κ) : Session ν κ :=
  stream_prune i (stream_order i ((pair_create i p l r s).set_state p .success))

/-! ## Session updates

`update` stands for `ov_ice_stream_update`, so that what is asked of its calls can be said. -/

section update

variable (update : Nat → Session ν κ → Option (Session ν κ))

/-- The loop of `ov_ice_session_update`: whether all streams are completed, and whether one failed. -/
def update_streams : List Nat → Session ν κ → Option (Session ν κ × Bool × Bool)
  | [], s => some (s, true, false)
  | i :: streams, s =>
    (if (s.stream i).state = .running then update i s else some s).bind fun s =>
      (update_streams streams s).map fun (t, completed, failed) =>
        (t, completed && (s.stream i).state ≠ .running, failed || (s.stream i).state = .failed)

/-- `ov_ice_session_update`. A session that failed is dropped. -/
def session_update (s : Session ν κ) : Option (Session ν κ) :=
  if s.state ≠ .running then some s
  else
    (update_streams update (List.range s.count) s).bind fun (s, completed, failed) =>
      if failed then none
      else if completed then some (drop_unselected { s with state := .completed })
      else some s

/-- Both calls that follow when something has changed. -/
def update_and_run (w : World ν κ) (s : Session ν κ) : Option (Session ν κ) :=
  (session_update update s).bind (checklists_run w)

/-- `ov_ice_pair_handshake_active`, as far as the pair knows of it. -/
def handshake_active (w : World ν κ) (p : ν) (s : Session ν κ) : Session ν κ :=
  if w.handshakes s p then s else s.set_state p .failed

/-- A binding request. It is authentic when its attributes are there and can be read, and its
integrity is the one of the stream's password. A role attribute may be there and not be readable. What
is made for a new remote candidate comes with it: the pair, the candidate and its foundation. -/
structure Request (ν κ : Type) where
  stream : Nat
  base : κ
  addr : List Byte
  port : BitVec 16
  authentic : Bool
  controlling : Option (Option (BitVec 64))
  controlled : Option (Option (BitVec 64))
  use_candidate : Bool
  priority : BitVec 32
  created : Option (ν × κ × List Byte)

/-- What the roles of a session and of a request come to. -/
inductive Roles where
  | agree
  | conflict
  | change
  | unreadable
  deriving DecidableEq

def check_roles (s : Session ν κ) (r : Request ν κ) : Roles :=
  if s.controlling then
    match r.controlling with
    | none => .agree
    | some none => .unreadable
    | some (some tiebreaker) => if tiebreaker ≤ s.tiebreaker then .conflict else .change
  else
    match r.controlled with
    | none => .agree
    | some none => .unreadable
    | some (some tiebreaker) => if s.tiebreaker < tiebreaker then .conflict else .change

/-- The pairs that the request belongs to, in the order of the list. -/
def matching_pairs (s : Session ν κ) (r : Request ν κ) : List ν :=
  (s.stream r.stream).pairs.filter fun p =>
    (s.candidate (s.pair p).local_candidate).gathered &&
      (s.candidate (s.pair p).remote_candidate).addr = r.addr &&
      (s.candidate (s.pair p).remote_candidate).port = r.port

/-- What a request does to the state of a pair. -/
def trigger_check (i : Nat) (p : ν) (s : Session ν κ) : Session ν κ :=
  if (s.pair p).state = .success then s.set_pair p fun pair => { pair with progress_count := 0 }
  else if p ∈ (s.stream i).trigger then s
  else
    ((s.push_trigger i p).set_state p .waiting).set_stream i fun stream =>
      { stream with state := if stream.state = .failed then .running else stream.state }

/-- What a request with USE-CANDIDATE does to a pair. -/
def select_pair (w : World ν κ) (i : Nat) (p : ν) (s : Session ν κ) : Session ν κ :=
  let s := (s.set_pair p fun pair => { pair with nominated := true }).set_stream i fun stream =>
    { stream with selected := some p, stun := .completed }
  if (s.stream i).dtls_active then handshake_active w p s else s

/-- What a round of the loop over the pairs of a request does before the response is sent. -/
def check_pair (w : World ν κ) (r : Request ν κ) (p : ν) (s : Session ν κ) : Option (Session ν κ) :=
  if !s.alive p then none
  else
    let s := trigger_check r.stream p s
    let s := if s.controlling && r.use_candidate then select_pair w r.stream p s else s
    update_and_run update w s

/-- The loop. Each response is sent through its pair; it ends early when a fingerprint has no room. -/
def answer_pairs (w : World ν κ) (r : Request ν κ) : Nat → List ν → Session ν κ → Option (Session ν κ)
  | _, [], s => update_and_run update w s
  | 0, p :: _, s => check_pair update w r p s
  | room + 1, p :: pairs, s =>
    (check_pair update w r p s).bind fun s => if s.alive p then answer_pairs w r room pairs s else none

/-- The memory of a new pair is not the one of a pair that there is. -/
def taken (s : Session ν κ) (p : ν) : Bool := (List.range s.count).any fun i => p ∈ (s.stream i).pairs

/-- The peer reflexive candidate of a request from an unknown address, and its pair. -/
def add_remote (r : Request ν κ) (p : ν) (c : κ) (foundation : List Byte) (s : Session ν κ) : Session ν κ :=
  let s : Session ν κ := { s with
    candidate := Function.update s.candidate c
      { addr := r.addr, port := r.port, gathered := false, foundation := foundation, priority := r.priority } }
  let s := s.set_stream r.stream fun stream => { stream with remote_candidates := stream.remote_candidates ++ [c] }
  (add_reflexive r.stream p r.base c s).set_state p .waiting

/-- `io_process_stun_request`, up to the octets of the responses. The pairs are taken from the end of
their list. A change of the role ends the run: what follows is about sessions that keep it. -/
def process_stun_request (w : World ν κ) (r : Request ν κ) (s : Session ν κ) : Option (Session ν κ) :=
  if !r.authentic then some s
  else
    match check_roles s r with
    | .unreadable => some s
    | .conflict => some s
    | .change => none
    | .agree =>
      match matching_pairs s r, r.created with
      | [], none => some s
      | [], some (p, c, foundation) =>
        if taken s p then none else answer_pairs update w r w.room [p] (add_remote r p c foundation s)
      | p :: pairs, _ => answer_pairs update w r w.room (p :: pairs).reverse s

/-- A success response to the check of a pair. It is readable when its mapped address and its priority
are. What is made for a new local candidate comes with it: the pair, the candidate, its foundation
and its priority. -/
structure Success (ν κ : Type) where
  stream : Nat
  pair : ν
  readable : Bool
  addr : List Byte
  port : BitVec 16
  mapped_addr : List Byte
  mapped_port : BitVec 16
  created : Option (ν × κ × List Byte × BitVec 32)

/-- The peer reflexive candidate of a response with an unknown mapped address, and its pair. The list
of local candidates is ordered too, but its order is not read here. -/
def add_local (r : Success ν κ) (p : ν) (c : κ) (foundation : List Byte) (priority : BitVec 32)
    (s : Session ν κ) : Session ν κ :=
  let remote := (s.pair r.pair).remote_candidate
  let s : Session ν κ := { s with
    candidate := Function.update s.candidate c
      { addr := r.mapped_addr, port := r.mapped_port, gathered := true, foundation := foundation,
        priority := priority } }
  let s := s.set_stream r.stream fun stream => { stream with local_candidates := stream.local_candidates ++ [c] }
  (add_reflexive r.stream p c remote s).push_trigger r.stream p

/-- A pair whose check succeeded becomes valid and is checked again. -/
def succeed (i : Nat) (p : ν) (s : Session ν κ) : Session ν κ :=
  let s := s.set_pair p fun pair =>
    { pair with state := .success, success_count := pair.success_count + 1, progress_count := 0 }
  let s := s.set_stream i fun stream =>
    { stream with valid := if p ∈ stream.valid then stream.valid else stream.valid ++ [p] }
  unfreeze_foundation (s.candidate (s.pair p).local_candidate).foundation (s.push_trigger i p)

/-- What a success response does with a pair that is nominated. -/
def complete (w : World ν κ) (i : Nat) (p : ν) (s : Session ν κ) : Session ν κ :=
  if !(s.pair p).nominated then s
  else if !s.controlling then s.set_stream i fun stream => { stream with state := .completed }
  else
    let s := s.set_stream i fun stream => { stream with selected := some p, state := .completed }
    let s := if (s.stream i).dtls_active then handshake_active w p s else s
    (s.set_state p .success).set_stream i fun stream => { stream with state := .completed }

def process_success_response (w : World ν κ) (r : Success ν κ) (s : Session ν κ) : Option (Session ν κ) :=
  let remote := s.candidate (s.pair r.pair).remote_candidate
  let mine := s.candidate (s.pair r.pair).local_candidate
  if !s.alive r.pair then none
  else if !r.readable then some s
  else if remote.port ≠ r.port ∨ remote.addr ≠ r.addr then some s
  else if mine.port = r.mapped_port ∧ mine.addr = r.mapped_addr then
    session_update update (complete w r.stream r.pair (succeed r.stream r.pair s))
  else
    match r.created with
    | none => some s
    | some (p, c, foundation, priority) =>
      if taken s p then none
      else session_update update (complete w r.stream p (succeed r.stream p (add_local r p c foundation priority s)))

/-- An error response to the check of a pair. -/
structure Failure (ν : Type) where
  stream : Nat
  pair : ν
  /-- There is an error code. -/
  readable : Bool
  role_conflict : Bool

/-- `io_process_stun_pair_error_response`, for sessions that keep their role. -/
def process_error_response (r : Failure ν) (s : Session ν κ) : Option (Session ν κ) :=
  if !s.alive r.pair then none
  else if !r.readable then some s
  else if r.role_conflict then none
  else
    let t := s.set_state r.pair .failed
    session_update update
      (if (s.pair r.pair).nominated && s.controlling then
        (t.set_pair r.pair fun pair => { pair with nominated := false }).set_stream r.stream fun stream =>
          { stream with state := .failed }
      else t)

/-- What happens to a session. Meanwhile other code may have changed it. -/
inductive Event (ν κ : Type) where
  | request (w : World ν κ) (r : Request ν κ)
  | success (w : World ν κ) (r : Success ν κ)
  | failure (r : Failure ν)
  | update (i : Nat)
  | meanwhile (t : Session ν κ)

def step (e : Event ν κ) (s : Session ν κ) : Option (Session ν κ) :=
  match e with
  | .request w r => process_stun_request update w r s
  | .success w r => process_success_response update w r s
  | .failure r => process_error_response update r s
  | .update i => update i s
  | .meanwhile t => some t

end update

end openvocs.ice.nomination
