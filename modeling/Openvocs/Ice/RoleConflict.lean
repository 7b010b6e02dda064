import Mathlib.Data.BitVec
import Mathlib.Logic.Function.Basic
import Openvocs.Lib.Machine

/-!
The two sessions and the messages between them are one machine: messages are sent at any time
and arrive in any order, each at most once.
-/

namespace openvocs.ice.role

open machine Function

/-- The part of `ov_ice_session` that decides a role conflict. -/
structure Session where
  controlling : Bool
  tiebreaker : BitVec 64
deriving DecidableEq

def INT64_MAX : BitVec 64 := 0x7fffffffffffffff#64

def UINT64_MAX : BitVec 64 := 0xffffffffffffffff#64

/-- The values `ov_random_range` may return: with its bounds the wrong way around it returns
zero, else any value between them. -/
def random_range (min max value : BitVec 64) : Prop :=
  let max := if max = 0#64 then INT64_MAX else max
  let min := if min = 0#64 then 1#64 else min
  (max < min ∧ value = 0#64) ∨ (min ≤ value ∧ value ≤ max)

instance (min max value : BitVec 64) : Decidable (random_range min max value) :=
  inferInstanceAs (Decidable (_ ∨ _))

/-- `change_tie_breaker`, when its loop ends with the value `new`. The loop draws until the
value differs from the tie breaker the session has, so no other value can end it. -/
def change_tie_breaker (session : Session) (min max new : BitVec 64) : Option Session :=
  if new ≠ session.tiebreaker ∧ random_range min max new then
    some { session with tiebreaker := new }
  else none

/-- `ov_ice_session_change_role`, up to the restart of the check lists. -/
def session_change_role (session : Session) (remote_tiebreaker new : BitVec 64) : Option Session :=
  let session := { session with controlling := !session.controlling }
  if session.controlling then change_tie_breaker session remote_tiebreaker UINT64_MAX new
  else change_tie_breaker session 0 remote_tiebreaker new

/-- What a binding request says of its sender: ICE-CONTROLLING or ICE-CONTROLLED, with the tie
breaker in it. -/
structure Request where
  controlling : Bool
  tiebreaker : BitVec 64
deriving DecidableEq

/-- The request a session sends. -/
def Session.request (session : Session) : Request := ⟨session.controlling, session.tiebreaker⟩

inductive Response where
  | success
  | role_conflict
deriving DecidableEq

/-- The check for role conflicts of `io_process_stun_request`, with the response it leads to. -/
def process_stun_request (session : Session) (request : Request) (new : BitVec 64) :
    Option (Session × Response) :=
  if session.controlling then
    if request.controlling then
      if request.tiebreaker ≤ session.tiebreaker then some (session, .role_conflict)
      else (session_change_role session request.tiebreaker new).map (·, .success)
    else some (session, .success)
  else
    if !request.controlling then
      if session.tiebreaker < request.tiebreaker then some (session, .role_conflict)
      else (session_change_role session request.tiebreaker new).map (·, .success)
    else some (session, .success)

/-- `io_process_stun_pair_error_response` for the error 487. It is reached when the pointer that
the transaction kept passes `ov_ice_pair_cast`. A restart frees the pairs and keeps the
transactions, so whether a pointer from before a restart passes is left open. -/
def process_stun_role_conflict (session : Session) (is_pair : Bool) (new : BitVec 64) :
    Option Session :=
  if is_pair then session_change_role session session.tiebreaker new else some session

inductive Side where
  | left
  | right
deriving DecidableEq

def Side.other : Side → Side
  | .left => .right
  | .right => .left

/-- A message in flight. A response also shows the request it answers, which nothing reads. -/
inductive Message where
  | request (sender : Side) (request : Request)
  | response (receiver : Side) (response : Response) (answered : Request)
deriving DecidableEq

/-- Both sessions, the messages in flight, and which side has had a request processed. -/
structure State where
  session : Side → Session
  flight : List Message
  processed : Side → Bool

/-- Two sessions that have exchanged nothing. -/
def State.start (session : Side → Session) : State := ⟨session, [], fun _ => false⟩

/-- What can happen next: a side sends a request, or a message in flight arrives or is lost. -/
inductive Event where
  | send (side : Side)
  | deliver (index : Nat) (new : BitVec 64) (is_pair : Bool)
  | drop (index : Nat)
deriving DecidableEq

/-- A message that is no longer in flight is processed at its receiver. -/
def receive (new : BitVec 64) (is_pair : Bool) (s : State) : Message → Option State
  | .request sender request =>
    (process_stun_request (s.session sender.other) request new).map fun (session, response) =>
      { session := update s.session sender.other session
        flight := s.flight ++ [.response sender response request]
        processed := update s.processed sender true }
  | .response _ .success _ => some s
  | .response receiver .role_conflict _ =>
    (process_stun_role_conflict (s.session receiver) is_pair new).map fun session =>
      { s with session := update s.session receiver session }

def step : Event → State → Option State
  | .send side, s => some { s with flight := s.flight ++ [.request side (s.session side).request] }
  | .deliver index new is_pair, s =>
    s.flight[index]?.bind (receive new is_pair { s with flight := s.flight.eraseIdx index })
  | .drop index, s =>
    if index < s.flight.length then some { s with flight := s.flight.eraseIdx index } else none

/-- A 487 that is acted on finds its receiver in the role the answered request carried. -/
def conflict_in_role (s : State) : Event → Prop
  | .deliver index _ true =>
    match s.flight[index]? with
    | some (.response receiver .role_conflict answered) =>
      (s.session receiver).controlling = answered.controlling
    | _ => True
  | _ => True

instance (s : State) : ∀ e : Event, Decidable (conflict_in_role s e)
  | .send _ | .drop _ | .deliver _ _ false => isTrue trivial
  | .deliver index new true =>
    match h : s.flight[index]? with
    | some (.response receiver .role_conflict answered) =>
      decidable_of_iff ((s.session receiver).controlling = answered.controlling)
        (by simp [conflict_in_role, h])
    | some (.response _ .success _) | some (.request _ _) | none =>
      isTrue (by simp [conflict_in_role, h])

theorem change_tie_breaker_controlling {session changed : Session} {min max new : BitVec 64}
    (h : change_tie_breaker session min max new = some changed) :
    changed.controlling = session.controlling := by
  simp only [change_tie_breaker] at h
  split at h
  · cases h
    rfl
  · cases h

theorem session_change_role_controlling {session changed : Session} {remote new : BitVec 64}
    (h : session_change_role session remote new = some changed) :
    changed.controlling = !session.controlling := by
  simp only [session_change_role] at h
  split at h
  · exact change_tie_breaker_controlling h
  · exact change_tie_breaker_controlling h

/-- Of two sessions in one role, the one that keeps it: the larger tie breaker is to be the
controlling one, and the smaller the controlled one. -/
def keeps (controlling : Bool) (stayer changer : BitVec 64) : Prop :=
  if controlling then changer < stayer else stayer < changer

theorem keeps_or_keeps (controlling : Bool) {a b : BitVec 64} (h : a ≠ b) :
    keeps controlling a b ∨ keeps controlling b a := by
  have htotal : a < b ∨ b < a := by bv_omega
  cases controlling with
  | true => exact htotal.symm
  | false => exact htotal

theorem process_stun_request_of_ne {session : Session} {request : Request} (new : BitVec 64)
    (h : request.controlling = !session.controlling) :
    process_stun_request session request new = some (session, .success) := by
  unfold process_stun_request
  cases hrole : session.controlling with
  | true => simp [h, hrole]
  | false => simp [h, hrole]

theorem process_stun_request_of_keeps {controlling : Bool} {stayer changer : BitVec 64}
    (new : BitVec 64) (h : keeps controlling stayer changer) :
    process_stun_request ⟨controlling, stayer⟩ ⟨controlling, changer⟩ new =
      some (⟨controlling, stayer⟩, .role_conflict) := by
  cases controlling with
  | true =>
    have hle : changer ≤ stayer := BitVec.le_of_lt h
    simp [process_stun_request, hle]
  | false =>
    have hlt : stayer < changer := h
    simp [process_stun_request, hlt]

theorem process_stun_request_changes {controlling : Bool} {stayer changer new : BitVec 64}
    {changed : Session} {response : Response} (h : keeps controlling stayer changer)
    (hprocess : process_stun_request ⟨controlling, changer⟩ ⟨controlling, stayer⟩ new =
      some (changed, response)) :
    changed.controlling = !controlling ∧ response = .success := by
  have hchange : (session_change_role ⟨controlling, changer⟩ stayer new).map (·, Response.success) =
      some (changed, response) := by
    cases controlling with
    | true =>
      have hle : ¬ stayer ≤ changer := BitVec.not_le.mpr h
      simpa [process_stun_request, hle] using hprocess
    | false =>
      have hlt : ¬ changer < stayer := BitVec.not_lt.mpr (BitVec.le_of_lt h)
      simpa [process_stun_request, hlt] using hprocess
  obtain ⟨session, hsession, heq⟩ := Option.map_eq_some_iff.mp hchange
  cases heq
  exact ⟨session_change_role_controlling hsession, rfl⟩

@[simp] theorem Side.other_other (side : Side) : side.other.other = side := by cases side <;> rfl

theorem Side.other_ne (side : Side) : side.other ≠ side := by cases side <;> decide

theorem Side.eq_or_eq_other (side a : Side) : a = side ∨ a = side.other := by
  cases side <;> cases a <;> decide

/-- One session keeps the role both started in, with its tie breaker. The other one has that
role and its first tie breaker or has the other role, and so have the requests it sent. It has
the other role as soon as it processed a request. -/
structure Settling (controlling : Bool) (stayer : Side) (kept first : BitVec 64) (s : State) :
    Prop where
  stays : s.session stayer = ⟨controlling, kept⟩
  changes : s.session stayer.other = ⟨controlling, first⟩ ∨
    (s.session stayer.other).controlling = !controlling
  stayer_request : ∀ r, Message.request stayer r ∈ s.flight → r = ⟨controlling, kept⟩
  changer_request : ∀ r, Message.request stayer.other r ∈ s.flight →
    r = ⟨controlling, first⟩ ∨ r.controlling = !controlling
  conflict : ∀ receiver r, Message.response receiver .role_conflict r ∈ s.flight →
    receiver = stayer.other ∧ r.controlling = controlling
  settled : s.processed stayer = true → (s.session stayer.other).controlling = !controlling

section steps

variable {controlling : Bool} {stayer : Side} {kept first : BitVec 64} {s s' : State}

section

variable (h : Settling controlling stayer kept first s)

include h

theorem Settling.of_subset {flight : List Message}
    (hsubset : flight ⊆ s.flight) :
    Settling controlling stayer kept first { s with flight := flight } where
  stays := h.stays
  changes := h.changes
  stayer_request r hr := h.stayer_request r (hsubset hr)
  changer_request r hr := h.changer_request r (hsubset hr)
  conflict receiver r hr := h.conflict receiver r (hsubset hr)
  settled := h.settled

theorem Settling.send (side : Side) :
    Settling controlling stayer kept first
      { s with flight := s.flight ++ [.request side (s.session side).request] } where
  stays := h.stays
  changes := h.changes
  stayer_request r hr := by
    rcases List.mem_append.mp hr with hr | hr
    · exact h.stayer_request r hr
    obtain ⟨rfl, rfl⟩ : stayer = side ∧ r = (s.session side).request := by simpa using hr
    rw [h.stays]
    rfl
  changer_request r hr := by
    rcases List.mem_append.mp hr with hr | hr
    · exact h.changer_request r hr
    obtain ⟨rfl, rfl⟩ : stayer.other = side ∧ r = (s.session side).request := by simpa using hr
    rcases h.changes with hsame | hother
    · rw [hsame]
      exact Or.inl rfl
    · exact Or.inr hother
  conflict receiver r hr := by
    rcases List.mem_append.mp hr with hr | hr
    · exact h.conflict receiver r hr
    · simp at hr
  settled := h.settled

theorem Settling.success (receiver : Side) (r : Request) :
    Settling controlling stayer kept first
      { s with flight := s.flight ++ [.response receiver .success r] } where
  stays := h.stays
  changes := h.changes
  stayer_request r hr := h.stayer_request r (by simpa using hr)
  changer_request r hr := h.changer_request r (by simpa using hr)
  conflict receiver r hr := h.conflict receiver r (by simpa using hr)
  settled := h.settled

theorem Settling.changed {session : Session}
    (hrole : session.controlling = !controlling) :
    Settling controlling stayer kept first
      { s with session := update s.session stayer.other session } where
  stays := by
    rw [← h.stays]
    exact update_of_ne stayer.other_ne.symm _ _
  changes := by
    refine Or.inr ?_
    simpa using hrole
  stayer_request := h.stayer_request
  changer_request := h.changer_request
  conflict := h.conflict
  settled _ := by simpa using hrole

theorem Settling.receive_stayer
    (hkeeps : keeps controlling kept first) {new : BitVec 64} {is_pair : Bool}
    (hstep : receive new is_pair s (.request stayer ⟨controlling, kept⟩) = some s') :
    Settling controlling stayer kept first s' := by
  obtain ⟨⟨session, response⟩, hprocess, rfl⟩ := Option.map_eq_some_iff.mp hstep
  have hchanged : session.controlling = !controlling ∧ response = .success := by
    rcases h.changes with hsame | hother
    · rw [hsame] at hprocess
      exact process_stun_request_changes hkeeps hprocess
    rw [process_stun_request_of_ne new (by simp [hother])] at hprocess
    cases hprocess
    exact ⟨hother, rfl⟩
  obtain ⟨hrole, rfl⟩ := hchanged
  have hnow := (h.changed hrole).success stayer ⟨controlling, kept⟩
  exact ⟨hnow.stays, hnow.changes, hnow.stayer_request, hnow.changer_request, hnow.conflict,
    fun _ => by simpa using hrole⟩

theorem Settling.receive_changer
    (hkeeps : keeps controlling kept first) {request : Request}
    (hrequest : request = ⟨controlling, first⟩ ∨ request.controlling = !controlling)
    {new : BitVec 64} {is_pair : Bool}
    (hstep : receive new is_pair s (.request stayer.other request) = some s') :
    Settling controlling stayer kept first s' := by
  obtain ⟨⟨session, response⟩, hprocess, rfl⟩ := Option.map_eq_some_iff.mp hstep
  simp only [Side.other_other] at hprocess
  have hanswer : session = ⟨controlling, kept⟩ ∧
      (response = .role_conflict → request.controlling = controlling) := by
    rw [h.stays] at hprocess
    rcases hrequest with rfl | hother
    · rw [process_stun_request_of_keeps new hkeeps] at hprocess
      cases hprocess
      exact ⟨rfl, fun _ => rfl⟩
    rw [process_stun_request_of_ne new hother] at hprocess
    cases hprocess
    exact ⟨rfl, fun hresponse => by cases hresponse⟩
  obtain ⟨rfl, hconflict⟩ := hanswer
  have hsession : update s.session stayer ⟨controlling, kept⟩ = s.session := by
    rw [← h.stays]
    exact update_eq_self _ _
  simp only [Side.other_other, hsession]
  exact {
    stays := h.stays
    changes := h.changes
    stayer_request := fun r hr => h.stayer_request r (by simpa using hr)
    changer_request := fun r hr => h.changer_request r (by simpa using hr)
    conflict := fun receiver r hr => by
      rcases List.mem_append.mp hr with hr | hr
      · exact h.conflict receiver r hr
      obtain ⟨rfl, rfl, rfl⟩ : receiver = stayer.other ∧ .role_conflict = response ∧
          r = request := by simpa using hr
      exact ⟨rfl, hconflict rfl⟩
    settled := fun hprocessed => h.settled (by
      simpa [update_of_ne stayer.other_ne.symm] using hprocessed) }

theorem Settling.receive_conflict
    {receiver : Side} {answered : Request} {new : BitVec 64} {is_pair : Bool}
    (hreceiver : receiver = stayer.other) (hanswered : answered.controlling = controlling)
    (hrole : is_pair = true → (s.session receiver).controlling = answered.controlling)
    (hstep : receive new is_pair s (.response receiver .role_conflict answered) = some s') :
    Settling controlling stayer kept first s' := by
  obtain ⟨session, hprocess, rfl⟩ := Option.map_eq_some_iff.mp hstep
  cases is_pair with
  | true =>
    have hsession := session_change_role_controlling hprocess
    rw [hrole rfl, hanswered] at hsession
    rw [hreceiver]
    exact h.changed hsession
  | false =>
    cases hprocess
    simpa [update_eq_self] using h

theorem Settling.step
    (hkeeps : keeps controlling kept first) {e : Event} (hallowed : conflict_in_role s e)
    (hstep : role.step e s = some s') : Settling controlling stayer kept first s' := by
  cases e with
  | send side =>
    cases hstep
    exact h.send side
  | drop index =>
    simp only [role.step] at hstep
    split at hstep
    · cases hstep
      exact h.of_subset (List.eraseIdx_subset ..)
    · cases hstep
  | deliver index new is_pair =>
    obtain ⟨message, hmessage, hreceive⟩ := Option.bind_eq_some_iff.mp hstep
    have hmem : message ∈ s.flight := List.mem_of_getElem? hmessage
    have hrest : Settling controlling stayer kept first
        { s with flight := s.flight.eraseIdx index } := h.of_subset (List.eraseIdx_subset ..)
    match message with
    | .request sender request =>
      rcases Side.eq_or_eq_other stayer sender with rfl | rfl
      · rw [h.stayer_request request hmem] at hreceive
        exact hrest.receive_stayer hkeeps hreceive
      · exact hrest.receive_changer hkeeps (h.changer_request request hmem) hreceive
    | .response receiver .success answered =>
      cases hreceive
      exact hrest
    | .response receiver .role_conflict answered =>
      obtain ⟨hreceiver, hanswered⟩ := h.conflict receiver answered hmem
      refine hrest.receive_conflict hreceiver hanswered ?_ hreceive
      rintro rfl
      simpa [conflict_in_role, hmessage] using hallowed

end

end steps

theorem settling_start {session : Side → Session} (stayer : Side)
    (hrole : (session stayer).controlling = (session stayer.other).controlling) :
    Settling (session stayer).controlling stayer (session stayer).tiebreaker
      (session stayer.other).tiebreaker (State.start session) where
  stays := rfl
  changes := by
    rw [hrole]
    exact Or.inl rfl
  stayer_request r hr := by cases hr
  changer_request r hr := by cases hr
  conflict receiver r hr := by cases hr
  settled h := by cases h

theorem opposite_roles_of_keeps {session : Side → Session} (stayer : Side)
    (hrole : (session stayer).controlling = (session stayer.other).controlling)
    (hkeeps : keeps (session stayer).controlling (session stayer).tiebreaker
      (session stayer.other).tiebreaker)
    {es : List Event} {s : State} (halong : along step conflict_in_role es (.start session))
    (hrun : run step es (.start session) = some s) (hprocessed : s.processed stayer = true) :
    (s.session stayer.other).controlling = !(s.session stayer).controlling := by
  have hsettling := run_invariant (Settling (session stayer).controlling stayer
    (session stayer).tiebreaker (session stayer.other).tiebreaker) conflict_in_role
    (fun _ _ _ h hallowed hstep => h.step hkeeps hallowed hstep) es (settling_start stayer hrole)
    halong hrun
  rw [hsettling.settled hprocessed, hsettling.stays]

/-- Two sessions that start in one role with different tie breakers have opposite roles in every
state without messages in flight in which each has had a request processed, along every run in
which each 487 that is acted on finds the role its request was sent in. -/
theorem role_conflict_resolved (session : Side → Session)
    (hrole : (session .left).controlling = (session .right).controlling)
    (htiebreaker : (session .left).tiebreaker ≠ (session .right).tiebreaker)
    (es : List Event) (s : State) (halong : along step conflict_in_role es (.start session))
    (hrun : run step es (.start session) = some s) (_hflight : s.flight = [])
    (hprocessed : ∀ side, s.processed side = true) :
    (s.session .right).controlling = !(s.session .left).controlling := by
  rcases keeps_or_keeps (session .left).controlling htiebreaker with hkeeps | hkeeps
  · exact opposite_roles_of_keeps .left hrole hkeeps halong hrun (hprocessed .left)
  · rw [hrole] at hkeeps
    have h := opposite_roles_of_keeps .right hrole.symm hkeeps halong hrun (hprocessed .right)
    simpa [Side.other] using (congrArg not h).symm

/-- Two controlling sessions. -/
def both_controlling : Side → Session
  | .left => ⟨true, 20⟩
  | .right => ⟨true, 100⟩

/-- Both requests are sent; the larger tie breaker answers with 487, which arrives while the left side is
still controlling. -/
def conflict_first : List Event :=
  [.send .left, .send .right, .deliver 0 0 true, .deliver 1 10 true, .deliver 0 0 true,
    .deliver 0 0 true]

theorem conflict_first_resolved : ∃ s, run step conflict_first (.start both_controlling) = some s ∧
      (s.session .right).controlling = !(s.session .left).controlling := by
  obtain ⟨s, hrun, hflight, hprocessed⟩ :
      ∃ s, run step conflict_first (.start both_controlling) = some s ∧ s.flight = [] ∧
        ∀ side, s.processed side = true := by
    refine ⟨_, rfl, rfl, ?_⟩
    rintro (_ | _) <;> rfl
  exact ⟨s, hrun, role_conflict_resolved both_controlling rfl (by decide) conflict_first s
    (by decide +kernel) hrun hflight hprocessed⟩

/-- The same, but the left side becomes controlled by the right one's request before the 487 for its own
arrives. -/
def conflict_late : List Event :=
  [.send .left, .send .right, .deliver 0 0 true, .deliver 0 50 true,
    .deliver 0 0x4000000000000032#64 true, .deliver 0 0 true]

theorem conflict_late_both_controlling :
    (both_controlling .left).tiebreaker ≠ (both_controlling .right).tiebreaker ∧
      ∃ s, run step conflict_late (.start both_controlling) = some s ∧ s.flight = [] ∧
        (∀ side, s.processed side = true) ∧
        (s.session .left).controlling = true ∧ (s.session .right).controlling = true := by
  refine ⟨by decide, _, rfl, rfl, ?_, rfl, rfl⟩
  rintro (_ | _) <;> rfl

end openvocs.ice.role
