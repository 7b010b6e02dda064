import Openvocs.Vocs.Steps

namespace openvocs.vocs

open vocs_db (Permission)
open State

/-- The participant lists know a socket in exactly the loops for which its
    connection data has a state. -/
def Listed (v : View) : Prop :=
  ∀ socket loop, v.participates socket loop = true ↔ (v.connections socket).loops loop ≠ .none

/-- A state is set without a change of the list only where there is one. -/
def inside_rules : Rules where
  talk v socket loop := (v.connections socket).loops loop ≠ .none

section

variable {v v' : View}

theorem Listed.set_record (h : Listed v) {socket : Socket} {data : Record}
    (hdata : data.loops = (v.connections socket).loops) : Listed (v.set_record socket data) := by
  intro t l
  rw [View.set_record_participates, View.set_record_connections Record.loops hdata]
  exact h t l

theorem Listed.switch (h : Listed v) {socket : Socket} (hsocket : socket ≠ 0) (loop : String) {inside : Bool}
    {permission : Permission} (hstate : inside = true ↔ permission ≠ .none) :
    Listed (v.switch socket loop inside permission) := by
  intro t l
  simp only [View.switch, View.place, View.set_record, if_neg hsocket]
  by_cases ht : t = socket
  · subst ht
    by_cases hl : l = loop
    · subst hl
      simpa [Record.set_loop_state] using hstate
    · simpa [Record.set_loop_state, hl] using h t l
  · simpa [ht] using h t l

theorem Listed.talk (h : Listed v) {socket : Socket} {loop : String} (hinside : (v.connections socket).loops loop ≠ .none)
    {permission : Permission} (hstate : permission ≠ .none) :
    Listed (v.set_record socket ((v.connections socket).set_loop_state loop permission)) := by
  by_cases hsocket : socket = 0
  · simpa [View.set_record, hsocket] using h
  -- the client is in the list already, so that this is a switch as well
  have hlisted : v.participates socket loop = true := (h socket loop).mpr hinside
  have hplace : v.place socket loop true = v := by simp [View.place, ← hlisted]
  have hswitch : Listed (v.switch socket loop true permission) := h.switch hsocket loop (by simp [hstate])
  rwa [View.switch, hplace] at hswitch

theorem Listed.drop (h : Listed v) (socket : Socket) : Listed (v.drop socket) := by
  intro t l
  by_cases ht : t = socket
  · subst ht
    simp [View.drop]
  · simpa [View.drop, ht] using h t l

theorem Listed.change (h : Listed v) (hchange : Change inside_rules v v') : Listed v' := by
  cases hchange with
  | record socket data huser hrole hsession hloops => exact h.set_record hloops
  | user socket client user huser => exact h.set_record rfl
  | join socket loop hsocket => exact h.switch hsocket loop (by simp)
  | leave socket loop hsocket => exact h.switch hsocket loop (by simp)
  | talk socket loop permission hstate htalk => exact h.talk htalk hstate
  | session session socket hsession =>
    have hrecord : Listed (v.set_record socket { v.connections socket with session := some session }) := h.set_record rfl
    exact hrecord
  | drop socket => exact h.drop socket
  | note switches logins binds => exact h
  | know session hnew => exact h

end

/-- The condition on a step under which the two views stay equal: a successful
    talk response for a request that is still pending finds a state for its loop
    in the connection data of a client with a user and a role. -/
def talks_inside (st : State) (e : Event) : Prop :=
  match e with
  | .proxy_response i result _ =>
    match st.proxy_requests[i]? with
    | none => True
    | some r =>
      match r.command, st.pending r.uuid with
      | .talk _ _ loop, some data =>
        let record := st.connections data.socket
        result.error = none → record.user.isSome → record.role.isSome → record.loops loop ≠ .none
      | _, _ => True
  | _ => True

instance (st : State) (e : Event) : Decidable (talks_inside st e) := by
  unfold talks_inside
  split
  · split
    · infer_instance
    · split <;> infer_instance
  · infer_instance

theorem talks_inside.permitted {st : State} {e : Event} (h : talks_inside st e) : Permitted inside_rules st e where
  talk i result outside r session on loop data he hr hcommand hpending herror huser hrole := by
    subst he
    simp only [talks_inside, hr, hcommand, hpending] at h
    exact h herror huser hrole
  session := fun _ _ _ _ _ _ _ _ _ _ _ => trivial
  login := fun _ _ _ _ _ _ _ _ => trivial
  bind := fun _ _ _ _ _ _ _ _ _ => trivial

theorem step_listed {config : Config} {st st' : State} {e : Event} (h : Listed st.view)
    (hinside : talks_inside st e) (hstep : step config e st = some st') : Listed st'.view :=
  (step_evolves hinside.permitted hstep).invariant Listed (fun _ _ hv hchange => hv.change hchange) h

/-- In every run in which no talk response finds its client outside of the loop,
    a socket is listed as participant of a loop if and only if its connection
    data has a state for the loop. -/
theorem run_participants_agree (config : Config) (db : vocs_db.Db) (es : List Event) (st : State)
    (hinside : machine.along (step config) talks_inside es (State.init db))
    (hrun : run config es (State.init db) = some st) (socket : Socket) (loop : String) :
    st.participates socket loop = true ↔ (st.connections socket).loops loop ≠ .none := by
  have hinit : Listed (State.init db).view := by
    intro t l
    simp [State.view, State.init, State.participates]
  exact machine.run_invariant (fun st => Listed st.view) talks_inside
    (fun s e s' hs hallowed hstep => step_listed hs hallowed hstep) es hinit hinside hrun socket loop

def switched_on : List Event :=
  .mixer_register 1 :: small_setup 3 "session" ++
    [simple_request 3 .switch_loop_state "4" [("loop", "both"), ("state", "send")],
     .mixer_response 0 none .null {},
     .proxy_response 0 {} {}]

theorem run_participants_agree_switched_on :
    machine.along (step small_config) talks_inside switched_on (State.init small_db) ∧
      ∃ st, run small_config switched_on (State.init small_db) = some st ∧
        (st.participates 3 "both" = true ↔ (st.connections 3).loops "both" ≠ .none) := by
  have hinside : machine.along (step small_config) talks_inside switched_on (State.init small_db) := by
    decide +kernel
  have hsome : (run small_config switched_on (State.init small_db)).isSome := by decide +kernel
  obtain ⟨st, hst⟩ := Option.isSome_iff_exists.mp hsome
  exact ⟨hinside, st, hst, run_participants_agree small_config small_db switched_on st hinside hst 3 "both"⟩

/-- A leave and a talk request are under way at once; the leave response comes first. -/
def leave_before_talk : List Event :=
  .mixer_register 1 :: small_setup 3 "session" ++
    [simple_request 3 .switch_loop_state "4" [("loop", "both"), ("state", "recv")],
     .mixer_response 0 none .null {},
     simple_request 3 .switch_loop_state "5" [("loop", "both"), ("state", "none")],
     simple_request 3 .switch_loop_state "6" [("loop", "both"), ("state", "send")],
     .mixer_response 0 none .null {},
     .proxy_response 0 {} {}]

/-- The talk response enters a state for a loop the client is no participant of. -/
theorem leave_before_talk_unlisted :
    ∃ st, run small_config leave_before_talk (State.init small_db) = some st ∧
      (st.connections 3).loops "both" = .send ∧ st.participates 3 "both" = false := by
  have hany : (run small_config leave_before_talk (State.init small_db)).any
      (fun st => decide ((st.connections 3).loops "both" = .send ∧ st.participates 3 "both" = false)) = true := by
    decide +kernel
  obtain ⟨st, hst, hdecide⟩ := (Option.any_eq_true _ _).mp hany
  exact ⟨st, hst, of_decide_eq_true hdecide⟩

end openvocs.vocs
