import Openvocs.Vocs.Steps

namespace openvocs.vocs

open State

/-- The session of a client leads to it. -/
structure Owned (v : View) : Prop where
  owner : ∀ socket session, (v.connections socket).session = some session → v.sessions session = socket
  zero : (v.connections 0).session = none
  known : ∀ session, v.sessions session ≠ 0 → session ∈ v.session_ids
  named : "" ∉ v.session_ids

/-- A session is entered that is new. -/
def new_session (v : View) (session : Session) : Prop := v.sessions session = 0 ∧ session ∈ v.session_ids

section

variable {v v' : View}

theorem Owned.set_record (h : Owned v) {socket : Socket} {data : Record}
    (hdata : data.session = (v.connections socket).session) : Owned (v.set_record socket data) := by
  have hrecord := View.set_record_connections Record.session hdata
  refine ⟨fun t session hsession => ?_, ?_, ?_, ?_⟩
  · rw [hrecord] at hsession
    simpa using h.owner t session hsession
  · rw [hrecord]
    exact h.zero
  · simpa using h.known
  · simpa using h.named

theorem Owned.session_ne (h : Owned v) {session : Session} (hsession : v.sessions session = 0) (socket : Socket) :
    (v.connections socket).session ≠ some session := by
  intro hsome
  have howner := h.owner socket session hsome
  rw [hsession] at howner
  rw [← howner, h.zero] at hsome
  simp at hsome

theorem Owned.open_session (h : Owned v) {session : Session} (hnew : new_session v session) (socket : Socket) :
    Owned (v.open_session session socket) := by
  have hconnections : ∀ t, t ≠ socket → (v.open_session session socket).connections t = v.connections t := by
    intro t ht
    simp only [View.open_session, View.set_record]
    split <;> simp [ht]
  have hself : socket ≠ 0 → ((v.open_session session socket).connections socket).session = some session := by
    intro hsocket
    simp [View.open_session, View.set_record, hsocket]
  have hzero : ((v.open_session session socket).connections 0).session = none := by
    by_cases hsocket : socket = 0
    · simpa [View.open_session, View.set_record, hsocket] using h.zero
    rw [hconnections 0 (Ne.symm hsocket)]
    exact h.zero
  refine ⟨fun t other hother => ?_, hzero, fun other hother => ?_, h.named ∘ by simp [View.open_session]⟩
  · by_cases ht : t = socket
    · subst ht
      by_cases hsocket : t = 0
      · subst hsocket
        rw [hzero] at hother
        simp at hother
      rw [hself hsocket, Option.some.injEq] at hother
      simp [View.open_session, hother]
    rw [hconnections t ht] at hother
    have hne : other ≠ session := by
      intro heq
      exact h.session_ne hnew.1 t (heq ▸ hother)
    simpa [View.open_session, hne] using h.owner t other hother
  by_cases heq : other = session
  · rw [heq]
    simpa [View.open_session] using hnew.2
  simp only [View.open_session, Function.update_of_ne heq] at hother
  simpa [View.open_session] using h.known other hother

theorem sessions_drop {socket : Socket} (session : Session) : (v.drop socket).sessions session =
      if (v.connections socket).session = some session then 0 else v.sessions session := by
  simp only [View.drop]
  cases hrecord : (v.connections socket).session with
  | none => simp
  | some other =>
    by_cases heq : session = other
    · simp [heq]
    · simp [heq, Ne.symm heq]

theorem connections_drop (socket t : Socket) :
    (v.drop socket).connections t = if t = socket then {} else v.connections t := by
  by_cases ht : t = socket <;> simp [View.drop, ht]

theorem Owned.drop (h : Owned v) (socket : Socket) : Owned (v.drop socket) := by
  refine ⟨fun t session hsession => ?_, ?_, fun session hsession => ?_, h.named⟩
  · rw [connections_drop] at hsession
    by_cases ht : t = socket
    · simp [ht] at hsession
    rw [if_neg ht] at hsession
    have howner := h.owner t session hsession
    have hother : (v.connections socket).session ≠ some session := by
      intro hsome
      exact ht (howner.symm.trans (h.owner socket session hsome))
    rw [sessions_drop, if_neg hother, howner]
  · rw [connections_drop]
    split
    · rfl
    · exact h.zero
  rw [sessions_drop] at hsession
  split at hsession
  · exact absurd rfl hsession
  · exact h.known session hsession

theorem Owned.know (h : Owned v) {session : Session} (hnamed : session ≠ "") : Owned (v.know session) := by
  refine ⟨h.owner, h.zero, fun other hother => ?_, ?_⟩
  · exact List.mem_append_left _ (h.known other hother)
  · simpa [View.know] using ⟨h.named, hnamed⟩

theorem Owned.change {rules : Rules} (h : Owned v)
    (hrules : ∀ session socket, rules.session v session socket → new_session v session)
    (hchange : Change rules v v') : Owned v' := by
  cases hchange with
  | record socket data huser hrole hsession hloops => exact h.set_record hsession
  | user socket client user huser => exact h.set_record rfl
  | join socket loop hsocket =>
    have hplaced : Owned (v.place socket loop true) := ⟨h.owner, h.zero, h.known, h.named⟩
    exact hplaced.set_record rfl
  | leave socket loop hsocket =>
    have hplaced : Owned (v.place socket loop false) := ⟨h.owner, h.zero, h.known, h.named⟩
    exact hplaced.set_record rfl
  | talk socket loop permission hstate htalk => exact h.set_record rfl
  | session session socket hsession => exact h.open_session (hrules session socket hsession) socket
  | drop socket => exact h.drop socket
  | note switches logins binds => exact ⟨h.owner, h.zero, h.known, h.named⟩
  | know session hnew => exact h.know hnew.1

end

theorem owned_init (db : vocs_db.Db) : Owned (State.init db).view := by
  constructor <;> simp [State.view, State.init]

theorem Owned.new_session_know {v : View} (h : Owned v) {session : Session} (hnew : session ∉ v.session_ids) :
    new_session (v.know session) session := by
  refine ⟨?_, by simp [View.know]⟩
  by_contra hsession
  exact hnew (h.known session hsession)

/-- A session that leads to a client is the one of the client, and was entered
    since the last drop of the socket. -/
structure Current (v : View) : Prop extends Owned v where
  mapped : ∀ socket session, socket ≠ 0 → v.sessions session = socket →
    (v.connections socket).session = some session
  opened : ∀ socket session, socket ≠ 0 → v.sessions session = socket → v.opened session = v.drops socket

/-- A client gets a session when it has none. -/
def one_session_rules : Rules where
  session v session socket := new_session v session ∧ (socket ≠ 0 → (v.connections socket).session = none)

section

variable {v v' : View}

theorem Current.set_record (h : Current v) {socket : Socket} {data : Record}
    (hdata : data.session = (v.connections socket).session) : Current (v.set_record socket data) := by
  refine ⟨h.toOwned.set_record hdata, fun t session ht hsession => ?_, fun t session ht hsession => ?_⟩
  · rw [View.set_record_connections Record.session hdata]
    exact h.mapped t session ht (by simpa using hsession)
  · simpa using h.opened t session ht (by simpa using hsession)

theorem Current.open_session (h : Current v) {session : Session} (hnew : new_session v session) {socket : Socket}
    (hnone : socket ≠ 0 → (v.connections socket).session = none) : Current (v.open_session session socket) := by
  have hother : ∀ t other, t ≠ 0 → other ≠ session → v.sessions other = t → t ≠ socket := by
    intro t other ht hne hsession heq
    have hmapped := h.mapped t other ht hsession
    rw [heq, hnone (heq ▸ ht)] at hmapped
    simp at hmapped
  refine ⟨h.toOwned.open_session hnew socket, fun t other ht hsession => ?_, fun t other ht hsession => ?_⟩
  · by_cases heq : other = session
    · simp only [View.open_session, heq, Function.update_self] at hsession
      subst hsession
      simp [View.open_session, View.set_record, ht, heq]
    simp only [View.open_session, Function.update_of_ne heq] at hsession
    have hne := hother t other ht heq hsession
    simp only [View.open_session, View.set_record]
    split
    · exact h.mapped t other ht hsession
    · simpa [hne] using h.mapped t other ht hsession
  by_cases heq : other = session
  · simp only [View.open_session, heq, Function.update_self] at hsession
    simp [View.open_session, heq, hsession]
  simp only [View.open_session, Function.update_of_ne heq] at hsession
  simpa [View.open_session, heq] using h.opened t other ht hsession

theorem Current.drop (h : Current v) (socket : Socket) : Current (v.drop socket) := by
  have hkept : ∀ t session, t ≠ 0 → (v.drop socket).sessions session = t → v.sessions session = t ∧ t ≠ socket := by
    intro t session ht hsession
    rw [sessions_drop] at hsession
    split at hsession
    · exact absurd hsession.symm ht
    rename_i hne
    refine ⟨hsession, fun heq => hne ?_⟩
    rw [← heq]
    exact h.mapped t session ht hsession
  refine ⟨h.toOwned.drop socket, fun t session ht hsession => ?_, fun t session ht hsession => ?_⟩
  · obtain ⟨hold, hne⟩ := hkept t session ht hsession
    rw [connections_drop, if_neg hne]
    exact h.mapped t session ht hold
  obtain ⟨hold, hne⟩ := hkept t session ht hsession
  simpa [View.drop, hne] using h.opened t session ht hold

theorem Current.change (h : Current v) (hchange : Change one_session_rules v v') : Current v' := by
  have hrules : ∀ session socket, one_session_rules.session v session socket → new_session v session :=
    fun session socket hsession => hsession.1
  have howned := h.toOwned.change hrules hchange
  cases hchange with
  | record socket data huser hrole hsession hloops => exact h.set_record hsession
  | user socket client user huser => exact h.set_record rfl
  | join socket loop hsocket =>
    have hplaced : Current (v.place socket loop true) := ⟨⟨h.owner, h.zero, h.known, h.named⟩, h.mapped, h.opened⟩
    exact hplaced.set_record rfl
  | leave socket loop hsocket =>
    have hplaced : Current (v.place socket loop false) := ⟨⟨h.owner, h.zero, h.known, h.named⟩, h.mapped, h.opened⟩
    exact hplaced.set_record rfl
  | talk socket loop permission hstate htalk => exact h.set_record rfl
  | session session socket hsession => exact h.open_session hsession.1 hsession.2
  | drop socket => exact h.drop socket
  | note switches logins binds => exact ⟨howned, h.mapped, h.opened⟩
  | know session hnew => exact ⟨howned, h.mapped, h.opened⟩

end

/-- The condition on a step under which the map and the connection data agree: a
    session that was created for a pending request finds its client without one. -/
def one_session (st : State) (e : Event) : Prop :=
  match e with
  | .proxy_response i result _ =>
    match st.proxy_requests[i]? with
    | none => True
    | some r =>
      match r.command, st.pending r.uuid with
      | .create_session, some data =>
        result.error = none → data.socket ≠ 0 → (st.connections data.socket).session = none
      | _, _ => True
  | _ => True

instance (st : State) (e : Event) : Decidable (one_session st e) := by
  unfold one_session
  induction e using Event.casesOn with
  | proxy_response i result outside =>
    dsimp only
    refine Option.casesOn st.proxy_requests[i]? ?_ fun r => ?_
    · exact inferInstanceAs (Decidable True)
    · cases r
      dsimp only
      split <;> infer_instance
  | _ => exact inferInstanceAs (Decidable True)

theorem one_session.permitted {st : State} {e : Event} (h : one_session st e) (howned : Owned st.view) :
    Permitted one_session_rules st e where
  talk := fun _ _ _ _ _ _ _ _ _ _ _ _ _ _ _ => trivial
  session i result outside r data he hr hcommand hpending herror hnew := by
    subst he
    simp only [one_session, hr, hcommand, hpending] at h
    exact ⟨howned.new_session_know hnew, h herror⟩
  login := fun _ _ _ _ _ _ _ _ => trivial
  bind := fun _ _ _ _ _ _ _ _ _ => trivial

theorem step_current {config : Config} {st st' : State} {e : Event} (h : Current st.view)
    (hone : one_session st e) (hstep : step config e st = some st') : Current st'.view :=
  (step_evolves (hone.permitted h.toOwned) hstep).invariant Current (fun _ _ hv hchange => hv.change hchange) h

theorem Current.sessions_drop_connection {st : State} (h : Current st.view) {socket : Socket} (hsocket : socket ≠ 0)
    (session : Session) : (drop_connection socket st).sessions session ≠ socket := by
  have hdropped : Current (drop_connection socket st).view := by
    have hevolves : Evolves one_session_rules st.view st.view := Relation.ReflTransGen.refl
    exact (hevolves.drop_connection socket).invariant Current (fun _ _ hv hchange => hv.change hchange) h
  obtain ⟨first, -, hview⟩ := view_drop_with_mixer false true socket st
  have hrecord : ((drop_connection socket st).connections socket).session = none := by
    have hconnections : (drop_connection socket st).connections =
        ((first.foldl View.drop st.view).drop socket).connections := congrArg View.connections hview
    rw [hconnections, connections_drop, if_pos rfl]
  intro hsession
  have hmapped := hdropped.mapped socket session hsocket hsession
  rw [show (drop_connection socket st).view.connections = (drop_connection socket st).connections from rfl,
    hrecord] at hmapped
  simp at hmapped

/-- In every run in which no client gets a second session, a session leads to a
    client if and only if it is the session of its connection data, it was entered
    for this client and not for an earlier one with the same socket, and nothing
    leads to a socket that was dropped. -/
theorem run_sessions_agree (config : Config) (db : vocs_db.Db) (es : List Event) (st : State)
    (hone : machine.along (step config) one_session es (State.init db))
    (hrun : run config es (State.init db) = some st) (socket : Socket) (hsocket : socket ≠ 0) (session : Session) :
    (st.sessions session = socket ↔ (st.connections socket).session = some session) ∧
      (st.sessions session = socket → st.opened session = st.drops socket) ∧
      (drop_connection socket st).sessions session ≠ socket := by
  have hinit : Current (State.init db).view := by
    refine ⟨owned_init db, fun t other ht hother => ?_, fun t other ht hother => ?_⟩
    · exact absurd hother.symm ht
    · exact absurd hother.symm ht
  have hcurrent : Current st.view :=
    machine.run_invariant (fun st => Current st.view) one_session
      (fun s e s' hs hallowed hstep => step_current hs hallowed hstep) es hinit hone hrun
  exact ⟨⟨hcurrent.mapped socket session hsocket, hcurrent.owner socket session⟩,
    hcurrent.opened socket session hsocket, hcurrent.sessions_drop_connection hsocket session⟩

/-- A client with a session, and a second client on the socket of the first. -/
def socket_reused : List Event :=
  [.mixer_register 1] ++ small_setup 3 "first" ++ [.socket_close 3, .mixer_response 0 none .null {}] ++
    small_setup 3 "second"

theorem run_sessions_agree_socket_reused :
    machine.along (step small_config) one_session socket_reused (State.init small_db) ∧
      ∃ st, run small_config socket_reused (State.init small_db) = some st ∧
        ((st.sessions "second" = 3 ↔ (st.connections 3).session = some "second") ∧
          (st.sessions "second" = 3 → st.opened "second" = st.drops 3) ∧
          (drop_connection 3 st).sessions "second" ≠ 3) := by
  have hone : machine.along (step small_config) one_session socket_reused (State.init small_db) := by
    decide +kernel
  have hsome : (run small_config socket_reused (State.init small_db)).isSome := by decide +kernel
  obtain ⟨st, hst⟩ := Option.isSome_iff_exists.mp hsome
  exact ⟨hone, st, hst, run_sessions_agree small_config small_db socket_reused st hone hst 3 (by decide) "second"⟩

/-- A client asks for media twice and goes; another client gets its socket. -/
def media_twice : List Event :=
  [.mixer_register 1] ++ small_setup 3 "first" ++
    [simple_request 3 .media "4" [("type", "request")],
     .proxy_response 0 { session := "second", type := "offer", sdp := "sdp" } {},
     .socket_close 3,
     simple_request 3 .login "5" [("user", "alice"), ("password", "pw")]]

/-- The first session leads to the socket when it is no session of any client, and its
    end is the end of the later client. -/
theorem media_twice_stale_session : ∃ st, run small_config media_twice (State.init small_db) = some st ∧
      st.sessions "first" = 3 ∧ (st.connections 3).session = none ∧ (st.connections 3).user = some "alice" ∧
      st.opened "first" ≠ st.drops 3 ∧
      ((step small_config (.session_dropped "first") st).map fun st' => (st'.connections 3).user) = some none := by
  have hany : (run small_config media_twice (State.init small_db)).any (fun st => decide
      (st.sessions "first" = 3 ∧ (st.connections 3).session = none ∧ (st.connections 3).user = some "alice" ∧
        st.opened "first" ≠ st.drops 3 ∧
        ((step small_config (.session_dropped "first") st).map fun st' => (st'.connections 3).user) =
          some none)) = true := by
    decide +kernel
  obtain ⟨st, hst, hdecide⟩ := (Option.any_eq_true _ _).mp hany
  exact ⟨st, hst, of_decide_eq_true hdecide⟩

end openvocs.vocs
