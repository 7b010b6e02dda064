import Openvocs.Vocs.Run

namespace openvocs.vocs

open vocs_db (Permission)
open State

/-- Nothing but messages, mixers and the stores of ids has changed: what the
    server knows about its clients is as before. -/
structure SameClients (st st' : State) : Prop where
  db : st'.db = st.db
  connections : st'.connections = st.connections
  sessions : st'.sessions = st.sessions
  loops : st'.loops = st.loops
  user_sessions : st'.user_sessions = st.user_sessions
  session_ids : st'.session_ids = st.session_ids
  drops : st'.drops = st.drops
  switches : st'.switches = st.switches
  logins : st'.logins = st.logins
  binds : st'.binds = st.binds
  created_for : st'.created_for = st.created_for
  opened : st'.opened = st.opened

namespace SameClients

variable {st st' st'' : State}

theorem trans (h : SameClients st st') (h' : SameClients st' st'') : SameClients st st'' := by
  constructor
  · rw [h'.db, h.db]
  · rw [h'.connections, h.connections]
  · rw [h'.sessions, h.sessions]
  · rw [h'.loops, h.loops]
  · rw [h'.user_sessions, h.user_sessions]
  · rw [h'.session_ids, h.session_ids]
  · rw [h'.drops, h.drops]
  · rw [h'.switches, h.switches]
  · rw [h'.logins, h.logins]
  · rw [h'.binds, h.binds]
  · rw [h'.created_for, h.created_for]
  · rw [h'.opened, h.opened]

variable (st : State)

theorem refl : SameClients st st := by
  constructor <;> rfl

theorem respond (socket : Socket) (request : Message) (response : Response) :
    SameClients st (st.respond socket request response) := by
  constructor <;> rfl

theorem async_set (uuid : Uuid) (data : Pending) : SameClients st (st.async_set uuid data) := by
  constructor <;> rfl

theorem async_unset (uuid : Uuid) : SameClients st (st.async_unset uuid) := by
  constructor <;> rfl

theorem send_message (cb : Callback) (uuid : Uuid) (session : Session) (command : MixerCommand) :
    SameClients st (st.send_message cb uuid session command).2 := by
  simp only [State.send_message]
  split <;> constructor <;> rfl

theorem send_proxy (outside : Outside) (asker : Socket) (uuid : Uuid) (command : ProxyCommand) :
    SameClients st (st.send_proxy outside asker uuid command).2 := by
  unfold State.send_proxy
  split <;> constructor <;> rfl

theorem send_switch_loop_user_broadcast (socket : Socket) (loop : String)
    (current : Permission) : SameClients st (st.send_switch_loop_user_broadcast socket loop current) := by
  simp only [State.send_switch_loop_user_broadcast]
  split <;> constructor <;> rfl

theorem send_switch_volume_user_broadcast (socket : Socket) (loop : String) :
    SameClients st (st.send_switch_volume_user_broadcast socket loop) := by
  simp only [State.send_switch_volume_user_broadcast]
  split <;> constructor <;> rfl

end SameClients

theorem perform_switch_loop_request_cases {outside : Outside} {uuid : Uuid} {asker : Socket}
    {session : Session} {loop : String} {current request : Permission} {st : State} {r : Bool × State}
    (h : perform_switch_loop_request outside uuid asker session loop current request st = some r) :
    r = (false, st) ∨
      (current = .none ∧ request ≠ .none ∧ r = st.join_loop uuid session loop) ∨
      (current = .recv ∧ request = .none ∧ r = st.leave_loop uuid session loop) ∨
      (current = .recv ∧ request = .send ∧
        r = st.send_proxy outside asker uuid (.talk session true loop)) ∨
      (current = .send ∧ request ≠ .send ∧
        r = st.send_proxy outside asker uuid (.talk session false loop)) := by
  simp only [perform_switch_loop_request] at h
  split at h
  · simp at h
  · exact .inl (Option.some.inj h).symm
  · cases current <;> cases request <;> simp_all

theorem SameClients.perform_switch_loop_request {outside : Outside} {uuid : Uuid} {asker : Socket}
    {session : Session} {loop : String} {current request : Permission} {st : State} {r : Bool × State}
    (h : perform_switch_loop_request outside uuid asker session loop current request st = some r) :
    SameClients st r.2 := by
  obtain rfl | ⟨_, _, rfl⟩ | ⟨_, _, rfl⟩ | ⟨_, _, rfl⟩ | ⟨_, _, rfl⟩ := perform_switch_loop_request_cases h
  · exact .refl st
  · exact .send_message st _ _ _ _
  · exact .send_message st _ _ _ _
  · exact .send_proxy st _ _ _ _
  · exact .send_proxy st _ _ _ _

namespace State

variable (st : State) (socket : Socket) (loop : String)

@[simp] theorem participates_open_loop (t : Socket) (l : String) :
    (st.open_loop loop).participates t l = st.participates t l := by
  by_cases hl : l = loop
  · subst hl
    cases h : st.loops l <;> simp [open_loop, participates, h]
  · simp [open_loop, participates, Function.update_of_ne hl]

theorem participates_add_participant (p : Participant) (hopen : (st.loops loop).isSome)
    (t : Socket) (l : String) :
    (st.add_participant loop socket p).participates t l =
      if t = socket ∧ l = loop then true else st.participates t l := by
  obtain ⟨participants, hparticipants⟩ := Option.isSome_iff_exists.mp hopen
  by_cases hl : l = loop
  · subst hl
    by_cases ht : t = socket <;>
      simp [add_participant, participates, hparticipants, assoc.lookup_erase_append, ht]
  · simp [add_participant, participates, hl]

@[simp] theorem participates_drop_participant (t : Socket) (l : String) :
    (st.drop_participant loop socket).participates t l =
      if t = socket ∧ l = loop then false else st.participates t l := by
  by_cases hl : l = loop
  · subst hl
    by_cases ht : t = socket <;> cases h : st.loops l <;>
      simp [drop_participant, participates, h, assoc.lookup_erase, ht]
  · simp [drop_participant, participates, hl]

@[simp] theorem participates_close_participations (t : Socket) (l : String) :
    (st.close_participations socket).participates t l = if t = socket then false else st.participates t l := by
  by_cases ht : t = socket <;> cases h : st.loops l <;>
    simp [close_participations, participates, h, assoc.lookup_erase, ht]

end State

theorem participates_congr {st st' : State} (h : st'.loops = st.loops) (t : Socket) (l : String) :
    st'.participates t l = st.participates t l := by
  simp only [participates, h]

end openvocs.vocs
