import Openvocs.Vocs.RequestMoves

namespace openvocs.vocs

open State Function

/-- Nothing has changed but what concerns the clients, the async store and the mixers. -/
structure Calm (st st' : State) : Prop where
  proxy_requests : st'.proxy_requests = st.proxy_requests
  ldap_requests : st'.ldap_requests = st.ldap_requests
  module_requests : st'.module_requests = st.module_requests
  session_ids : st'.session_ids = st.session_ids
  switches : st'.switches = st.switches
  logins : st'.logins = st.logins
  uuids : st.uuids ≤ st'.uuids
  out : ∀ o ∈ st'.out, o ∈ st.out ∨ o.is_quiet

/-- The mixers are as they were. -/
structure SameBooking (st st' : State) : Prop where
  slots : st'.slots = st.slots
  users : st'.users = st.users
  mixer_requests : st'.mixer_requests = st.mixer_requests
  callbacks : st'.callbacks = st.callbacks

/-- The mixer of a session is free, and is told so if it is there. -/
structure Released (st : State) (session : Session) (st' : State) : Prop where
  slots : st'.slots = (st.release_user session).slots
  users : st'.users = (st.release_user session).users
  requests : st'.mixer_requests = st.mixer_requests ∧ st'.callbacks = st.callbacks ∨
    st.uuids < st'.uuids ∧
      st'.mixer_requests = st.mixer_requests ++ [⟨st.users session, .own st.uuids, .release session⟩] ∧
      st'.callbacks = (st.register_callback (.own st.uuids) .released).callbacks

/-- The entries of the async store after a drop. -/
def remaining (locked : Bool) (socket : Socket) (async : List (Uuid × Pending)) : List (Uuid × Pending) :=
  if locked then async else async.filter (fun entry => decide (entry.2.socket ≠ socket))

/-- What is left when a client was dropped. -/
structure Dropped (locked : Bool) (socket : Socket) (st st' : State) : Prop extends Calm st st' where
  async : st'.async = remaining locked socket st.async
  connections : st'.connections = update st.connections socket {}
  sessions : ∀ session, st'.sessions session =
    if (st.connections socket).session = some session then 0 else st.sessions session
  drops : ∀ t, t ≠ socket → st'.drops t = st.drops t

theorem remaining_remaining (locked : Bool) (socket : Socket) (async : List (Uuid × Pending)) :
    remaining locked socket (remaining locked socket async) = remaining locked socket async := by
  unfold remaining
  split
  · rfl
  rw [List.filter_filter]
  simp

theorem remaining_subset (locked : Bool) (socket : Socket) (async : List (Uuid × Pending)) :
    remaining locked socket async ⊆ async := by
  unfold remaining
  split
  · exact List.Subset.refl _
  · exact List.filter_subset_self _

namespace Calm

variable {st st' st'' : State}

theorem refl (st : State) : Calm st st :=
  ⟨rfl, rfl, rfl, rfl, rfl, rfl, Nat.le_refl _, fun _ ho => Or.inl ho⟩

theorem trans (h : Calm st st') (h' : Calm st' st'') : Calm st st'' where
  proxy_requests := h'.proxy_requests.trans h.proxy_requests
  ldap_requests := h'.ldap_requests.trans h.ldap_requests
  module_requests := h'.module_requests.trans h.module_requests
  session_ids := h'.session_ids.trans h.session_ids
  switches := h'.switches.trans h.switches
  logins := h'.logins.trans h.logins
  uuids := Nat.le_trans h.uuids h'.uuids
  out o ho := by
    obtain hold | hquiet := h'.out o ho
    · exact h.out o hold
    · exact Or.inr hquiet

theorem send (st : State) {o : Output} (ho : o.is_quiet = true) : Calm st (st.send o) :=
  { Calm.refl st with out := (Keeps.send st ho).out }

theorem take_uuid (st : State) : Calm st st.take_uuid :=
  { Calm.refl st with uuids := Nat.le_succ _ }

theorem drop_socket (st : State) (locked : Bool) (socket : Socket) : Calm st (st.drop_socket locked socket) := by
  have hquiet := (Keeps.send st (o := .close socket) rfl).out
  cases locked <;> exact { Calm.refl st with out := hquiet }

end Calm

/-- The first part of a drop, which takes an id and may tell the proxy. -/
def begin_drop (frontend : Bool) (session : Session) (st : State) : State :=
  if frontend then st.take_uuid.drop_session st.new_uuid session else st.take_uuid

theorem Calm.begin_drop (st : State) (frontend : Bool) (session : Session) :
    Calm st (begin_drop frontend session st) := by
  unfold vocs.begin_drop
  split
  · exact (Calm.take_uuid st).trans (.send _ rfl)
  · exact Calm.take_uuid st

section

variable {st mid : State} {socket : Socket} {session : Session}

theorem Dropped.drop_socket (locked : Bool) (hcalm : Calm st mid)
    (hasync : remaining locked socket mid.async = remaining locked socket st.async)
    (hconnections : ∀ t, t ≠ socket → mid.connections t = st.connections t)
    (hsessions : ∀ session, mid.sessions session =
      if (st.connections socket).session = some session then 0 else st.sessions session)
    (hdrops : ∀ t, t ≠ socket → mid.drops t = st.drops t) :
    Dropped locked socket st (mid.drop_socket locked socket) where
  toCalm := hcalm.trans (.drop_socket mid locked socket)
  async := by
    rw [← hasync]
    cases locked <;> rfl
  connections := by
    have hdropped : (mid.drop_socket locked socket).connections = update mid.connections socket {} := by
      cases locked <;> rfl
    rw [hdropped]
    funext t
    by_cases ht : t = socket
    · simp [ht]
    · simp [ht, hconnections t ht]
  sessions session := by
    rw [← hsessions]
    cases locked <;> rfl
  drops t ht := by
    rw [← hdrops t ht]
    cases locked <;> exact update_of_ne ht _ _

theorem sessions_close_session (hsession : (st.connections socket).session = some session) (other : Session) :
    update st.sessions session 0 other =
      if (st.connections socket).session = some other then 0 else st.sessions other := by
  by_cases heq : other = session
  · simp [heq, hsession]
  · simp [heq, hsession, Ne.symm heq]

theorem SameBooking.drop_socket (locked : Bool) (socket : Socket) (h : SameBooking st mid) :
    SameBooking st (mid.drop_socket locked socket) := by
  cases locked <;> exact ⟨h.slots, h.users, h.mixer_requests, h.callbacks⟩

theorem drop_without_mixer_eq (hsession : (st.connections socket).session = some session) (locked frontend : Bool) :
    st.drop_without_mixer locked frontend socket =
      ((begin_drop frontend session st).close_session session).drop_socket locked socket := by
  unfold State.drop_without_mixer drop_with
  rw [hsession]
  rfl

theorem drop_with_mixer_eq (hsession : (st.connections socket).session = some session) (locked frontend : Bool) :
    drop_with_mixer locked frontend socket st =
      ((release_mixer locked st.new_uuid session (begin_drop frontend session st)).close_session session).drop_socket
        locked socket := by
  unfold drop_with_mixer drop_with
  rw [hsession]
  rfl

theorem Dropped.of_none (hsession : (st.connections socket).session = none) (locked : Bool) :
    Dropped locked socket st (st.drop_socket locked socket) := by
  refine Dropped.drop_socket locked (.refl st) rfl (fun _ _ => rfl) (fun session => ?_) (fun _ _ => rfl)
  simp [hsession]

theorem Dropped.drop_without_mixer (st : State) (locked frontend : Bool) (socket : Socket) :
    Dropped locked socket st (st.drop_without_mixer locked frontend socket) := by
  cases hsession : (st.connections socket).session with
  | none =>
    unfold State.drop_without_mixer drop_with
    rw [hsession]
    exact Dropped.of_none hsession locked
  | some session =>
    rw [drop_without_mixer_eq hsession]
    have hcalm := Calm.begin_drop st frontend session
    cases frontend <;>
    exact Dropped.drop_socket locked { hcalm with } rfl (fun _ _ => rfl) (sessions_close_session hsession)
      (fun _ _ => rfl)

theorem SameBooking.drop_without_mixer (st : State) (locked frontend : Bool) (socket : Socket) :
    SameBooking st (st.drop_without_mixer locked frontend socket) := by
  cases hsession : (st.connections socket).session with
  | none =>
    unfold State.drop_without_mixer drop_with
    rw [hsession]
    exact SameBooking.drop_socket locked socket ⟨rfl, rfl, rfl, rfl⟩
  | some session =>
    rw [drop_without_mixer_eq hsession]
    cases frontend <;> exact SameBooking.drop_socket locked socket ⟨rfl, rfl, rfl, rfl⟩

theorem SameBooking.trans {st' st'' : State} (h : SameBooking st st') (h' : SameBooking st' st'') :
    SameBooking st st'' :=
  ⟨h'.slots.trans h.slots, h'.users.trans h.users, h'.mixer_requests.trans h.mixer_requests,
    h'.callbacks.trans h.callbacks⟩

theorem SameBooking.begin_drop (st : State) (frontend : Bool) (session : Session) :
    SameBooking st (begin_drop frontend session st) := by
  cases frontend <;> exact ⟨rfl, rfl, rfl, rfl⟩

theorem SameBooking.cb_backend_mixer_released (st : State) (locked : Bool) (session : Session) (error : Option Error) :
    SameBooking st (cb_backend_mixer_released locked session error st) := by
  simp only [vocs.cb_backend_mixer_released]
  split
  · exact ⟨rfl, rfl, rfl, rfl⟩
  split
  · exact ⟨rfl, rfl, rfl, rfl⟩
  · exact SameBooking.drop_without_mixer st locked true _

theorem SameBooking.release_user (h : SameBooking st mid) (session : Session) :
    (mid.release_user session).slots = (st.release_user session).slots ∧
      (mid.release_user session).users = (st.release_user session).users := by
  simp only [State.release_user, h.slots, h.users, and_self]

theorem Released.release_mixer (hsame : SameBooking st mid) (huuids : st.uuids < mid.uuids) (locked : Bool)
    (session : Session) : Released st session (release_mixer locked st.new_uuid session mid) := by
  unfold vocs.release_mixer
  split
  · have hreleased := hsame.trans (.cb_backend_mixer_released mid locked session none)
    obtain ⟨hslots, husers⟩ := hreleased.release_user session
    exact ⟨hslots, husers, Or.inl ⟨hreleased.mixer_requests, hreleased.callbacks⟩⟩
  rename_i mixer hmixer
  obtain ⟨hslots, husers⟩ := hsame.release_user session
  obtain ⟨rfl, -⟩ := get_user_eq_some.mp hmixer
  refine ⟨hslots, husers, Or.inr ⟨huuids, ?_, ?_⟩⟩
  · simp only [State.release_user, State.send_mixer, State.send, State.register_callback, hsame.mixer_requests,
      hsame.users, State.new_uuid]
  simp only [State.release_user, State.send_mixer, State.send, State.register_callback, hsame.callbacks, State.new_uuid]

theorem uuids_begin_drop (st : State) (frontend : Bool) (session : Session) :
    st.uuids < (begin_drop frontend session st).uuids := by
  cases frontend <;> exact Nat.lt_succ_self _

theorem drop_with_mixer_booking (st : State) (locked frontend : Bool) (socket : Socket) :
    SameBooking st (drop_with_mixer locked frontend socket st) ∨
      ∃ session, (st.connections socket).session = some session ∧
        Released st session (drop_with_mixer locked frontend socket st) := by
  cases hsession : (st.connections socket).session with
  | none =>
    refine Or.inl ?_
    unfold drop_with_mixer drop_with
    rw [hsession]
    exact SameBooking.drop_socket locked socket ⟨rfl, rfl, rfl, rfl⟩
  | some session =>
    refine Or.inr ⟨session, rfl, ?_⟩
    rw [drop_with_mixer_eq hsession]
    have hreleased := Released.release_mixer (.begin_drop st frontend session) (uuids_begin_drop st frontend session)
      locked session
    generalize release_mixer locked st.new_uuid session (begin_drop frontend session st) = mid at hreleased
    cases locked <;> exact ⟨hreleased.slots, hreleased.users, hreleased.requests⟩

theorem Dropped.drop_with_mixer (howned : Owned st.view) (locked frontend : Bool) (socket : Socket) :
    Dropped locked socket st (drop_with_mixer locked frontend socket st) := by
  cases hsession : (st.connections socket).session with
  | none =>
    unfold vocs.drop_with_mixer drop_with
    rw [hsession]
    exact Dropped.of_none hsession locked
  | some session =>
    have howner : st.sessions session = socket := howned.owner socket session hsession
    have hzero : (st.connections 0).session = none := howned.zero
    have hsocket : socket ≠ 0 := by
      intro heq
      rw [heq, hzero] at hsession
      simp at hsession
    rw [drop_with_mixer_eq hsession]
    have hcalm := Calm.begin_drop st frontend session
    generalize hmid : begin_drop frontend session st = mid at hcalm
    have hsame : mid.async = st.async ∧ mid.connections = st.connections ∧ mid.sessions = st.sessions ∧
        mid.drops = st.drops := by
      rw [← hmid]
      cases frontend <;> exact ⟨rfl, rfl, rfl, rfl⟩
    obtain ⟨hasync, hconnections, hsessions, hdrops⟩ := hsame
    unfold release_mixer
    split
    -- without a mixer the callback drops the client a first time
    · have hfirst : Dropped locked socket mid (cb_backend_mixer_released locked session none mid) := by
        simp only [cb_backend_mixer_released, hsessions, howner, if_neg hsocket]
        exact Dropped.drop_without_mixer mid locked true socket
      generalize cb_backend_mixer_released locked session none mid = next at hfirst
      have hclosed : Calm next ((next.release_user session).close_session session) := { Calm.refl next with }
      refine Dropped.drop_socket locked (hcalm.trans (hfirst.toCalm.trans hclosed)) ?_ (fun t ht => ?_)
        (fun other => ?_) (fun t ht => ?_)
      · change remaining locked socket next.async = _
        rw [hfirst.async, remaining_remaining, hasync]
      · change next.connections t = _
        rw [hfirst.connections, update_of_ne ht, hconnections]
      · change update next.sessions session 0 other = _
        rw [← sessions_close_session hsession]
        by_cases heq : other = session
        · simp [heq]
        simp only [update_of_ne heq]
        rw [hfirst.sessions, hconnections, hsession, hsessions, if_neg]
        simpa using Ne.symm heq
      change next.drops t = _
      rw [hfirst.drops t ht, hdrops]
    rename_i mixer hmixer
    have hsent : Calm mid (mid.send (.mixer mixer st.new_uuid (.release session))) := .send mid rfl
    refine Dropped.drop_socket locked (hcalm.trans ⟨rfl, rfl, rfl, rfl, rfl, rfl, Nat.le_refl _, hsent.out⟩) ?_ (fun t ht => ?_) (fun other => ?_)
      (fun t ht => ?_)
    · change remaining locked socket mid.async = _
      rw [hasync]
    · exact congrFun hconnections t
    · rw [← sessions_close_session hsession, ← hsessions]
      rfl
    · exact congrFun hdrops t

theorem unregister_drop_without_mixer (st : State) (mixer socket : Socket) :
    (st.drop_without_mixer false true socket).unregister_mixer mixer =
      (st.unregister_mixer mixer).drop_without_mixer false true socket := by
  cases hsession : (st.connections socket).session with
  | none =>
    have hsession' : ((st.unregister_mixer mixer).connections socket).session = none := hsession
    unfold State.drop_without_mixer drop_with
    rw [hsession, hsession']
    rfl
  | some session =>
    have hsession' : ((st.unregister_mixer mixer).connections socket).session = some session := hsession
    rw [drop_without_mixer_eq hsession, drop_without_mixer_eq hsession']
    rfl

theorem release_drop_without_mixer (st : State) (session : Session) (socket : Socket) :
    (st.drop_without_mixer false true socket).release_user session =
      (st.release_user session).drop_without_mixer false true socket := by
  cases hsession : (st.connections socket).session with
  | none =>
    have hsession' : ((st.release_user session).connections socket).session = none := hsession
    unfold State.drop_without_mixer drop_with
    rw [hsession, hsession']
    rfl
  | some other =>
    have hsession' : ((st.release_user session).connections socket).session = some other := hsession
    rw [drop_without_mixer_eq hsession, drop_without_mixer_eq hsession']
    rfl

theorem release_mixer_of_none (hsession : st.sessions session = 0) :
    ∃ mid : State, release_mixer false st.new_uuid session st.take_uuid = mid.release_user session ∧ Calm st mid ∧
      mid.async = st.async ∧ mid.view = st.view := by
  unfold release_mixer
  split
  · refine ⟨st.take_uuid, ?_, Calm.take_uuid st, rfl, rfl⟩
    have hnone : st.take_uuid.sessions session = 0 := hsession
    simp only [cb_backend_mixer_released, hnone, if_pos]
  rename_i mixer hmixer
  have hsent : Calm st (st.send (.mixer mixer st.new_uuid (.release session))) := .send st rfl
  exact ⟨_, rfl, ⟨rfl, rfl, rfl, rfl, rfl, rfl, Nat.le_succ _, hsent.out⟩, rfl, rfl⟩

theorem close_mixer_eq (st : State) (mixer : Socket) : close_mixer mixer st =
      (if st.slot_user mixer = "" then st
        else st.drop_without_mixer false true (st.sessions (st.slot_user mixer))).unregister_mixer mixer := by
  by_cases huser : st.slot_user mixer = ""
  · simp only [close_mixer, if_pos huser]
  simp only [close_mixer, if_neg huser]
  exact (unregister_drop_without_mixer st mixer _).symm

end

end openvocs.vocs
