import Mathlib.Logic.Relation
import Openvocs.Vocs.Frame

namespace openvocs.vocs

open vocs_db (Permission)
open State

/-- What the server knows about its clients and their history, without the
    messages under way. -/
structure View where
  connections : Socket → Record
  sessions : Session → Socket
  participates : Socket → String → Bool
  drops : Socket → Nat
  opened : Session → Nat
  session_ids : List Session
  switches : List Switch
  logins : List Login
  binds : List (String × String)

def State.view (st : State) : View :=
  ⟨st.connections, st.sessions, st.participates, st.drops, st.opened, st.session_ids, st.switches, st.logins,
    st.binds⟩

namespace View

/-- There is no connection data of socket zero. -/
def set_record (v : View) (socket : Socket) (data : Record) : View :=
  if socket = 0 then v else { v with connections := Function.update v.connections socket data }

@[simp] theorem set_record_sessions (v : View) (socket : Socket) (data : Record) :
    (v.set_record socket data).sessions = v.sessions := by
  unfold set_record
  split <;> rfl

@[simp] theorem set_record_participates (v : View) (socket : Socket) (data : Record) :
    (v.set_record socket data).participates = v.participates := by
  unfold set_record
  split <;> rfl

@[simp] theorem set_record_drops (v : View) (socket : Socket) (data : Record) :
    (v.set_record socket data).drops = v.drops := by
  unfold set_record
  split <;> rfl

@[simp] theorem set_record_opened (v : View) (socket : Socket) (data : Record) :
    (v.set_record socket data).opened = v.opened := by
  unfold set_record
  split <;> rfl

@[simp] theorem set_record_session_ids (v : View) (socket : Socket) (data : Record) :
    (v.set_record socket data).session_ids = v.session_ids := by
  unfold set_record
  split <;> rfl

theorem set_record_connections {α : Type} (f : Record → α) {v : View} {socket : Socket} {data : Record}
    (h : f data = f (v.connections socket)) (t : Socket) :
    f ((v.set_record socket data).connections t) = f (v.connections t) := by
  unfold set_record
  split
  · rfl
  by_cases ht : t = socket
  · subst ht
    simpa using h
  · simp [ht]

/-- A client is in the list of a loop, or is not. -/
def place (v : View) (socket : Socket) (loop : String) (inside : Bool) : View :=
  { v with
    participates := Function.update v.participates socket (Function.update (v.participates socket) loop inside) }

/-- A client comes into a loop or leaves it, in both places. -/
def switch (v : View) (socket : Socket) (loop : String) (inside : Bool) (permission : Permission) : View :=
  (v.place socket loop inside).set_record socket ((v.connections socket).set_loop_state loop permission)

/-- A session is entered for a client, in both places. -/
def open_session (v : View) (session : Session) (socket : Socket) : View :=
  { v.set_record socket { v.connections socket with session := some session } with
    sessions := Function.update v.sessions session socket
    opened := Function.update v.opened session (v.drops socket) }

/-- A client is dropped, with the session of its connection data. -/
def drop (v : View) (socket : Socket) : View :=
  { v with
    connections := Function.update v.connections socket {}
    sessions := match (v.connections socket).session with
      | none => v.sessions
      | some session => Function.update v.sessions session 0
    participates := Function.update v.participates socket (fun _ => false)
    drops := Function.update v.drops socket (v.drops socket + 1) }

/-- More has happened. -/
def note (v : View) (switches : List Switch) (logins : List Login) (binds : List (String × String)) : View :=
  { v with
    switches := v.switches ++ switches
    logins := v.logins ++ logins
    binds := v.binds ++ binds }

/-- The proxy has made a session. -/
def know (v : View) (session : Session) : View :=
  { v with session_ids := v.session_ids ++ [session] }

end View

/-- When a state is set without a change of the list, a session is entered, or a
    user is entered. -/
structure Rules where
  talk : View → Socket → String → Prop := fun _ _ _ => True
  session : View → Session → Socket → Prop := fun _ _ _ => True
  user : View → Socket → String → Prop := fun _ _ _ => True

/-- The ways in which the data about a client changes. -/
inductive Change (rules : Rules) (v : View) : View → Prop
  | record (socket : Socket) (data : Record)
      (huser : data.user = (v.connections socket).user)
      (hrole : (v.connections socket).role.isSome → data.role = (v.connections socket).role)
      (hsession : data.session = (v.connections socket).session)
      (hloops : data.loops = (v.connections socket).loops) : Change rules v (v.set_record socket data)
  | user (socket : Socket) (client : Option String) (user : String) (huser : rules.user v socket user) :
      Change rules v (v.set_record socket { v.connections socket with client, user := some user })
  | join (socket : Socket) (loop : String) (hsocket : socket ≠ 0) :
      Change rules v (v.switch socket loop true .recv)
  | leave (socket : Socket) (loop : String) (hsocket : socket ≠ 0) :
      Change rules v (v.switch socket loop false .none)
  | talk (socket : Socket) (loop : String) (permission : Permission) (hstate : permission ≠ .none)
      (htalk : rules.talk v socket loop) :
      Change rules v (v.set_record socket ((v.connections socket).set_loop_state loop permission))
  | session (session : Session) (socket : Socket) (hsession : rules.session v session socket) :
      Change rules v (v.open_session session socket)
  | drop (socket : Socket) : Change rules v (v.drop socket)
  | note (switches : List Switch) (logins : List Login) (binds : List (String × String)) :
      Change rules v (v.note switches logins binds)
  | know (session : Session) (hnew : session ≠ "" ∧ session ∉ v.session_ids) : Change rules v (v.know session)

/-- The changes that lead from one view to another one. -/
def Evolves (rules : Rules) : View → View → Prop := Relation.ReflTransGen (Change rules)

theorem Evolves.invariant {rules : Rules} (P : View → Prop) (hchange : ∀ v v', P v → Change rules v v' → P v')
    {v v' : View} (hv : P v) (h : Evolves rules v v') : P v' := by
  induction h with
  | refl => exact hv
  | tail _ hlast ih => exact hchange _ _ ih hlast

theorem SameClients.view {st st' : State} (h : SameClients st st') : st'.view = st.view := by
  have hparticipates : st'.participates = st.participates := by
    funext t l
    exact participates_congr h.loops t l
  simp only [State.view, h.connections, h.sessions, h.drops, h.opened, h.session_ids, h.switches, h.logins,
    h.binds, hparticipates]

theorem participates_drop_socket (locked : Bool) (st : State) (socket : Socket) :
    (st.drop_socket locked socket).participates =
      Function.update st.participates socket (fun _ => false) := by
  have hloops : (st.drop_socket locked socket).loops = (st.close_participations socket).loops := by cases locked <;> rfl
  funext t l
  rw [participates_congr hloops, participates_close_participations]
  by_cases ht : t = socket
  · subst ht
    simp
  · simp [ht]

/-- Two views that differ at most in the loops of one socket. -/
def View.SameOff (socket : Socket) (v v' : View) : Prop :=
  ∃ participates, v' = { v with participates } ∧ ∀ t, t ≠ socket → participates t = v.participates t

theorem View.SameOff.drop {socket : Socket} {v v' : View} (h : View.SameOff socket v v') (t : Socket) :
    View.SameOff socket (v.drop t) (v'.drop t) := by
  obtain ⟨participates, rfl, hparticipates⟩ := h
  refine ⟨_, rfl, fun other hother => ?_⟩
  by_cases ht : other = t
  · subst ht
    simp [View.drop]
  · simp [View.drop, Function.update_of_ne ht, hparticipates other hother]

theorem View.SameOff.drop_eq {socket : Socket} {v v' : View} (h : View.SameOff socket v v') :
    v'.drop socket = v.drop socket := by
  obtain ⟨participates, rfl, hparticipates⟩ := h
  have hlist : Function.update participates socket (fun _ => false) =
      Function.update v.participates socket (fun _ => false) := by
    funext t
    by_cases ht : t = socket
    · subst ht
      simp
    · simp [Function.update_of_ne ht, hparticipates t ht]
  simp only [View.drop, hlist]

theorem view_drop_socket (locked : Bool) (st : State) (socket : Socket)
    (h : (st.connections socket).session = none) :
    (st.drop_socket locked socket).view = st.view.drop socket := by
  have hlist := participates_drop_socket locked st socket
  cases locked <;>
    simp only [State.view, View.drop, h, hlist] <;> rfl

theorem view_close_session (locked : Bool) (st : State) (socket : Socket) {session : Session}
    (h : (st.connections socket).session = some session) :
    ((st.close_session session).drop_socket locked socket).view = st.view.drop socket := by
  have hlist := participates_drop_socket locked (st.close_session session) socket
  cases locked <;>
    simp only [State.view, View.drop, h, hlist] <;> rfl

theorem view_drop_without_mixer (st : State) (locked frontend : Bool) (socket : Socket) :
    (st.drop_without_mixer locked frontend socket).view = st.view.drop socket := by
  unfold State.drop_without_mixer drop_with
  split
  · rename_i hsession
    exact view_drop_socket locked st socket hsession
  rename_i session hsession
  cases frontend <;> exact view_close_session locked _ socket hsession

theorem view_cb_backend_mixer_released (locked : Bool) (session : Session) (error : Option Error)
    (st : State) :
    (cb_backend_mixer_released locked session error st).view = st.view ∨
      (cb_backend_mixer_released locked session error st).view = st.view.drop (st.sessions session) := by
  simp only [cb_backend_mixer_released]
  split
  · exact .inl rfl
  split
  · exact .inl rfl
  · exact .inr (view_drop_without_mixer st locked true _)

theorem view_release_mixer (locked : Bool) (uuid : Uuid) (session : Session) (st : State) :
    (release_mixer locked uuid session st).view = st.view ∨
      (release_mixer locked uuid session st).view = st.view.drop (st.sessions session) := by
  unfold release_mixer
  split
  · exact view_cb_backend_mixer_released locked session none st
  · exact .inl rfl

theorem view_drop_with_mixer (locked frontend : Bool) (socket : Socket) (st : State) :
    ∃ first : List Socket, (∀ t ∈ first, ∃ session, (st.connections socket).session = some session ∧
        t = st.sessions session) ∧
      (drop_with_mixer locked frontend socket st).view = (first.foldl View.drop st.view).drop socket := by
  unfold drop_with_mixer drop_with
  split
  · rename_i hsession
    exact ⟨[], by simp, view_drop_socket locked st socket hsession⟩
  rename_i session hsession
  have hsent : ∀ frontend : Bool, (if frontend then st.take_uuid.drop_session st.new_uuid session
      else st.take_uuid).view = st.view := by
    intro frontend
    cases frontend <;> rfl
  generalize hst' : (if frontend then st.take_uuid.drop_session st.new_uuid session else st.take_uuid) = st'
  have hview : st'.view = st.view := hst' ▸ hsent frontend
  have hsessions : st'.sessions = st.sessions := congrArg View.sessions hview
  dsimp only
  rw [hst']
  generalize hreleased : release_mixer locked st.new_uuid session st' = released
  have hcases := view_release_mixer locked st.new_uuid session st'
  rw [hreleased, hview, hsessions] at hcases
  rcases hcases with hsame | hdropped
  · have hrecord : (released.connections socket).session = some session := by
      rw [show released.connections = st.connections from congrArg View.connections hsame]
      exact hsession
    exact ⟨[], by simp, by rw [view_close_session locked released socket hrecord, hsame]; rfl⟩
  refine ⟨[st.sessions session], by simp [hsession], ?_⟩
  have hconnections : released.connections = (st.view.drop (st.sessions session)).connections :=
    congrArg View.connections hdropped
  by_cases hself : socket = st.sessions session
  · -- the session leads to the socket: it is closed already
    have hrecord : ((released.close_session session).connections socket).session = none := by
      show (released.connections socket).session = none
      simp [hconnections, View.drop, hself]
    have hclosed : released.sessions session = 0 := by
      have hgone : (st.view.connections (st.sessions session)).session = some session := by
        rw [← hself]
        exact hsession
      rw [show released.sessions = (st.view.drop (st.sessions session)).sessions from
        congrArg View.sessions hdropped]
      simp [View.drop, hgone]
    have hview' : (released.close_session session).view = released.view := by
      simp only [State.view, State.close_session]
      rw [show Function.update released.sessions session 0 = released.sessions by
        rw [← hclosed, Function.update_eq_self]]
    rw [view_drop_socket locked _ socket hrecord, hview', hdropped]
    rfl
  have hrecord : (released.connections socket).session = some session := by
    rw [hconnections]
    simpa [View.drop, State.view, Function.update_of_ne hself] using hsession
  rw [view_close_session locked released socket hrecord, hdropped]
  rfl

theorem view_set_record (st : State) (socket : Socket) (data : Record) :
    (st.set_record socket data).view = st.view.set_record socket data := by
  unfold State.set_record View.set_record
  split <;> rfl

theorem view_open_loop (st : State) (loop : String) : (st.open_loop loop).view = st.view := by
  have hparticipates : (st.open_loop loop).participates = st.participates := by
    funext t l
    exact participates_open_loop st loop t l
  simp only [State.view, hparticipates]
  rfl

section

variable {rules : Rules} {v : View} {st : State}

variable {st' : State}

theorem Evolves.of_view (h : Evolves rules v st.view) (hview : st'.view = st.view) :
    Evolves rules v st'.view := by
  rwa [hview]

theorem Evolves.same (h : Evolves rules v st.view) (hsame : SameClients st st') : Evolves rules v st'.view :=
  h.of_view hsame.view

theorem Evolves.drop {w : View} (h : Evolves rules v w) (socket : Socket) : Evolves rules v (w.drop socket) :=
  Relation.ReflTransGen.tail h (.drop socket)

theorem Evolves.drop_all {w : View} (h : Evolves rules v w) (sockets : List Socket) :
    Evolves rules v (sockets.foldl View.drop w) := by
  induction sockets generalizing w with
  | nil => exact h
  | cons socket sockets ih => exact ih (h.drop socket)

section

variable (h : Evolves rules v st.view)

include h

theorem Evolves.drop_without_mixer (locked frontend : Bool) (socket : Socket) :
    Evolves rules v (st.drop_without_mixer locked frontend socket).view := by
  rw [view_drop_without_mixer]
  exact h.drop socket

theorem Evolves.cb_backend_mixer_released (locked : Bool) (session : Session)
    (error : Option Error) : Evolves rules v (cb_backend_mixer_released locked session error st).view := by
  rcases view_cb_backend_mixer_released locked session error st with hview | hview
  · rwa [hview]
  rw [hview]
  exact h.drop _

theorem Evolves.release_mixer (locked : Bool) (uuid : Uuid)
    (session : Session) : Evolves rules v (release_mixer locked uuid session st).view := by
  rcases view_release_mixer locked uuid session st with hview | hview
  · rwa [hview]
  rw [hview]
  exact h.drop _

theorem Evolves.drop_with_mixer (locked frontend : Bool) (socket : Socket) :
    Evolves rules v (drop_with_mixer locked frontend socket st).view := by
  obtain ⟨first, -, hview⟩ := view_drop_with_mixer locked frontend socket st
  rw [hview]
  exact (h.drop_all first).drop socket

theorem Evolves.drop_connection_off {socket : Socket}
    (hoff : View.SameOff socket st.view st'.view) : Evolves rules v (drop_connection socket st').view := by
  obtain ⟨first, -, hview⟩ := view_drop_with_mixer false true socket st'
  have hfirst : View.SameOff socket (first.foldl View.drop st.view) (first.foldl View.drop st'.view) := by
    clear hview
    generalize st.view = w at hoff
    generalize st'.view = w' at hoff
    induction first generalizing w w' with
    | nil => exact hoff
    | cons other first ih => exact ih _ _ (hoff.drop other)
  rw [vocs.drop_connection, hview, hfirst.drop_eq]
  exact (h.drop_all first).drop socket

theorem Evolves.drop_connection (socket : Socket) :
    Evolves rules v (drop_connection socket st).view :=
  h.drop_with_mixer false true socket

theorem Evolves.close_mixer (mixer : Socket) :
    Evolves rules v (close_mixer mixer st).view := by
  have hgone : Evolves rules v (st.unregister_mixer mixer).view := h.of_view rfl
  simp only [vocs.close_mixer]
  split
  · exact hgone
  · exact hgone.drop_without_mixer false true _

theorem Evolves.set_record (socket : Socket) {data : Record}
    (huser : data.user = (st.connections socket).user)
    (hrole : (st.connections socket).role.isSome → data.role = (st.connections socket).role)
    (hsession : data.session = (st.connections socket).session)
    (hloops : data.loops = (st.connections socket).loops) : Evolves rules v (st.set_record socket data).view := by
  rw [view_set_record]
  exact Relation.ReflTransGen.tail h (.record socket data huser hrole hsession hloops)

theorem Evolves.cb_backend_mixer_acquired (uuid : Uuid) (session : Session)
    (error : Option Error) : Evolves rules v (cb_backend_mixer_acquired uuid session error st).view := by
  have hunset : Evolves rules v (st.async_unset uuid).view := h.of_view rfl
  simp only [vocs.cb_backend_mixer_acquired]
  split
  · have htaken : Evolves rules v st.take_uuid.view := h.of_view rfl
    exact htaken.release_mixer false st.new_uuid session
  split
  · exact hunset.drop_without_mixer false true _
  split
  · have hsent : Evolves rules v ((st.async_unset uuid).send (.notice (st.sessions session) .media_ready)).view :=
      hunset.of_view rfl
    exact hsent.set_record _ rfl (fun _ => rfl) rfl rfl
  · exact hunset.set_record _ rfl (fun _ => rfl) rfl rfl

theorem Evolves.acquire_mixer (config : Config) (uuid : Uuid)
    (session : Session) : Evolves rules v (acquire_mixer config uuid session st).view := by
  unfold vocs.acquire_mixer
  split
  · exact h.cb_backend_mixer_acquired uuid session _
  · exact h.of_view rfl

end

theorem View.SameOff.place (v : View) (socket : Socket) (loop : String) (inside : Bool) :
    View.SameOff socket v (v.place socket loop inside) :=
  ⟨_, rfl, fun _ ht => Function.update_of_ne ht _ _⟩

variable {loop : String}

theorem view_place {st st' : State} {socket : Socket} {inside : Bool}
    (hview : { st'.view with participates := st.participates } = st.view)
    (hlist : ∀ t l, st'.participates t l = if t = socket ∧ l = loop then inside else st.participates t l) :
    st'.view = st.view.place socket loop inside := by
  have hparticipates : st'.participates =
      Function.update st.participates socket (Function.update (st.participates socket) loop inside) := by
    funext t l
    rw [hlist]
    by_cases ht : t = socket
    · subst ht
      by_cases hl : l = loop <;> simp [hl]
    · simp [ht]
  calc st'.view
    _ = { { st'.view with participates := st.participates } with participates := st'.participates } := rfl
    _ = { st.view with participates := st'.participates } := by rw [hview]
    _ = st.view.place socket loop inside := by rw [hparticipates]; rfl

theorem view_enter_loop (st : State) (loop : String) (socket : Socket) (p : Participant) :
    (enter_loop loop socket p st).view = st.view.place socket loop true := by
  have hopen : ((st.open_loop loop).loops loop).isSome := by simp [State.open_loop]
  refine view_place rfl fun t l => ?_
  rw [← participates_open_loop st loop t l]
  exact participates_add_participant (st.open_loop loop) socket loop p hopen t l

theorem view_drop_participant (st : State) (loop : String) (socket : Socket) :
    (st.drop_participant loop socket).view = st.view.place socket loop false :=
  view_place rfl (participates_drop_participant st socket loop)

theorem Evolves.switch {socket : Socket} (h : Evolves rules v st.view) (hsocket : socket ≠ 0) {inside : Bool} {permission : Permission}
    (hview : st'.view = st.view.place socket loop inside)
    (hstate : inside = true ∧ permission = .recv ∨ inside = false ∧ permission = .none) :
    Evolves rules v (st'.set_record socket ((st.connections socket).set_loop_state loop permission)).view := by
  rw [view_set_record, hview]
  obtain ⟨rfl, rfl⟩ | ⟨rfl, rfl⟩ := hstate
  · exact Relation.ReflTransGen.tail h (.join socket loop hsocket)
  · exact Relation.ReflTransGen.tail h (.leave socket loop hsocket)

variable {session : Session}

theorem Evolves.finish_join {socket : Socket} (h : Evolves rules v st.view)
    (hsocket : socket ≠ 0) (hview : st'.view = st.view.place socket loop true) {outside : Outside} {uuid : Uuid} {orig : Message} {next : State}
    (hjoin : finish_join outside uuid session loop socket orig (st.connections socket) st' = some next) :
    Evolves rules v next.view := by
  have hdrop : ∀ st'' : State, SameClients st' st'' → Evolves rules v (vocs.drop_connection socket st'').view := by
    intro st'' hsame
    apply h.drop_connection_off
    rw [hsame.view, hview]
    exact View.SameOff.place st.view socket loop true
  have hset : ∀ st'' : State, SameClients st' st'' →
      Evolves rules v (st''.set_record socket ((st.connections socket).set_loop_state loop .recv)).view :=
    fun st'' hsame => h.switch hsocket (hsame.view.trans hview) (Or.inl ⟨rfl, rfl⟩)
  simp only [vocs.finish_join] at hjoin
  split at hjoin
  · split at hjoin
    · simp at hjoin
    split at hjoin
    · simp at hjoin
    · rename_i hperform
      cases hjoin
      exact hdrop _ ((SameClients.async_set st' uuid _).trans (.perform_switch_loop_request hperform))
    rename_i hperform
    cases hjoin
    exact hset _ ((SameClients.async_set st' uuid _).trans (.perform_switch_loop_request hperform))
  have hsent := SameClients.send_switch_loop_user_broadcast st' socket loop .recv
  split at hjoin
  · cases hjoin
    exact hset _ (hsent.trans (.respond _ _ _ _))
  cases hjoin
  exact hdrop _ hsent

variable {error : Option Error}

section

variable (h : Evolves rules v st.view)

include h

theorem Evolves.cb_backend_mixer_join {outside : Outside} {uuid : Uuid}
    (hjoin : cb_backend_mixer_join outside uuid session loop error st = some st') : Evolves rules v st'.view := by
  have hunset : Evolves rules v (st.async_unset uuid).view := h.same (.async_unset st uuid)
  simp only [vocs.cb_backend_mixer_join] at hjoin
  split at hjoin
  · cases hjoin
    exact h.same (.send_message st _ _ _ _)
  split at hjoin
  · cases hjoin
    exact hunset.same (.respond _ _ _ _)
  split at hjoin
  · split at hjoin
    · cases hjoin
      exact (hunset.of_view (view_open_loop _ loop)).drop_connection _
    rename_i hsocket
    exact hunset.finish_join hsocket (view_enter_loop _ _ _ _) hjoin
  cases hjoin
  exact hunset.drop_connection _

theorem Evolves.exit_loop (outside : Outside) (loop : String) {socket : Socket}
    (hsocket : socket ≠ 0) (orig : Message) :
    Evolves rules v (exit_loop outside loop socket orig (st.connections socket) st).view := by
  have hsent := SameClients.send_switch_loop_user_broadcast
    ((st.drop_participant loop socket).send_switch_loop_broadcast socket loop .none) socket loop .none
  have hview := hsent.view.trans (view_drop_participant st loop socket)
  simp only [vocs.exit_loop]
  split
  · exact h.switch hsocket hview (Or.inr ⟨rfl, rfl⟩)
  apply h.drop_connection_off
  rw [hview]
  exact View.SameOff.place st.view socket loop false

theorem Evolves.cb_backend_mixer_leave {outside : Outside} {uuid : Uuid}
    (hleave : cb_backend_mixer_leave outside uuid session loop error st = some st') :
    Evolves rules v st'.view := by
  have hunset : Evolves rules v (st.async_unset uuid).view := h.same (.async_unset st uuid)
  simp only [vocs.cb_backend_mixer_leave] at hleave
  split at hleave
  · cases hleave
    exact hunset
  rename_i hsocket
  split at hleave
  · cases hleave
    exact hunset.drop_connection _
  · cases hleave
    exact hunset.same (.respond _ _ _ _)
  split at hleave
  · split at hleave
    · simp at hleave
    cases hleave
    have hbroadcast : Evolves rules v
        ((st.async_unset uuid).set_broadcast loop (st.sessions session) .unset).view := hunset.of_view rfl
    exact hbroadcast.exit_loop outside loop hsocket _
  cases hleave
  exact hunset.drop_connection _

theorem Evolves.cb_backend_mixer_volume (uuid : Uuid) (session : Session)
    (loop : String) (error : Option Error) :
    Evolves rules v (cb_backend_mixer_volume uuid session loop error st).view := by
  have hunset : Evolves rules v (st.async_unset uuid).view := h.same (.async_unset st uuid)
  simp only [vocs.cb_backend_mixer_volume]
  split
  · exact hunset
  split
  · exact hunset.drop_connection _
  · exact hunset.same (.respond _ _ _ _)
  · exact hunset.same (.respond _ _ _ _)

theorem Evolves.cb_backend_mixer_state (uuid : Uuid) (content : Json) :
    Evolves rules v (cb_backend_mixer_state uuid content st).view := by
  have hunset : Evolves rules v (st.async_unset uuid).view := h.same (.async_unset st uuid)
  simp only [vocs.cb_backend_mixer_state]
  split
  · split
    · exact hunset.same (.respond _ _ _ _)
    · exact hunset
  · exact hunset

theorem Evolves.call_mixer_callback {cb : Callback} {uuid : Uuid}
    (hcall : call_mixer_callback cb uuid session error st = some st') : Evolves rules v st'.view := by
  cases cb <;> simp only [vocs.call_mixer_callback, Option.some.injEq, reduceCtorEq] at hcall
  · exact hcall ▸ h.cb_backend_mixer_acquired uuid session error
  · exact hcall ▸ h.cb_backend_mixer_released false session error

theorem Evolves.call_loop_callback {outside : Outside} {cb : Callback}
    {uuid : Uuid}
    (hcall : call_loop_callback outside cb uuid session loop error st = some st') : Evolves rules v st'.view := by
  cases cb <;> simp only [vocs.call_loop_callback, reduceCtorEq] at hcall
  · exact h.cb_backend_mixer_join hcall
  · exact h.cb_backend_mixer_leave hcall

theorem Evolves.mixer_response {outside : Outside} {r : MixerRequest} {content : Json}
    (hresponse : mixer_response outside r error content st = some st') : Evolves rules v st'.view := by
  have hnext : Evolves rules v (st.unregister_callback r.uuid).view := h.of_view rfl
  have hreleased : ∀ session, Evolves rules v ((st.unregister_callback r.uuid).release_user session).view :=
    fun session => h.of_view rfl
  simp only [vocs.mixer_response] at hresponse
  split at hresponse
  · rename_i session _
    have hacquire : Evolves rules v (if error.isSome then (st.unregister_callback r.uuid).release_user session
        else st.unregister_callback r.uuid).view := by
      split
      · exact hreleased session
      · exact hnext
    split at hresponse
    · cases hresponse
      exact hacquire.close_mixer _
    · exact hacquire.call_mixer_callback hresponse
  · rename_i session _
    have hrelease : Evolves rules v (if error.isSome then vocs.close_mixer r.mixer (st.unregister_callback r.uuid)
        else (st.unregister_callback r.uuid).release_user session).view := by
      split
      · exact hnext.close_mixer _
      · exact hreleased session
    split at hresponse
    · cases hresponse
      exact hrelease
    · exact hrelease.call_mixer_callback hresponse
  · split at hresponse
    · cases hresponse
      exact hnext.close_mixer _
    · exact hnext.call_loop_callback hresponse
  · split at hresponse
    · cases hresponse
      exact hnext
    · exact hnext.call_loop_callback hresponse
  · split at hresponse
    · cases hresponse
      exact hnext
    · cases hresponse
      exact hnext.cb_backend_mixer_volume _ _ _ _
    · simp at hresponse
  split at hresponse
  · cases hresponse
    exact hnext
  · cases hresponse
    exact hnext.cb_backend_mixer_state _ _
  · simp at hresponse

theorem Evolves.finish_talk {outside : Outside} {uuid : Uuid} {socket : Socket} {orig : Message} {current : Permission}
    (htalk : finish_talk outside uuid session loop socket orig current st = some st') :
    Evolves rules v st'.view := by
  have hleave := h.same ((SameClients.async_set st uuid ⟨socket, orig⟩).trans
    (.send_message _ .leave uuid session (.leave session loop)))
  have hsent := h.same (.send_switch_loop_user_broadcast st socket loop current)
  simp only [vocs.finish_talk, leave_loop] at htalk
  split at htalk
  · split at htalk
    · rename_i heq
      cases htalk
      rwa [heq] at hleave
    rename_i heq
    cases htalk
    rw [heq] at hleave
    exact hleave.drop_connection socket
  split at htalk
  · simp at htalk
  split at htalk
  · cases htalk
    exact hsent.same (.respond _ _ _ _)
  cases htalk
  exact hsent.drop_connection socket

theorem Evolves.cb_frontend_talk {outside : Outside} {uuid : Uuid} {on : Bool}
    (hrule : ∀ data, st.pending uuid = some data → error = none → (st.connections data.socket).user.isSome →
      (st.connections data.socket).role.isSome → rules.talk st.view data.socket loop)
    (htalk : cb_frontend_talk outside uuid session loop on error st = some st') : Evolves rules v st'.view := by
  have hunset : Evolves rules v (st.async_unset uuid).view := h.same (.async_unset st uuid)
  simp only [vocs.cb_frontend_talk] at htalk
  split at htalk
  · cases htalk
    exact h.drop_connection 0
  rename_i socket orig hpending
  split at htalk
  · cases htalk
    exact hunset.same (.respond _ _ _ _)
  split at htalk
  · rename_i user role huser hrole
    refine Evolves.finish_talk ?_ htalk
    rw [view_set_record]
    refine Relation.ReflTransGen.tail hunset (.talk socket loop _ ?_ ?_)
    · cases on <;> simp
    · exact hrule _ hpending rfl (Option.isSome_of_eq_some huser) (Option.isSome_of_eq_some hrole)
  cases htalk
  exact hunset.drop_connection _

end

theorem view_open_session (st : State) (session : Session) (socket : Socket) :
    ((st.open_session session socket).set_record socket
      { st.connections socket with session := some session }).view = st.view.open_session session socket := by
  rw [view_set_record]
  unfold View.open_session View.set_record
  split <;> rfl

section

variable (h : Evolves rules v st.view)

include h

theorem Evolves.open_session {socket : Socket}
    (hrule : rules.session st.view session socket) :
    Evolves rules v ((st.open_session session socket).set_record socket
      { st.connections socket with session := some session }).view := by
  rw [view_open_session]
  exact Relation.ReflTransGen.tail h (.session session socket hrule)

theorem Evolves.cb_frontend_session_created (config : Config) (outside : Outside)
    (uuid : Uuid) (r : ProxyResult)
    (hrule : ∀ data, st.pending uuid = some data → r.error = none → rules.session st.view r.session data.socket) :
    Evolves rules v (cb_frontend_session_created config outside uuid r st).view := by
  have hunset : Evolves rules v (st.async_unset uuid).view := h.same (.async_unset st uuid)
  unfold vocs.cb_frontend_session_created
  split
  · exact hunset.of_view rfl
  · exact hunset
  · exact hunset.same (.respond _ _ _ _)
  rename_i socket orig hpending herror
  have hopened : Evolves rules v (((st.async_unset uuid).open_session r.session socket).set_record socket
      { (st.async_unset uuid).connections socket with session := some r.session }).view :=
    hunset.open_session (hrule _ hpending herror)
  dsimp only
  split
  · rename_i hzero
    rw [State.set_record, if_pos hzero] at hopened
    exact hopened.of_view rfl
  have hacquire := hopened.acquire_mixer config uuid r.session
  split
  · exact hacquire.same (.respond _ _ _ _)
  · exact hacquire.of_view rfl

theorem Evolves.cb_frontend_session_completed (session : Session)
    (success : Bool) : Evolves rules v (cb_frontend_session_completed session success st).view := by
  simp only [vocs.cb_frontend_session_completed]
  split
  · exact h
  split
  · split
    · have hsent : Evolves rules v (st.send (.notice (st.sessions session) .media_ready)).view := h.of_view rfl
      exact hsent.set_record _ rfl (fun _ => rfl) rfl rfl
    · exact h.set_record _ rfl (fun _ => rfl) rfl rfl
  · exact h.drop_with_mixer false false _

theorem Evolves.cb_frontend_session_state (uuid : Uuid) (session : Session)
    (r : ProxyResult) : Evolves rules v (cb_frontend_session_state uuid session r st).view := by
  have hunset : Evolves rules v (st.async_unset uuid).view := h.same (.async_unset st uuid)
  simp only [vocs.cb_frontend_session_state]
  split
  · exact hunset
  split
  · exact hunset
  split
  · exact hunset.same (.respond _ _ _ _)
  · exact (hunset.same (.async_set _ _ _)).same (.send_message _ _ _ _ _)

theorem Evolves.proxy_response {config : Config} {outside : Outside}
    {r : ProxyRequest} {result : ProxyResult}
    (htalk : ∀ session on loop, r.command = .talk session on loop → ∀ data, st.pending r.uuid = some data →
      result.error = none → (st.connections data.socket).user.isSome →
        (st.connections data.socket).role.isSome → rules.talk st.view data.socket loop)
    (hsession : r.command = .create_session → ∀ data, st.pending r.uuid = some data → result.error = none →
      result.session ∉ st.session_ids → rules.session (st.view.know result.session) result.session data.socket)
    (hresponse : proxy_response config outside r result st = some st') : Evolves rules v st'.view := by
  have hunset : ∀ uuid, Evolves rules v (st.async_unset uuid).view := fun uuid => h.same (.async_unset st uuid)
  simp only [vocs.proxy_response] at hresponse
  split at hresponse
  · rename_i hcommand
    split at hresponse
    · split at hresponse
      · simp at hresponse
      rename_i hnew
      rw [not_or] at hnew
      cases hresponse
      refine Evolves.cb_frontend_session_created ?_ config outside _ _ fun data hpending herror => ?_
      · exact Relation.ReflTransGen.tail h (.know result.session hnew)
      · exact hsession hcommand data hpending herror hnew.2
    rename_i herror
    cases hresponse
    refine h.cb_frontend_session_created config outside _ _ fun data hpending hnone => ?_
    simp [hnone] at herror
  · cases hresponse
    unfold cb_frontend_session_update
    split
    · exact (hunset _).same (.respond _ _ _ _)
    · exact (hunset _).same (.respond _ _ _ _)
    · exact (hunset r.uuid).of_view rfl
    · exact hunset _
  · cases hresponse
    exact h.drop_with_mixer false false _
  · cases hresponse
    unfold cb_frontend_candidate
    split
    · exact (hunset _).same (.respond _ _ _ _)
    · exact (hunset _).same (.respond _ _ _ _)
    · exact (hunset r.uuid).of_view rfl
    · exact hunset _
  · cases hresponse
    unfold cb_frontend_end_of_candidates
    split
    · exact (hunset _).same (.respond _ _ _ _)
    · exact (hunset _).same (.respond _ _ _ _)
    · exact hunset _
  · rename_i session on loop hcommand
    exact h.cb_frontend_talk (htalk session on loop hcommand) hresponse
  cases hresponse
  exact h.cb_frontend_session_state _ _ _

theorem Evolves.enter_user {socket : Socket} {client : Option String}
    {user : String} (hrule : rules.user st.view socket user) :
    Evolves rules v (enter_user socket client user st).view := by
  simp only [vocs.enter_user]
  rw [view_set_record]
  exact Relation.ReflTransGen.tail h (.user socket client user hrule)

theorem Evolves.log_in (outside : Outside) {socket : Socket} (msg : Message)
    {user : String} (hrule : rules.user st.view socket user) :
    Evolves rules v (log_in outside socket msg user st).2.view := by
  have hinit : (event_session_init outside.token msg.client user st).2.view = st.view := by
    unfold event_session_init
    split <;> rfl
  generalize hresult : event_session_init outside.token msg.client user st = result at hinit
  have hentered : Evolves rules v (vocs.enter_user socket msg.client user result.2).view :=
    Evolves.enter_user (h.of_view hinit) (by rwa [hinit])
  simp only [vocs.log_in, hresult]
  split
  · exact hentered
  dsimp only
  split
  · exact hentered.same (.respond _ _ _ _)
  · exact hentered

theorem Evolves.cb_ldap_authentication (outside : Outside) (uuid : Uuid)
    (granted : Bool)
    (hrule : granted = true → ∀ data user, st.pending uuid = some data → data.value.get "user" = some user →
      rules.user st.view data.socket user) :
    Evolves rules v (cb_ldap_authentication outside uuid granted st).view := by
  have hunset : Evolves rules v (st.async_unset uuid).view := h.same (.async_unset st uuid)
  simp only [vocs.cb_ldap_authentication]
  split
  · exact h
  rename_i hpending
  split
  · rename_i hgranted
    split
    · exact hunset
    rename_i huser
    exact hunset.log_in outside _ (hrule hgranted _ _ hpending huser)
  · exact (hunset.same (.respond _ _ _ _)).drop_connection _

theorem Evolves.module_response (r : ModuleRequest) (error : Option Error)
    (content : Json) : Evolves rules v (module_response r error content st).view := by
  have hunset : Evolves rules v (st.async_unset r.uuid).view := h.same (.async_unset st r.uuid)
  simp only [vocs.module_response]
  split
  · exact h
  split
  · exact hunset.same (.respond _ _ _ _)
  · split <;> exact hunset.same (.respond _ _ _ _)

end

theorem Evolves.invalidate (uuids : List Uuid) (h : Evolves rules v st.view) :
    Evolves rules v (invalidate uuids st).view := by
  induction uuids generalizing st with
  | nil => exact h
  | cons uuid uuids ih =>
    unfold vocs.invalidate
    split
    · exact ih h
    apply ih
    exact ((h.same (.async_unset st uuid)).same (.respond _ _ _ _)).drop_with_mixer true true _

end

end openvocs.vocs
