import Openvocs.Vocs.Sessions

namespace openvocs.vocs

open vocs_db (Permission)
open State

namespace State

/-- The ids of the messages that wait for an answer. -/
def underway (st : State) : List Uuid :=
  st.mixer_requests.map MixerRequest.uuid ++ (st.proxy_requests.map ProxyRequest.uuid ++
    (st.ldap_requests.map LdapRequest.uuid ++ st.module_requests.map ModuleRequest.uuid))

/-- No mixer was ever asked for the session. -/
def Untouched (st : State) (session : Session) : Prop :=
  st.users session = 0 ∧
    ∀ r ∈ st.mixer_requests, r.command ≠ .acquire session ∧ r.command ≠ .release session

end State

/-- Anything but the messages that let a session hear or speak on a loop. -/
def Output.is_quiet : Output → Bool
  | .mixer _ _ (.join _ _) => false
  | .proxy _ (.talk _ on _) => !on
  | _ => true

namespace MixerCommand

/-- The callback that is registered with a message. -/
def callback : MixerCommand → Callback
  | .acquire _ => .acquired
  | .release _ => .released
  | .join _ _ => .join
  | .leave _ _ => .leave
  | .volume _ _ => .volume
  | .state _ => .state

/-- The messages that neither book a mixer nor let a session into a loop. -/
def is_plain : MixerCommand → Bool
  | .leave _ _ => true
  | .volume _ _ => true
  | .state _ => true
  | _ => false

end MixerCommand

/-- Nothing has changed that decides about requests and mixers: the stores, the
    messages under way, the sessions, and the sessions and roles of the clients. -/
structure Keeps (st st' : State) : Prop where
  async : st'.async = st.async
  sessions : st'.sessions = st.sessions
  slots : st'.slots = st.slots
  users : st'.users = st.users
  callbacks : st'.callbacks ⊆ st.callbacks
  mixer_requests : st'.mixer_requests = st.mixer_requests
  proxy_requests : st'.proxy_requests = st.proxy_requests
  ldap_requests : st'.ldap_requests = st.ldap_requests
  module_requests : st'.module_requests = st.module_requests
  uuids : st.uuids ≤ st'.uuids
  session_ids : st'.session_ids = st.session_ids
  drops : st'.drops = st.drops
  session : ∀ t, (st'.connections t).session = (st.connections t).session
  role : ∀ t, (st.connections t).role.isSome → (st'.connections t).role = (st.connections t).role
  switches : st.switches ⊆ st'.switches
  logins : st.logins ⊆ st'.logins
  out : ∀ o ∈ st'.out, o ∈ st.out ∨ o.is_quiet

namespace Keeps

variable {st st' st'' : State}

theorem refl (st : State) : Keeps st st where
  async := rfl
  sessions := rfl
  slots := rfl
  users := rfl
  callbacks := List.Subset.refl _
  mixer_requests := rfl
  proxy_requests := rfl
  ldap_requests := rfl
  module_requests := rfl
  uuids := Nat.le_refl _
  session_ids := rfl
  drops := rfl
  session _ := rfl
  role _ _ := rfl
  switches := List.Subset.refl _
  logins := List.Subset.refl _
  out _ ho := Or.inl ho

theorem trans (h : Keeps st st') (h' : Keeps st' st'') : Keeps st st'' where
  async := h'.async.trans h.async
  sessions := h'.sessions.trans h.sessions
  slots := h'.slots.trans h.slots
  users := h'.users.trans h.users
  callbacks := List.Subset.trans h'.callbacks h.callbacks
  mixer_requests := h'.mixer_requests.trans h.mixer_requests
  proxy_requests := h'.proxy_requests.trans h.proxy_requests
  ldap_requests := h'.ldap_requests.trans h.ldap_requests
  module_requests := h'.module_requests.trans h.module_requests
  uuids := Nat.le_trans h.uuids h'.uuids
  session_ids := h'.session_ids.trans h.session_ids
  drops := h'.drops.trans h.drops
  session t := (h'.session t).trans (h.session t)
  role t hsome := by
    have hfirst := h.role t hsome
    rw [h'.role t (hfirst ▸ hsome), hfirst]
  switches := List.Subset.trans h.switches h'.switches
  logins := List.Subset.trans h.logins h'.logins
  out o ho := by
    obtain hold | hquiet := h'.out o ho
    · exact h.out o hold
    · exact Or.inr hquiet

theorem underway (h : Keeps st st') : st'.underway = st.underway := by
  simp only [State.underway, h.mixer_requests, h.proxy_requests, h.ldap_requests, h.module_requests]

theorem send (st : State) {o : Output} (ho : o.is_quiet = true) : Keeps st (st.send o) :=
  { refl st with
    out := by
      intro other hother
      simp only [State.send, List.mem_append, List.mem_singleton] at hother
      obtain hold | hnew := hother
      · exact Or.inl hold
      · exact Or.inr (hnew ▸ ho) }

theorem respond (st : State) (socket : Socket) (request : Message) (response : Response) :
    Keeps st (st.respond socket request response) :=
  send st rfl

theorem set_record (st : State) {socket : Socket} {data : Record}
    (hsession : data.session = (st.connections socket).session)
    (hrole : (st.connections socket).role.isSome → data.role = (st.connections socket).role) :
    Keeps st (st.set_record socket data) := by
  unfold State.set_record
  split
  · exact refl st
  refine { refl st with session := fun t => ?_, role := fun t => ?_ }
  · by_cases ht : t = socket
    · subst ht
      simpa using hsession
    · simp [ht]
  by_cases ht : t = socket
  · subst ht
    simpa using hrole
  · simp [ht]

theorem send_switch_loop_broadcast (st : State) (socket : Socket) (loop : String) (current : Permission) :
    Keeps st (st.send_switch_loop_broadcast socket loop current) :=
  send st rfl

theorem send_switch_loop_user_broadcast (st : State) (socket : Socket) (loop : String) (current : Permission) :
    Keeps st (st.send_switch_loop_user_broadcast socket loop current) := by
  simp only [State.send_switch_loop_user_broadcast]
  split
  · exact refl st
  · exact send st rfl

theorem send_switch_volume_user_broadcast (st : State) (socket : Socket) (loop : String) :
    Keeps st (st.send_switch_volume_user_broadcast socket loop) := by
  simp only [State.send_switch_volume_user_broadcast]
  split
  · exact refl st
  · exact send st rfl

theorem set_broadcast (st : State) (name : String) (socket : Socket) (type : Broadcast) :
    Keeps st (st.set_broadcast name socket type) :=
  { refl st with }

theorem open_loop (st : State) (loop : String) : Keeps st (st.open_loop loop) :=
  { refl st with }

theorem enter_loop (st : State) (loop : String) (socket : Socket) (p : Participant) :
    Keeps st (enter_loop loop socket p st) := by
  have hadded : Keeps st ((st.open_loop loop).add_participant loop socket p) := { refl st with }
  exact (hadded.trans (set_broadcast _ loop socket .loop)).trans (send_switch_loop_broadcast _ socket loop .recv)

theorem drop_participant (st : State) (loop : String) (socket : Socket) :
    Keeps st (st.drop_participant loop socket) :=
  { refl st with }

theorem unregister_callback (st : State) (uuid : Uuid) : Keeps st (st.unregister_callback uuid) :=
  { refl st with callbacks := List.filter_subset_self _ }

theorem take_uuid (st : State) : Keeps st st.take_uuid :=
  { refl st with uuids := Nat.le_succ _ }

theorem drop_ice_session (st : State) (session : Session) : Keeps st (drop_ice_session session st) :=
  (take_uuid st).trans (send _ rfl)

theorem event_session_init (st : State) (token : String) (client : Option String) (user : String) :
    Keeps st (event_session_init token client user st).2 := by
  unfold vocs.event_session_init
  split
  · exact refl st
  · exact { refl st with }

theorem enter_user (st : State) (socket : Socket) (client : Option String) (user : String) :
    Keeps st (enter_user socket client user st) := by
  have hbroadcast := (set_broadcast st user socket .user).trans (set_broadcast _ "system_broadcast" socket .system)
  exact hbroadcast.trans (set_record _ rfl (fun _ => rfl))

theorem log_in (st : State) (outside : Outside) (socket : Socket) (msg : Message) (user : String) :
    Keeps st (log_in outside socket msg user st).2 := by
  have hinit := event_session_init st outside.token msg.client user
  simp only [vocs.log_in]
  generalize vocs.event_session_init outside.token msg.client user st = result at hinit
  obtain ⟨token, next⟩ := result
  have hentered := hinit.trans (enter_user next socket msg.client user)
  cases token with
  | none => exact hentered
  | some session =>
    dsimp only
    split
    · exact hentered.trans (respond _ _ _ _)
    · exact hentered

end Keeps

/-- The stored request is the login by which the LDAP server was asked. -/
def LoginOf (st : State) (data : Pending) (r : LdapRequest) : Prop :=
  data.value.get "user" = some r.user ∧ data.value.get "password" = some r.password ∧
    ∃ login ∈ st.logins, login.socket = data.socket ∧ login.connection = st.drops data.socket ∧
      login.user = r.user ∧ login.password = r.password

/-- The client that has sent the switch is still connected, with the role that it had. -/
def Switched (st : State) (switch : Switch) : Prop :=
  switch ∈ st.switches ∧ permission_granted switch.permission switch.requested = true ∧
    switch.connection = st.drops switch.socket ∧ (st.connections switch.socket).role = some switch.role

/-- The stored request is the switch by which the mixer was asked to join, and the mixer
    works for the session of the client. -/
def SwitchOf (st : State) (data : Pending) (mixer : Socket) (session : Session) (loop : String) : Prop :=
  data.socket ≠ 0 ∧ st.sessions session = data.socket ∧ st.users session = mixer ∧
    st.slots mixer = some (some session) ∧
    ∃ switch, Switched st switch ∧ switch.socket = data.socket ∧ switch.session = session ∧ switch.loop = loop ∧
      switch.requested = permission_from_string (data.value.get "state")

/-- A request that fits what is under way with its id. -/
structure Fits (st : State) (uuid : Uuid) (data : Pending) : Prop where
  key : ∀ id, data.value.uuid = some id → uuid = .client id
  login : ∀ r ∈ st.ldap_requests, r.uuid = uuid → LoginOf st data r
  switch : ∀ r ∈ st.mixer_requests, r.uuid = uuid → ∀ session loop, r.command = .join session loop →
    SwitchOf st data r.mixer session loop

/-- A switch that counts has asked for at least so much. -/
def Granted (grants : Switch → Prop) (st : State) (permission : Permission) (session : Session) (loop : String) :
    Prop :=
  ∃ switch ∈ st.switches, grants switch ∧ switch.session = session ∧ switch.loop = loop ∧
    permission_granted switch.requested permission = true

theorem Granted.mono {grants : Switch → Prop} {st st' : State} {permission : Permission} {session : Session}
    {loop : String} (h : Granted grants st permission session loop) (hswitches : st.switches ⊆ st'.switches) :
    Granted grants st' permission session loop := by
  obtain ⟨switch, hmem, hgrants⟩ := h
  exact ⟨switch, hswitches hmem, hgrants⟩

/-- What a handler does, one thing at a time. It acts on an id, under which it may
    store a request and send a message if none is under way; where it lets a session
    hear or speak, this has to be granted. -/
inductive Move (uuid : Uuid) (grants : Switch → Prop) (st : State) : State → Prop
  | keep (st' : State) (h : Keeps st st') : Move uuid grants st st'
  | unset (other : Uuid) : Move uuid grants st (st.async_unset other)
  | set (data : Pending) (hfits : Fits st uuid data) : Move uuid grants st (st.async_set uuid data)
  | talk (session : Session) (loop : String) (h : Granted grants st .send session loop) :
      Move uuid grants st (st.send (.proxy uuid (.talk session true loop)))
  | join (session : Session) (loop : String) (h : Granted grants st .recv session loop) (hnew : uuid ∉ st.underway)
      (hpending : ∀ data, (uuid, data) ∉ st.async) : Move uuid grants st (st.join_loop uuid session loop).2
  | bind (r : LdapRequest) (huuid : r.uuid = uuid) (hnew : uuid ∉ st.underway)
      (hlogin : ∀ data, (uuid, data) ∈ st.async → LoginOf st data r) :
      Move uuid grants st { st with ldap_requests := st.ldap_requests ++ [r] }
  | message (session : Session) (command : MixerCommand) (hplain : command.is_plain = true)
      (hnew : uuid ∉ st.underway) :
      Move uuid grants st (st.send_message command.callback uuid session command).2
  | proxy (r : ProxyRequest) (huuid : r.uuid = uuid) (hnew : uuid ∉ st.underway) :
      Move uuid grants st { st with proxy_requests := st.proxy_requests ++ [r] }
  | module (r : ModuleRequest) (huuid : r.uuid = uuid) (hnew : uuid ∉ st.underway) :
      Move uuid grants st { st with module_requests := st.module_requests ++ [r] }
  | acquire (session : Session) (mixer : Socket) (hfree : st.slots mixer = some none)
      (hnew : uuid ∉ st.underway) (huntouched : st.Untouched session) (hknown : session ∈ st.session_ids) :
      Move uuid grants st (((st.acquire_user session mixer).register_callback uuid .acquired).send_mixer mixer uuid
        (.acquire session))
  | release (session : Session) (hsession : st.sessions session = 0)
      (hheld : st.users session = 0 ∨ st.slots (st.users session) = some (some session))
      (hknown : session ∈ st.session_ids) :
      Move uuid grants st (release_mixer false st.new_uuid session st.take_uuid)
  | open_session (session : Session) (socket : Socket) (hnew : new_session st.view session)
      (huntouched : st.Untouched session) :
      Move uuid grants st ((st.open_session session socket).set_record socket
        { st.connections socket with session := some session })
  | drop_with (frontend : Bool) (socket : Socket) : Move uuid grants st (drop_with_mixer false frontend socket st)
  | drop_without (frontend : Bool) (socket : Socket) : Move uuid grants st (st.drop_without_mixer false frontend socket)
  | close (mixer : Socket) : Move uuid grants st (close_mixer mixer st)

/-- The moves that lead from one state to another one. -/
def Moves (uuid : Uuid) (grants : Switch → Prop) : State → State → Prop :=
  Relation.ReflTransGen (Move uuid grants)

theorem Moves.invariant {uuid : Uuid} {grants : Switch → Prop} (P : State → Prop)
    (hmove : ∀ st st', P st → Move uuid grants st st' → P st') {st st' : State} (hst : P st)
    (h : Moves uuid grants st st') : P st' := by
  induction h with
  | refl => exact hst
  | tail _ hlast ih => exact hmove _ _ ih hlast

section

variable {uuid : Uuid} {grants : Switch → Prop} {st₀ st st' : State}

section

variable (h : Moves uuid grants st₀ st)

include h

theorem Moves.tail (hmove : Move uuid grants st st') : Moves uuid grants st₀ st' :=
  Relation.ReflTransGen.tail h hmove

theorem Moves.keep (hkeeps : Keeps st st') : Moves uuid grants st₀ st' :=
  h.tail (.keep st' hkeeps)

theorem Moves.respond (socket : Socket) (request : Message) (response : Response) :
    Moves uuid grants st₀ (st.respond socket request response) :=
  h.keep (.respond st socket request response)

theorem Moves.unset (other : Uuid) : Moves uuid grants st₀ (st.async_unset other) :=
  h.tail (.unset other)

end

theorem Fits.of_new {data : Pending} (hnew : uuid ∉ st.underway)
    (hkey : ∀ id, data.value.uuid = some id → uuid = .client id) : Fits st uuid data := by
  refine ⟨hkey, fun r hr huuid => absurd ?_ hnew, fun r hr huuid => absurd ?_ hnew⟩
  · simp only [State.underway, List.mem_append, List.mem_map]
    exact Or.inr (Or.inr (Or.inl ⟨r, hr, huuid⟩))
  simp only [State.underway, List.mem_append, List.mem_map]
  exact Or.inl ⟨r, hr, huuid⟩

section

variable (h : Moves uuid grants st₀ st)

include h

theorem Moves.set {data : Pending} (hfits : Fits st uuid data) :
    Moves uuid grants st₀ (st.async_set uuid data) :=
  h.tail (.set data hfits)

theorem Moves.drop_connection (socket : Socket) :
    Moves uuid grants st₀ (drop_connection socket st) :=
  h.tail (.drop_with true socket)

theorem Moves.leave_loop (hnew : uuid ∉ st.underway) (session : Session)
    (loop : String) : Moves uuid grants st₀ (st.leave_loop uuid session loop).2 :=
  h.tail (.message session (.leave session loop) rfl hnew)

theorem Moves.send_proxy (hnew : uuid ∉ st.underway) (outside : Outside)
    (asker : Socket) {command : ProxyCommand} (hcommand : (Output.proxy uuid command).is_quiet = true) :
    Moves uuid grants st₀ (st.send_proxy outside asker uuid command).2 := by
  unfold State.send_proxy
  split
  · exact (h.tail (.proxy ⟨uuid, command, asker⟩ rfl hnew)).keep (.send _ hcommand)
  · exact h

end

variable {loop : String} {session : Session}

theorem Moves.send_talk (h : Moves uuid grants st₀ st) (hnew : uuid ∉ st.underway) (outside : Outside)
    (asker : Socket) (htalk : Granted grants st .send session loop) :
    Moves uuid grants st₀ (st.send_proxy outside asker uuid (.talk session true loop)).2 := by
  unfold State.send_proxy
  split
  · exact (h.tail (.proxy ⟨uuid, .talk session true loop, asker⟩ rfl hnew)).tail (.talk session loop htalk)
  · exact h

variable {error : Option Error}

section

variable (h : Moves uuid grants st₀ st)

include h

theorem Moves.cb_backend_mixer_acquired
    (hheld : st.users session = 0 ∨ st.slots (st.users session) = some (some session))
    (hknown : session ∈ st.session_ids) :
    Moves uuid grants st₀ (cb_backend_mixer_acquired uuid session error st) := by
  simp only [vocs.cb_backend_mixer_acquired]
  split
  · rename_i hzero
    exact h.tail (.release session hzero hheld hknown)
  have hunset := h.unset uuid
  split
  · exact hunset.tail (.drop_without true _)
  split
  · exact (hunset.keep (.send _ rfl)).keep (.set_record _ rfl (fun _ => rfl))
  · exact hunset.keep (.set_record _ rfl (fun _ => rfl))

theorem Moves.cb_backend_mixer_released (session : Session) (error : Option Error) :
    Moves uuid grants st₀ (cb_backend_mixer_released false session error st) := by
  simp only [vocs.cb_backend_mixer_released]
  split
  · exact h
  split
  · exact h
  · exact h.tail (.drop_without true _)

theorem Moves.acquire_mixer (hnew : uuid ∉ st.underway) (config : Config) (huntouched : st.Untouched session) (hknown : session ∈ st.session_ids) :
    Moves uuid grants st₀ (acquire_mixer config uuid session st) := by
  unfold vocs.acquire_mixer
  split
  · exact h.cb_backend_mixer_acquired (Or.inl huntouched.1) hknown
  rename_i mixer hmixer
  have hfree : st.slots mixer = some none := by
    unfold State.free_mixer at hmixer
    simpa using List.find?_some hmixer
  exact h.tail (.acquire session mixer hfree hnew huntouched hknown)

theorem Moves.finish_join (hnew : uuid ∉ st.underway) {outside : Outside} {socket : Socket} {orig : Message}
    (hkey : ∀ id, orig.uuid = some id → uuid = .client id)
    (htalk : permission_from_string (orig.get "state") = .send → Granted grants st .send session loop)
    (hjoin : finish_join outside uuid session loop socket orig (st.connections socket) st = some st') :
    Moves uuid grants st₀ st' := by
  simp only [vocs.finish_join] at hjoin
  split at hjoin
  · split at hjoin
    · simp at hjoin
    rename_i hsend
    have hrequest : permission_from_string (orig.get "state") = .send := by simpa using hsend
    have hset : Moves uuid grants st₀ (st.async_set uuid ⟨socket, orig⟩) := h.set (.of_new hnew hkey)
    have hnew' : uuid ∉ (st.async_set uuid ⟨socket, orig⟩).underway := hnew
    split at hjoin
    · simp at hjoin
    · rename_i next hperform
      cases hjoin
      have hcases := perform_switch_loop_request_cases hperform
      rw [hrequest] at hcases
      simp only [reduceCtorEq, false_and, false_or, ne_eq, true_and, not_true_eq_false, and_false, or_false] at hcases
      obtain hfailed | hsent := hcases
      · have hnext : next = st.async_set uuid ⟨socket, orig⟩ := congrArg Prod.snd hfailed
        rw [hnext]
        exact hset.drop_connection socket
      have hnext : next = ((st.async_set uuid ⟨socket, orig⟩).send_proxy outside socket uuid
          (.talk session true loop)).2 := congrArg Prod.snd hsent
      rw [hnext]
      exact (hset.send_talk hnew' outside socket (htalk hrequest)).drop_connection socket
    rename_i next hperform
    cases hjoin
    have hcases := perform_switch_loop_request_cases hperform
    rw [hrequest] at hcases
    simp only [reduceCtorEq, false_and, false_or, ne_eq, true_and, not_true_eq_false, and_false, or_false,
      Prod.mk.injEq, Bool.true_eq_false] at hcases
    have hnext : next = ((st.async_set uuid ⟨socket, orig⟩).send_proxy outside socket uuid
        (.talk session true loop)).2 := congrArg Prod.snd hcases
    have hsent := hset.send_talk hnew' outside socket (htalk hrequest)
    have hconnections : next.connections = st.connections := by
      rw [hnext]
      exact (SameClients.send_proxy _ outside socket uuid _).connections
    rw [← hnext] at hsent
    rw [← hconnections]
    exact hsent.keep (.set_record _ rfl (fun _ => rfl))
  · have hbroadcast := SameClients.send_switch_loop_user_broadcast st socket loop .recv
    have hsent := h.keep (.send_switch_loop_user_broadcast st socket loop .recv)
    split at hjoin
    · cases hjoin
      have hresponded := hsent.respond socket orig
        (.loop_state ((st.get_participants loop).getD []) .recv loop)
      rw [← hbroadcast.connections]
      exact hresponded.keep (.set_record _ rfl (fun _ => rfl))
    cases hjoin
    exact hsent.drop_connection socket

theorem Moves.cb_backend_mixer_join (hnew : uuid ∉ st.underway) {outside : Outside}
    (hkeyed : ∀ data, st.pending uuid = some data → ∀ id, data.value.uuid = some id → uuid = .client id)
    (htalk : ∀ data, st.pending uuid = some data →
      permission_from_string (data.value.get "state") = .send → Granted grants st .send session loop)
    (hjoin : cb_backend_mixer_join outside uuid session loop error st = some st') : Moves uuid grants st₀ st' := by
  have hunset := h.unset uuid
  simp only [vocs.cb_backend_mixer_join] at hjoin
  split at hjoin
  · cases hjoin
    exact h.leave_loop hnew session loop
  rename_i orig hpending
  split at hjoin
  · cases hjoin
    exact hunset.respond _ _ _
  split at hjoin
  · rename_i user role huser hrole
    split at hjoin
    · cases hjoin
      exact (hunset.keep (.open_loop _ loop)).drop_connection _
    have hkeeps := Keeps.enter_loop (st.async_unset uuid) loop (st.sessions session)
      ⟨(st.connections (st.sessions session)).client, user, role⟩
    refine (hunset.keep hkeeps).finish_join ?_ (hkeyed _ hpending) (htalk _ hpending) hjoin
    rw [hkeeps.underway]
    exact hnew
  cases hjoin
  exact hunset.drop_connection _

theorem Moves.exit_loop (outside : Outside) (loop : String) (socket : Socket)
    (orig : Message) :
    Moves uuid grants st₀ (exit_loop outside loop socket orig (st.connections socket) st) := by
  have hleft := (h.keep (.drop_participant st loop socket)).keep
    (.send_switch_loop_broadcast _ socket loop .none)
  have hbroadcast := SameClients.send_switch_loop_user_broadcast
    ((st.drop_participant loop socket).send_switch_loop_broadcast socket loop .none) socket loop .none
  have hsent := hleft.keep (.send_switch_loop_user_broadcast _ socket loop .none)
  have hconnections : ((st.drop_participant loop socket).send_switch_loop_broadcast socket loop
      .none).connections = st.connections := rfl
  simp only [vocs.exit_loop]
  split
  · rw [← hconnections, ← hbroadcast.connections]
    exact (hsent.respond socket orig _).keep (.set_record _ rfl (fun _ => rfl))
  · exact hsent.drop_connection socket

theorem Moves.cb_backend_mixer_leave {outside : Outside}
    (hleave : cb_backend_mixer_leave outside uuid session loop error st = some st') :
    Moves uuid grants st₀ st' := by
  have hunset := h.unset uuid
  simp only [vocs.cb_backend_mixer_leave] at hleave
  split at hleave
  · cases hleave
    exact hunset
  split at hleave
  · cases hleave
    exact hunset.drop_connection _
  · cases hleave
    exact hunset.respond _ _ _
  split at hleave
  · split at hleave
    · simp at hleave
    cases hleave
    exact (hunset.keep (.set_broadcast _ loop _ .unset)).exit_loop outside loop _ _
  cases hleave
  exact hunset.drop_connection _

theorem Moves.cb_backend_mixer_volume (session : Session) (loop : String)
    (error : Option Error) : Moves uuid grants st₀ (cb_backend_mixer_volume uuid session loop error st) := by
  have hunset := h.unset uuid
  simp only [vocs.cb_backend_mixer_volume]
  split
  · exact hunset
  split
  · exact hunset.drop_connection _
  · exact hunset.respond _ _ _
  · exact hunset.respond _ _ _

theorem Moves.cb_backend_mixer_state (content : Json) :
    Moves uuid grants st₀ (cb_backend_mixer_state uuid content st) := by
  have hunset := h.unset uuid
  simp only [vocs.cb_backend_mixer_state]
  split
  · split
    · exact hunset.respond _ _ _
    · exact hunset
  · exact hunset

theorem Moves.finish_talk (hnew : uuid ∉ st.underway) {outside : Outside} {socket : Socket} {orig : Message} {current : Permission}
    (hkey : ∀ id, orig.uuid = some id → uuid = .client id)
    (htalk : finish_talk outside uuid session loop socket orig current st = some st') :
    Moves uuid grants st₀ st' := by
  have hset : Moves uuid grants st₀ (st.async_set uuid ⟨socket, orig⟩) := h.set (.of_new hnew hkey)
  have hleave := hset.leave_loop hnew session loop
  have hsent := h.keep (.send_switch_loop_user_broadcast st socket loop current)
  simp only [vocs.finish_talk] at htalk
  split at htalk
  · split at htalk
    · rename_i heq
      cases htalk
      rwa [heq] at hleave
    rename_i heq
    cases htalk
    rw [heq] at hleave
    exact hleave.drop_connection socket
  split at htalk
  · simp at htalk
  split at htalk
  · cases htalk
    exact hsent.respond _ _ _
  cases htalk
  exact hsent.drop_connection socket

theorem Moves.cb_frontend_talk (hnew : uuid ∉ st.underway) {outside : Outside} {on : Bool}
    (hkeyed : ∀ data, st.pending uuid = some data → ∀ id, data.value.uuid = some id → uuid = .client id)
    (htalk : cb_frontend_talk outside uuid session loop on error st = some st') : Moves uuid grants st₀ st' := by
  have hunset := h.unset uuid
  simp only [vocs.cb_frontend_talk] at htalk
  split at htalk
  · cases htalk
    exact h.drop_connection 0
  rename_i socket orig hpending
  split at htalk
  · cases htalk
    exact hunset.respond _ _ _
  split at htalk
  · have hkeeps : Keeps (st.async_unset uuid) ((st.async_unset uuid).set_record socket
        ((st.connections socket).set_loop_state loop (if on then .send else .recv))) :=
      .set_record _ rfl (fun _ => rfl)
    refine (hunset.keep hkeeps).finish_talk ?_ (hkeyed _ hpending) htalk
    rw [hkeeps.underway]
    exact hnew
  cases htalk
  exact hunset.drop_connection _

theorem Moves.cb_frontend_session_created (hnew : uuid ∉ st.underway)
    (config : Config) (outside : Outside) (r : ProxyResult)
    (hsession : r.error = none → new_session st.view r.session ∧ st.Untouched r.session) :
    Moves uuid grants st₀ (cb_frontend_session_created config outside uuid r st) := by
  have hunset := h.unset uuid
  unfold vocs.cb_frontend_session_created
  split
  · exact hunset.keep (.drop_ice_session _ _)
  · exact hunset
  · exact hunset.respond _ _ _
  rename_i socket orig hpending herror
  obtain ⟨hfresh, huntouched⟩ := hsession herror
  have hopened := hunset.tail (.open_session r.session socket hfresh huntouched)
  dsimp only
  split
  · rename_i hzero
    rw [State.set_record, if_pos hzero] at hopened
    exact hopened.keep (.drop_ice_session _ _)
  rename_i hsocket
  simp only [State.set_record, if_neg hsocket] at hopened ⊢
  have hacquire := hopened.acquire_mixer hnew config huntouched hfresh.2
  split
  · exact hacquire.respond _ _ _
  · exact hacquire.keep (.drop_ice_session _ _)

theorem Moves.drop_with (frontend : Bool) (socket : Socket) :
    Moves uuid grants st₀ (drop_with_mixer false frontend socket st) :=
  h.tail (.drop_with frontend socket)

theorem Moves.cb_frontend_session_completed (session : Session) (success : Bool) :
    Moves uuid grants st₀ (cb_frontend_session_completed session success st) := by
  simp only [vocs.cb_frontend_session_completed]
  split
  · exact h
  split
  · split
    · exact (h.keep (.send _ rfl)).keep (.set_record _ rfl (fun _ => rfl))
    · exact h.keep (.set_record _ rfl (fun _ => rfl))
  · exact h.drop_with false _

theorem Moves.cb_frontend_session_update (error : Option Error) :
    Moves uuid grants st₀ (cb_frontend_session_update uuid error st) := by
  have hunset := h.unset uuid
  unfold vocs.cb_frontend_session_update
  split
  · exact hunset.respond _ _ _
  · exact hunset.respond _ _ _
  · exact hunset.keep (.send _ rfl)
  · exact hunset

theorem Moves.cb_frontend_candidate (session : Session) (info : CandidateInfo)
    (error : Option Error) : Moves uuid grants st₀ (cb_frontend_candidate uuid session info error st) := by
  have hunset := h.unset uuid
  unfold vocs.cb_frontend_candidate
  split
  · exact hunset.respond _ _ _
  · exact hunset.respond _ _ _
  · exact hunset.keep (.send _ rfl)
  · exact hunset

theorem Moves.cb_frontend_end_of_candidates (session : Session)
    (error : Option Error) : Moves uuid grants st₀ (cb_frontend_end_of_candidates uuid session error st) := by
  have hunset := h.unset uuid
  unfold vocs.cb_frontend_end_of_candidates
  split
  · exact hunset.respond _ _ _
  · exact hunset.respond _ _ _
  · exact hunset

theorem Moves.cb_frontend_session_state (hnew : uuid ∉ st.underway)
    (hkeyed : ∀ data, st.pending uuid = some data → ∀ id, data.value.uuid = some id → uuid = .client id)
    (session : Session) (r : ProxyResult) : Moves uuid grants st₀ (cb_frontend_session_state uuid session r st) := by
  have hunset := h.unset uuid
  simp only [vocs.cb_frontend_session_state]
  split
  · exact hunset
  rename_i socket orig hpending
  split
  · exact hunset
  rename_i id hid
  split
  · exact hunset.respond _ _ _
  have huuid : uuid = .client id := hkeyed _ hpending id hid
  subst huuid
  have hset : Moves (.client id) grants st₀ ((st.async_unset (.client id)).async_set (.client id) ⟨socket,
      { uuid := some id, client := orig.client, response := some (.object [("frontend", r.content)]) }⟩) := by
    refine hunset.set (.of_new hnew ?_)
    simp
  exact hset.tail (.message session (.state session) rfl hnew)

theorem Moves.cb_ldap_authentication (outside : Outside) (granted : Bool) :
    Moves uuid grants st₀ (cb_ldap_authentication outside uuid granted st) := by
  have hunset := h.unset uuid
  simp only [vocs.cb_ldap_authentication]
  split
  · exact h
  split
  · split
    · exact hunset
    · exact hunset.keep (.log_in _ outside _ _ _)
  · exact (hunset.respond _ _ _).drop_connection _

theorem Moves.module_response {r : ModuleRequest} (huuid : r.uuid = uuid)
    (error : Option Error) (content : Json) : Moves uuid grants st₀ (module_response r error content st) := by
  have hunset := h.unset uuid
  simp only [vocs.module_response, huuid]
  split
  · exact h
  split
  · exact hunset.respond _ _ _
  · split <;> exact hunset.respond _ _ _

end

end

end openvocs.vocs
