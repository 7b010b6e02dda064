import Openvocs.Vocs.Callbacks

namespace openvocs.vocs

open vocs_db (Permission)
open State

/-- What the proxy answers. The session with its media offer is that of a
    successful `create_session`, the content that of a `session_state`. -/
structure ProxyResult where
  error : Option Error := none
  session : Session := ""
  type : String := ""
  sdp : String := ""
  content : Json := .null

def cb_frontend_session_dropped (session : Session) (st : State) : State :=
  drop_with_mixer false false (st.sessions session) st

/-- The label `drop_ice_session`. -/
def drop_ice_session (session : Session) (st : State) : State :=
  st.take_uuid.drop_session st.new_uuid session

def cb_frontend_session_created (config : Config) (outside : Outside) (uuid : Uuid) (r : ProxyResult)
    (st : State) : State :=
  match st.pending uuid, r.error with
  | none, none => drop_ice_session r.session (st.async_unset uuid)
  | none, some _ => st.async_unset uuid
  | some ⟨socket, orig⟩, some e => (st.async_unset uuid).respond socket orig (.error e)
  | some ⟨socket, orig⟩, none =>
    let st := st.async_unset uuid
    let data := st.connections socket
    let st := st.open_session r.session socket
    if socket = 0 then drop_ice_session r.session st
    else
      let st := st.set_record socket { data with session := some r.session }
      let st := acquire_mixer config uuid r.session st
      if outside.delivered then st.respond socket orig (.media r.type r.sdp)
      else drop_ice_session r.session st

def cb_frontend_session_completed (session : Session) (success : Bool) (st : State) : State :=
  let socket := st.sessions session
  let data := st.connections socket
  if success && data.ice then st
  else if success then
    let st := if data.media_ready then st.send (.notice socket .media_ready) else st
    st.set_record socket { data with ice := true }
  else drop_with_mixer false false socket st

def cb_frontend_session_update (uuid : Uuid) (error : Option Error) (st : State) : State :=
  match st.pending uuid, error with
  | some ⟨socket, orig⟩, none => (st.async_unset uuid).respond socket orig .success
  | some ⟨socket, orig⟩, some e => (st.async_unset uuid).respond socket orig (.error e)
  | none, none => (st.async_unset uuid).send (.notice 0 .media)
  | none, some _ => st.async_unset uuid

/-- `cb_frontend_session_state`. The response waits for the state of the mixer. -/
def cb_frontend_session_state (uuid : Uuid) (session : Session) (r : ProxyResult) (st : State) : State :=
  let pending := st.pending uuid
  let st := st.async_unset uuid
  match pending with
  | none => st
  | some ⟨socket, orig⟩ =>
    match orig.uuid with
    | none => st
    | some id =>
      match r.error with
      | some e => st.respond socket orig (.error e)
      | none =>
        let out : Message :=
          { uuid := some id, client := orig.client, response := some (.object [("frontend", r.content)]) }
        ((st.async_set (.client id) ⟨socket, out⟩).get_session_state (.client id) session).2

/-- `cb_frontend_candidate` for a response. -/
def cb_frontend_candidate (uuid : Uuid) (session : Session) (info : CandidateInfo) (error : Option Error)
    (st : State) : State :=
  let socket := st.sessions session
  match st.pending uuid, error with
  | some ⟨_, orig⟩, none => (st.async_unset uuid).respond socket orig (.candidate info)
  | some ⟨_, orig⟩, some e => (st.async_unset uuid).respond socket orig (.error e)
  | none, none => (st.async_unset uuid).send (.notice socket (.candidate info))
  | none, some _ => st.async_unset uuid

/-- `cb_frontend_end_of_candidates` for a response, which has no candidate in it. -/
def cb_frontend_end_of_candidates (uuid : Uuid) (session : Session) (error : Option Error) (st : State) :
    State :=
  let socket := st.sessions session
  match st.pending uuid, error with
  | some ⟨_, orig⟩, none => (st.async_unset uuid).respond socket orig .success
  | some ⟨_, orig⟩, some e => (st.async_unset uuid).respond socket orig (.error e)
  | none, _ => st.async_unset uuid

/-- The end of `cb_frontend_talk`: a client that wants no state goes on to leave
    the loop, any other one is done. -/
def finish_talk (outside : Outside) (uuid : Uuid) (session : Session) (loop : String) (socket : Socket)
    (orig : Message) (current : Permission) (st : State) : Option State :=
  if permission_from_string (orig.get "state") = .none then
    match (st.async_set uuid ⟨socket, orig⟩).leave_loop uuid session loop with
    | (true, st) => some st
    | (false, st) => some (drop_connection socket st)
  else
    match st.get_participants loop with
    -- OV_ASSERT(l)
    | none => none
    | some participants =>
      let st := st.send_switch_loop_user_broadcast socket loop current
      if outside.delivered then some (st.respond socket orig (.loop_state participants current loop))
      else some (drop_connection socket st)

def cb_frontend_talk (outside : Outside) (uuid : Uuid) (session : Session) (loop : String) (on : Bool)
    (error : Option Error) (st : State) : Option State :=
  match st.pending uuid with
  | none => some (drop_connection 0 st)
  | some ⟨socket, orig⟩ =>
    let st := st.async_unset uuid
    match error with
    | some e => some (st.respond socket orig (.error e))
    | none =>
      let current : Permission := if on then .send else .recv
      let data := (st.connections socket).set_loop_state loop current
      match data.user, data.role with
      | some _, some _ => finish_talk outside uuid session loop socket orig current (st.set_record socket data)
      | _, _ => some (drop_connection socket st)

/-- `cb_event_ice_session_create_response` to `cb_event_talk_response`: the answer
    of a proxy. The ids of sessions are new. -/
def proxy_response (config : Config) (outside : Outside) (r : ProxyRequest) (result : ProxyResult)
    (st : State) : Option State :=
  match r.command with
  | .create_session =>
    if result.error.isNone then
      if result.session = "" ∨ result.session ∈ st.session_ids then none
      else
        let st : State := { st with
          session_ids := st.session_ids ++ [result.session]
          created_for := Function.update st.created_for result.session r.asker }
        some (cb_frontend_session_created config outside r.uuid result st)
    else some (cb_frontend_session_created config outside r.uuid result st)
  | .update_session .. => some (cb_frontend_session_update r.uuid result.error st)
  | .drop_session session => some (cb_frontend_session_dropped session st)
  | .candidate session info => some (cb_frontend_candidate r.uuid session info result.error st)
  | .end_of_candidates session => some (cb_frontend_end_of_candidates r.uuid session result.error st)
  | .talk session on loop => cb_frontend_talk outside r.uuid session loop on result.error st
  | .session_state session => some (cb_frontend_session_state r.uuid session result st)

/-- `ov_event_session_init`, which needs the id of the client. -/
def event_session_init (token : String) (client : Option String) (user : String) (st : State) :
    Option String × State :=
  match client with
  | none => (none, st)
  | some client =>
    (some token, { st with user_sessions := Function.update st.user_sessions client (some ⟨token, user⟩) })

/-- Enters the user of a client in its connection data and in the broadcasts. -/
def enter_user (socket : Socket) (client : Option String) (user : String) (st : State) : State :=
  let st := (st.set_broadcast user socket .user).set_broadcast "system_broadcast" socket .system
  st.set_record socket { st.connections socket with client, user := some user }

/-- The common end of `client_login` and `cb_ldap_authentication`. The flag says
    whether there is a session id to answer with. -/
def log_in (outside : Outside) (socket : Socket) (msg : Message) (user : String) (st : State) :
    Bool × State :=
  match event_session_init outside.token msg.client user st with
  | (none, st) => (false, enter_user socket msg.client user st)
  | (some session, st) =>
    let st := enter_user socket msg.client user st
    (true, if outside.delivered then st.respond socket msg (.login user session) else st)

def cb_ldap_authentication (outside : Outside) (uuid : Uuid) (granted : Bool) (st : State) : State :=
  match st.pending uuid with
  | none => st
  | some ⟨socket, orig⟩ =>
    let st := st.async_unset uuid
    if granted then
      match orig.get "user" with
      | none => st
      | some user => (log_in outside socket orig user st).2
    else drop_connection socket (st.respond socket orig (.error Error.auth))

/-- `handle_loop_authenticate_request`. Without an entry in the store a null
    pointer is read. -/
def ldap_response (outside : Outside) (r : LdapRequest) (granted : Bool) (st : State) : Option State :=
  if r.uuid ∈ st.ldap_store then
    let st : State := { st with
      ldap_store := st.ldap_store.filter (fun uuid => decide (uuid ≠ r.uuid))
      binds := if granted then st.binds ++ [(r.user, r.password)] else st.binds }
    some (cb_ldap_authentication outside r.uuid granted st)
  else none

/-- `cb_sip_list_calls`, `cb_sip_list_permissions`, `cb_sip_get_status`,
    `cb_start_record` and `cb_stop_record`. -/
def module_response (r : ModuleRequest) (error : Option Error) (content : Json) (st : State) : State :=
  match st.pending r.uuid with
  | none => st
  | some ⟨socket, orig⟩ =>
    let st := st.async_unset r.uuid
    match error with
    | some e => st.respond socket orig (.error e)
    | none =>
      match r.call with
      | .start_record | .stop_record => st.respond socket orig .success
      | .list_calls | .list_permissions | .get_status => st.respond socket orig (.content content)

/-- `async_timedout`, which runs while the async store is locked. -/
def async_timedout (data : Pending) (st : State) : State :=
  drop_with_mixer true true data.socket (st.respond data.socket data.value (.error Error.timeout))

/-- `delete_keys_in_dict` for the ids that `invalidate_run` has collected. -/
def invalidate : List Uuid → State → State
  | [], st => st
  | uuid :: uuids, st =>
    match st.pending uuid with
    | none => invalidate uuids st
    | some data => invalidate uuids (async_timedout data (st.async_unset uuid))

end openvocs.vocs
