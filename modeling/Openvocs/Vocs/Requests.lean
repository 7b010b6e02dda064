import Openvocs.Vocs.Frontend

namespace openvocs.vocs

open vocs_db (Permission)
open State

/-- What a handler returns: `false` closes the socket. The outer `Option` is
    `none` when its behaviour is undefined. -/
abbrev Handled := Option (Bool × State)

/-- Answers with an error and lets the socket be closed. -/
def refuse (socket : Socket) (msg : Message) (e : Error) (st : State) : Handled :=
  some (false, st.respond socket msg (.error e))

/-- Keeps the request in the async store until its answer comes. -/
def await (socket : Socket) (uuid : String) (msg : Message) (st : State) : Handled :=
  some (true, st.async_set (.client uuid) ⟨socket, msg⟩)

/-- Goes on after a message of which the response is awaited; without it the
    request is refused. -/
def await_sent (sent : Bool × State) (socket : Socket) (uuid : String) (msg : Message) : Handled :=
  match sent with
  | (true, st) => await socket uuid msg st
  | (false, st) => refuse socket msg Error.processing_error st

def client_logout (socket : Socket) (msg : Message) (st : State) : Handled :=
  let client := (st.connections socket).client
  let st := st.respond socket msg .success
  let st : State := match client with
    | none => st
    | some client => { st with user_sessions := Function.update st.user_sessions client none }
  some (true, drop_connection socket st)

def event_session_verify (client : Option String) (user id : String) (st : State) : Bool :=
  match client.bind st.user_sessions with
  | none => false
  | some session => decide (session.id = id ∧ session.user = user)

/-- The label `login_session_user` of `client_login`. -/
def login_session_user (outside : Outside) (socket : Socket) (msg : Message) (user : String) (st : State) :
    Handled :=
  match log_in outside socket msg user st with
  | (true, st) => some (outside.delivered, st)
  | (false, st) => some (false, st)

def client_login (config : Config) (outside : Outside) (socket : Socket) (msg : Message) (st : State) :
    Handled :=
  if (st.connections socket).user.isSome then refuse socket msg Error.already_authenticated st
  else
    match msg.uuid with
    | none => some (false, st)
    | some uuid =>
      match msg.get "user", msg.get "password" with
      | some user, some password =>
        let login := fun accepted => (⟨socket, st.drops socket, user, password, accepted⟩ : Login)
        if event_session_verify msg.client user password st then
          login_session_user outside socket msg user { st with logins := st.logins ++ [login true] }
        else if config.ldap then
          let st := st.async_set (.client uuid) ⟨socket, msg⟩
          some (true, { st with
            logins := st.logins ++ [login false]
            ldap_requests := st.ldap_requests ++ [⟨.client uuid, user, password⟩]
            ldap_store := .client uuid :: st.ldap_store.filter (fun other => decide (other ≠ .client uuid)) })
        else
          match vocs_db.authenticate config.is_valid user password st.db with
          | none => none
          | some false => refuse socket msg Error.auth st
          | some true =>
            login_session_user outside socket msg user { st with logins := st.logins ++ [login true] }
      | _, _ => refuse socket msg Error.parameter_error st

def update_client_login (socket : Socket) (msg : Message) (st : State) : Handled :=
  match msg.client, msg.get "session", msg.get "user" with
  | some client, some session, some user =>
    if event_session_verify (some client) user session st then
      some (true, st.respond socket msg (.login user session))
    else refuse socket msg Error.processing_error st
  | _, _, _ => refuse socket msg Error.parameter_error st

def client_media (outside : Outside) (socket : Socket) (msg : Message) (st : State) : Handled :=
  let data := st.connections socket
  if data.user.isNone then some (false, st)
  else
    match msg.uuid with
    | none => refuse socket msg Error.parameter_error st
    | some uuid =>
      match msg.get "type" with
      | some "request" =>
        await_sent (st.send_proxy outside socket (.client uuid) .create_session) socket uuid msg
      | some "offer" | some "answer" =>
        match msg.get "sdp", data.session with
        | none, _ => refuse socket msg Error.parameter_error st
        | some _, none => refuse socket msg Error.session_unknown st
        | some sdp, some session =>
          let command := .update_session session ((msg.get "type").getD "") sdp
          await_sent (st.send_proxy outside socket (.client uuid) command) socket uuid msg
      | _ => refuse socket msg Error.parameter_error st

/-- `ov_ice_candidate_info_from_json` of the parameter. -/
def candidate_info (msg : Message) : Option CandidateInfo :=
  match msg.get "candidate", (msg.get "ufrag").or (msg.get "user") with
  | some candidate, some ufrag => some ⟨some candidate, ufrag⟩
  | _, _ => none

def client_candidate (outside : Outside) (socket : Socket) (msg : Message) (st : State) : Handled :=
  let data := st.connections socket
  if data.user.isNone then some (false, st)
  else
    match msg.uuid, candidate_info msg, data.session with
    | some uuid, some info, some session =>
      await_sent (st.send_proxy outside socket (.client uuid) (.candidate session info)) socket uuid msg
    | some _, some _, none => refuse socket msg Error.session_unknown st
    | _, _, _ => refuse socket msg Error.parameter_error st

def client_end_of_candidates (outside : Outside) (socket : Socket) (msg : Message) (st : State) :
    Handled :=
  let data := st.connections socket
  if data.user.isNone then some (false, st)
  else
    match msg.uuid, data.session with
    | none, _ => refuse socket msg Error.parameter_error st
    | some _, none => refuse socket msg Error.session_unknown st
    | some uuid, some session =>
      await_sent (st.send_proxy outside socket (.client uuid) (.end_of_candidates session)) socket uuid msg

def client_authorize (outside : Outside) (socket : Socket) (msg : Message) (st : State) : Handled :=
  let data := st.connections socket
  match data.user, data.role with
  | none, _ => some (false, st)
  | some _, some _ => refuse socket msg Error.change_role st
  | some user, none =>
    match msg.get "role" with
    | none => refuse socket msg Error.parameter_error st
    | some role =>
      match vocs_db.authorize user role st.db with
      | none => none
      | some false => refuse socket msg Error.auth st
      | some true =>
        let st := st.set_broadcast role socket .role
        let st := if outside.delivered then st.respond socket msg (.id role) else st
        some (outside.delivered, st.set_record socket { data with role := some role })

/-- The part of `client_switch_loop_state` behind the check of the permission. -/
def switch_loop_state (outside : Outside) (socket : Socket) (session : Session) (uuid loop : String)
    (requested : Permission) (msg : Message) (st : State) : Handled :=
  let current := (st.connections socket).loops loop
  if current = requested then
    let st := st.open_loop loop
    some (true, st.respond socket msg (.loop_state ((st.get_participants loop).getD []) current loop))
  else
    match perform_switch_loop_request outside (.client uuid) socket session loop current requested st with
    | none => none
    | some sent => await_sent sent socket uuid msg

def client_switch_loop_state (outside : Outside) (socket : Socket) (msg : Message) (st : State) : Handled :=
  let data := st.connections socket
  match data.user, data.role with
  | some _, some role =>
    match data.session with
    | none => refuse socket msg Error.session_unknown st
    | some session =>
      match msg.uuid, msg.get "loop", msg.get "state" with
      | some uuid, some loop, some state =>
        if !(data.ice && data.media_ready) then some (false, st)
        else
          let requested := permission_from_string (some state)
          match vocs_db.get_permission role loop st.db with
          | none => none
          | some permission =>
            let switch := ⟨socket, st.drops socket, session, role, loop, requested, permission⟩
            let st : State := { st with switches := st.switches ++ [switch] }
            if permission_granted permission requested then
              switch_loop_state outside socket session uuid loop requested msg st
            else refuse socket msg Error.auth_permission st
      | _, _, _ => refuse socket msg Error.parameter_error st
  | _, _ => refuse socket msg Error.auth st

def client_switch_loop_volume (socket : Socket) (msg : Message) (st : State) : Handled :=
  let data := st.connections socket
  match data.user, data.role with
  | some _, some _ =>
    match msg.uuid, msg.get "loop" with
    | some uuid, some loop =>
      -- a negative number is out of the range of uint64_t
      if 0 ≤ msg.get_number "volume" ∧ msg.get_number "volume" ≤ 100 then
        match data.session with
        | none => refuse socket msg Error.session_unknown st
        | some session =>
          match st.set_loop_volume (.client uuid) session loop with
          | (false, st) => refuse socket msg Error.processing_error st
          | (true, st) =>
            let st := st.async_set (.client uuid) ⟨socket, msg⟩
            some (true, st.send_switch_volume_user_broadcast socket loop)
      else refuse socket msg Error.parameter_error st
    | _, _ => refuse socket msg Error.parameter_error st
  | _, _ => refuse socket msg Error.auth st

/-- A request to the SIP gateways or the recorder, answered under its id. -/
def send_module (uuid : String) (call : ModuleCall) (st : State) : State :=
  { st with module_requests := st.module_requests ++ [⟨.client uuid, call⟩] }

def client_call_function (outside : Outside) (call : ModuleCall) (socket : Socket) (msg : Message)
    (st : State) : Handled :=
  let data := st.connections socket
  match data.user, data.role, msg.uuid with
  | some _, some _, some uuid =>
    let st := st.async_set (.client uuid) ⟨socket, msg⟩
    if outside.proxy then some (true, send_module uuid call st)
    else
      some (true, (st.async_unset (.client uuid)).respond socket msg (.error Error.processing_error))
  | _, _, _ => some (true, st.respond socket msg (.error Error.auth))

/-- The common body of `admin_start_recording` and `admin_stop_recording`. When
    the recorder fails, the request stays in the store without an answer. -/
def admin_recording (outside : Outside) (call : ModuleCall) (socket : Socket) (msg : Message)
    (st : State) : Handled :=
  match msg.uuid, msg.get "loop" with
  | none, _ => some (false, st)
  | some _, none => some (true, st.respond socket msg (.error Error.parameter_error))
  | some uuid, some _ =>
    let st := st.async_set (.client uuid) ⟨socket, msg⟩
    some (true, if outside.proxy then send_module uuid call st else st)

def admin_state_session (outside : Outside) (socket : Socket) (msg : Message) (st : State) : Handled :=
  match msg.uuid, msg.get "session" with
  | none, _ => some (false, st)
  | some _, none => some (true, st.respond socket msg (.error Error.parameter_error))
  | some uuid, some session =>
    match st.send_proxy outside socket (.client uuid) (.session_state session) with
    | (true, st) => await socket uuid msg st
    | (false, st) => some (true, st.respond socket msg (.error Error.session_unknown))

/-- The requests of a client. -/
inductive Request where
  | logout | login | update_login
  | media | candidate | end_of_candidates
  | authorize
  | switch_loop_state | switch_loop_volume
  | list_calls | list_call_permissions | list_sip_status
  | start_record | stop_record | state_session
  | unsupported
  deriving DecidableEq, Repr

def cb_client_process (config : Config) (outside : Outside) (request : Request) (socket : Socket)
    (msg : Message) (st : State) : Handled :=
  match request with
  | .logout => client_logout socket msg st
  | .login => client_login config outside socket msg st
  | .update_login => update_client_login socket msg st
  | .media => client_media outside socket msg st
  | .candidate => client_candidate outside socket msg st
  | .end_of_candidates => client_end_of_candidates outside socket msg st
  | .authorize => client_authorize outside socket msg st
  | .switch_loop_state => client_switch_loop_state outside socket msg st
  | .switch_loop_volume => client_switch_loop_volume socket msg st
  | .list_calls => client_call_function outside .list_calls socket msg st
  | .list_call_permissions => client_call_function outside .list_permissions socket msg st
  | .list_sip_status => client_call_function outside .get_status socket msg st
  | .start_record => admin_recording outside .start_record socket msg st
  | .stop_record => admin_recording outside .stop_record socket msg st
  | .state_session => admin_state_session outside socket msg st
  | .unsupported => some (false, st)

end openvocs.vocs
