import Openvocs.Vocs.Backend

namespace openvocs.vocs

open vocs_db (Permission)
open State

def cb_backend_mixer_acquired (uuid : Uuid) (session : Session) (error : Option Error) (st : State) :
    State :=
  let socket := st.sessions session
  if socket = 0 then release_mixer false st.new_uuid session st.take_uuid
  else
    let data := { st.connections socket with media_ready := true }
    let st := st.async_unset uuid
    match error with
    | some _ => st.drop_without_mixer false true socket
    | none =>
      let st := if data.ice then st.send (.notice socket .media_ready) else st
      st.set_record socket data

def acquire_mixer (config : Config) (uuid : Uuid) (session : Session) (st : State) : State :=
  match st.free_mixer config.sockets with
  | none => cb_backend_mixer_acquired uuid session (some Error.no_resource) st
  | some mixer =>
    ((st.acquire_user session mixer).register_callback uuid .acquired).send_mixer mixer uuid
      (.acquire session)

/-- `perform_switch_loop_request`. The name of a loop that fills `data.name` is
    sent without its end: what the proxy and the mixer then get is undefined. -/
def perform_switch_loop_request (outside : Outside) (uuid : Uuid) (asker : Socket) (session : Session)
    (loop : String) (current request : Permission) (st : State) : Option (Bool × State) :=
  match vocs_db.get_multicast_group loop st.db with
  | none => none
  | some "" => some (false, st)
  | some _ =>
    match current, request with
    | .none, .recv | .none, .send =>
      if loop.utf8ByteSize < 255 then some (st.join_loop uuid session loop) else none
    | .recv, .none => some (st.leave_loop uuid session loop)
    | .recv, .send =>
      if loop.utf8ByteSize < 255 then some (st.send_proxy outside asker uuid (.talk session true loop))
      else none
    | .send, .none | .send, .recv =>
      if loop.utf8ByteSize < 255 then some (st.send_proxy outside asker uuid (.talk session false loop))
      else none
    | .none, .none | .recv, .recv | .send, .send => some (false, st)

/-- Enters a client in a loop: the middle part of `cb_backend_mixer_join`. -/
def enter_loop (loopname : String) (socket : Socket) (p : Participant) (st : State) : State :=
  let st := (st.open_loop loopname).add_participant loopname socket p
  let st := st.set_broadcast loopname socket .loop
  st.send_switch_loop_broadcast socket loopname .recv

/-- The end of `cb_backend_mixer_join`: a client that wants to send goes on to the
    proxy, any other one is done. -/
def finish_join (outside : Outside) (uuid : Uuid) (session : Session) (loopname : String) (socket : Socket)
    (orig : Message) (data : Record) (st : State) : Option State :=
  let request := permission_from_string (orig.get "state")
  if request ≠ .recv then
    -- OV_ASSERT(request == OV_VOCS_SEND)
    if request ≠ .send then none
    else
      let st := st.async_set uuid ⟨socket, orig⟩
      match perform_switch_loop_request outside uuid socket session loopname .recv request st with
      | none => none
      | some (false, st) => some (drop_connection socket st)
      | some (true, st) => some (st.set_record socket (data.set_loop_state loopname .recv))
  else
    let participants := (st.get_participants loopname).getD []
    let st := st.send_switch_loop_user_broadcast socket loopname .recv
    if outside.delivered then
      some ((st.respond socket orig (.loop_state participants .recv loopname)).set_record socket
        (data.set_loop_state loopname .recv))
    else some (drop_connection socket st)

def cb_backend_mixer_join (outside : Outside) (uuid : Uuid) (session : Session) (loopname : String)
    (error : Option Error) (st : State) : Option State :=
  match st.pending uuid with
  | none => some (st.leave_loop uuid session loopname).2
  | some ⟨_, orig⟩ =>
    let st := st.async_unset uuid
    let socket := st.sessions session
    let data := st.connections socket
    match error with
    | some e => some (st.respond socket orig (.error e))
    | none =>
      match data.user, data.role with
      | some user, some role =>
        if socket = 0 then some (drop_connection socket (st.open_loop loopname))
        else
          finish_join outside uuid session loopname socket orig data
            (enter_loop loopname socket ⟨data.client, user, role⟩ st)
      -- ov_vocs_db_set_state needs a user and a role
      | _, _ => some (drop_connection socket st)

/-- Takes a client out of a loop: the end of `cb_backend_mixer_leave`. -/
def exit_loop (outside : Outside) (loopname : String) (socket : Socket) (orig : Message) (data : Record)
    (st : State) : State :=
  let st := st.drop_participant loopname socket
  let st := st.send_switch_loop_broadcast socket loopname .none
  let participants := (st.get_participants loopname).getD []
  let st := st.send_switch_loop_user_broadcast socket loopname .none
  if outside.delivered then
    (st.respond socket orig (.loop_state participants .none loopname)).set_record socket
      (data.set_loop_state loopname .none)
  else drop_connection socket st

def cb_backend_mixer_leave (outside : Outside) (uuid : Uuid) (session : Session) (loopname : String)
    (error : Option Error) (st : State) : Option State :=
  let orig := st.pending uuid
  let st := st.async_unset uuid
  let socket := st.sessions session
  if socket = 0 then some st
  else
    let data := st.connections socket
    match orig, error with
    | none, _ => some (drop_connection socket st)
    | some ⟨_, orig⟩, some e => some (st.respond socket orig (.error e))
    | some ⟨_, orig⟩, none =>
      match data.user, data.role with
      | some _, some _ =>
        let st := st.set_broadcast loopname socket .unset
        -- OV_ASSERT(loop)
        if (st.loops loopname).isNone then none
        else some (exit_loop outside loopname socket orig data st)
      | _, _ => some (drop_connection socket st)

def cb_backend_mixer_volume (uuid : Uuid) (session : Session) (loopname : String) (error : Option Error)
    (st : State) : State :=
  let orig := st.pending uuid
  let st := st.async_unset uuid
  let socket := st.sessions session
  if socket = 0 then st
  else
    match orig, error with
    | none, _ => drop_connection socket st
    | some ⟨_, orig⟩, some e => st.respond socket orig (.error e)
    | some ⟨_, orig⟩, none => st.respond socket orig (.volume loopname)

/-- `cb_backend_mixer_state`. A message without a response object is not sent. -/
def cb_backend_mixer_state (uuid : Uuid) (content : Json) (st : State) : State :=
  let orig := st.pending uuid
  let st := st.async_unset uuid
  match orig with
  | some ⟨socket, orig⟩ =>
    match orig.response with
    | some (.object frontend) => st.respond socket orig (.session_state frontend content)
    | _ => st
  | none => st

/-- A registered callback of type `ov_mc_backend_cb_mixer`. A call of another
    function through this type is undefined. -/
def call_mixer_callback (cb : Callback) (uuid : Uuid) (session : Session) (error : Option Error)
    (st : State) : Option State :=
  match cb with
  | .acquired => some (cb_backend_mixer_acquired uuid session error st)
  | .released => some (cb_backend_mixer_released false session error st)
  | _ => none

/-- A registered callback of type `ov_mc_backend_cb_loop`. -/
def call_loop_callback (outside : Outside) (cb : Callback) (uuid : Uuid) (session : Session)
    (loop : String) (error : Option Error) (st : State) : Option State :=
  match cb with
  | .join => cb_backend_mixer_join outside uuid session loop error st
  | .leave => cb_backend_mixer_leave outside uuid session loop error st
  | _ => none

/-- `cb_event_acquire_response` to `cb_event_state_response`: the answer of a
    mixer. The session of a join, leave or volume response is the one that holds
    the mixer when the response comes. -/
def mixer_response (outside : Outside) (r : MixerRequest) (error : Option Error) (content : Json)
    (st : State) : Option State :=
  let cb := st.callbacks.lookup r.uuid
  let next := st.unregister_callback r.uuid
  match r.command with
  | .acquire session =>
    let next := if error.isSome then next.release_user session else next
    match cb with
    | none => some (close_mixer r.mixer next)
    | some cb => call_mixer_callback cb r.uuid session error next
  | .release session =>
    let next := if error.isSome then close_mixer r.mixer next else next.release_user session
    match cb with
    | none => some next
    | some cb => call_mixer_callback cb r.uuid session error next
  | .join _ loop =>
    match cb with
    | none => some (close_mixer r.mixer next)
    | some cb => call_loop_callback outside cb r.uuid (next.slot_user r.mixer) loop error next
  | .leave _ loop =>
    match cb with
    | none => some next
    | some cb => call_loop_callback outside cb r.uuid (next.slot_user r.mixer) loop error next
  | .volume _ loop =>
    match cb with
    | none => some next
    | some .volume => some (cb_backend_mixer_volume r.uuid (next.slot_user r.mixer) loop error next)
    | some _ => none
  | .state _ =>
    match cb with
    | none => some next
    | some .state => some (cb_backend_mixer_state r.uuid content next)
    | some _ => none

end openvocs.vocs
