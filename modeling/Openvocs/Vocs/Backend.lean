import Openvocs.Vocs.Basic

namespace openvocs.vocs

open Function

/-- The settings that stay fixed, and `ov_password_is_valid`. -/
structure Config where
  ldap : Bool := false
  -- the number of slots of `ov_mc_backend_registry`
  sockets : Nat := 64
  is_valid : String → Option Json → Bool

/-- What the world around the server decides while it takes a step: the id that
    `ov_event_session_init` draws, whether the proxy (or the module a request is
    for) takes a message, and whether a response reaches the client. -/
structure Outside where
  token : String := ""
  proxy : Bool := true
  delivered : Bool := true

namespace State

variable (st : State)

/-- `ov_mc_backend_registry_get_user`: the mixer of a session. -/
def get_user (session : Session) : Option Socket :=
  if (st.slots (st.users session)).isSome then some (st.users session) else none

/-- The `user` field of a slot, which is empty when the mixer is free or gone. -/
def slot_user (mixer : Socket) : Session :=
  ((st.slots mixer).getD none).getD ""

/-- `ov_mc_backend_registry_acquire_user`: the first slot that is free. -/
def free_mixer (sockets : Nat) : Option Socket :=
  (List.range sockets).find? (fun mixer => decide (st.slots mixer = some none))

def acquire_user (session : Session) (mixer : Socket) : State :=
  { st with
    slots := update st.slots mixer (some (some session))
    users := update st.users session mixer }

/-- `ov_mc_backend_registry_release_user`. The slot is cleared whoever holds it. -/
def release_user (session : Session) : State :=
  let mixer := st.users session
  { st with
    slots := update st.slots mixer ((st.slots mixer).map (fun _ => none))
    users := update st.users session 0 }

/-- `ov_mc_backend_registry_unregister_mixer` with the loss of the connection. -/
def unregister_mixer (mixer : Socket) : State :=
  { st with
    slots := update st.slots mixer none
    mixer_requests := st.mixer_requests.filter (fun r => decide (r.mixer ≠ mixer)) }

def register_callback (uuid : Uuid) (cb : Callback) : State :=
  { st with callbacks := assoc.erase uuid st.callbacks ++ [(uuid, cb)] }

/-- The registry after `ov_callback_registry_unregister`. -/
def unregister_callback (uuid : Uuid) : State :=
  { st with callbacks := assoc.erase uuid st.callbacks }

/-- Sends a message to a mixer that is registered. -/
def send_mixer (mixer : Socket) (uuid : Uuid) (command : MixerCommand) : State :=
  let st : State := { st with mixer_requests := st.mixer_requests ++ [⟨mixer, uuid, command⟩] }
  st.send (.mixer mixer uuid command)

/-- `send_message` of `ov_mc_backend` behind the registration of a callback. -/
def send_message (cb : Callback) (uuid : Uuid) (session : Session) (command : MixerCommand) :
    Bool × State :=
  let st := st.register_callback uuid cb
  match st.get_user session with
  | none => (false, st)
  | some mixer => (true, st.send_mixer mixer uuid command)

def join_loop (uuid : Uuid) (session : Session) (loop : String) : Bool × State :=
  st.send_message .join uuid session (.join session loop)

def leave_loop (uuid : Uuid) (session : Session) (loop : String) : Bool × State :=
  st.send_message .leave uuid session (.leave session loop)

def set_loop_volume (uuid : Uuid) (session : Session) (loop : String) : Bool × State :=
  st.send_message .volume uuid session (.volume session loop)

def get_session_state (uuid : Uuid) (session : Session) : Bool × State :=
  st.send_message .state uuid session (.state session)

/-- A message to the proxy that answers under the id of a request. -/
def send_proxy (outside : Outside) (asker : Socket) (uuid : Uuid) (command : ProxyCommand) :
    Bool × State :=
  if outside.proxy then
    let st : State := { st with proxy_requests := st.proxy_requests ++ [⟨uuid, command, asker⟩] }
    (true, st.send (.proxy uuid command))
  else (false, st)

def drop_session (uuid : Uuid) (session : Session) : State :=
  st.send (.proxy uuid (.drop_session session))

/-- The part of `drop_connection` behind the session. While the async store is
    locked by its own invalidation run, `ov_event_async_drop` fails. -/
def drop_socket (locked : Bool) (socket : Socket) : State :=
  let st := if locked then st else st.async_drop socket
  let st := (st.unset_broadcasts socket).close_participations socket
  let st := (st.drop_record socket).send (.close socket)
  { st with drops := update st.drops socket (st.drops socket + 1) }

/-- The body of `drop_connection` around the release of the mixer. -/
def drop_with (release : Uuid → Session → State → State) (locked frontend : Bool) (socket : Socket) :
    State :=
  match (st.connections socket).session with
  | none => st.drop_socket locked socket
  | some session =>
    let uuid := st.new_uuid
    let st := st.take_uuid
    let st := if frontend then st.drop_session uuid session else st
    let st := release uuid session st
    (st.close_session session).drop_socket locked socket

/-- `drop_connection` that leaves the mixer alone. -/
def drop_without_mixer (locked frontend : Bool) (socket : Socket) : State :=
  st.drop_with (fun _ _ st => st) locked frontend socket

end State

open State

def cb_backend_mixer_released (locked : Bool) (session : Session) (error : Option Error) (st : State) :
    State :=
  let socket := st.sessions session
  if socket = 0 then st
  else
    match error with
    | some _ => st
    | none => st.drop_without_mixer locked true socket

/-- `ov_mc_backend_release_mixer`. The slot is free as soon as the message is sent. -/
def release_mixer (locked : Bool) (uuid : Uuid) (session : Session) (st : State) : State :=
  match st.get_user session with
  | none => (cb_backend_mixer_released locked session none st).release_user session
  | some mixer =>
    ((st.register_callback uuid .released).send_mixer mixer uuid (.release session)).release_user session

/-- `drop_connection` that releases the mixer. -/
def drop_with_mixer (locked frontend : Bool) (socket : Socket) (st : State) : State :=
  st.drop_with (release_mixer locked) locked frontend socket

/-- `drop_connection(vocs, socket, true, true)` outside of a timeout. -/
def drop_connection (socket : Socket) (st : State) : State := drop_with_mixer false true socket st

def cb_backend_mixer_lost (session : Session) (st : State) : State :=
  st.drop_without_mixer false true (st.sessions session)

/-- `close_mixer`, which `cb_close` and `ov_event_app_close` come down to as well. -/
def close_mixer (mixer : Socket) (st : State) : State :=
  let user := st.slot_user mixer
  let st := st.unregister_mixer mixer
  if user = "" then st else cb_backend_mixer_lost user st

/-- `cb_event_register`; a mixer registers once on its connection. -/
def register_mixer (config : Config) (mixer : Socket) (st : State) : Option State :=
  if 0 < mixer ∧ mixer < config.sockets ∧ st.slots mixer = none then
    some { st with slots := update st.slots mixer (some none) }
  else none

end openvocs.vocs
