import Openvocs.VocsDb.Run

namespace openvocs.vocs

open vocs_db (Permission Db)

/-- A socket. Zero stands for no socket: `ov_dict_get` yields it for a session
    that is not in `vocs->sessions`. -/
abbrev Socket := Nat

/-- The id of an ICE session, which is the user id of a mixer as well. -/
abbrev Session := String

/-- The id of a request: chosen by a client, or made by `ov_id_fill_with_uuid`. -/
inductive Uuid where
  | client (id : String)
  | own (n : Nat)
  deriving DecidableEq, Repr

/-- What the handlers read of a message. A response of the server that waits in
    the async store for its second half has a `response`. -/
structure Message where
  uuid : Option String := none
  client : Option String := none
  parameter : Json := .null
  response : Option Json := none

/-- The string at `/parameter/<key>`. -/
def Message.get (msg : Message) (key : String) : Option String :=
  (msg.parameter.object_get key).bind Json.string_get

/-- The number at `/parameter/<key>`; an absent one is read as zero. -/
def Message.get_number (msg : Message) (key : String) : Int :=
  match msg.parameter.object_get key with
  | some (.number value) => value
  | _ => 0

def permission_from_string : Option String → Permission
  | some "recv" => .recv
  | some "send" => .send
  | _ => .none

def permission_granted (reference check : Permission) : Bool :=
  match check with
  | .none => true
  | .recv => decide (reference ≠ .none)
  | .send => decide (reference = .send)

/-- An error code with its description. -/
structure Error where
  code : Nat
  desc : String
  deriving DecidableEq, Repr

namespace Error

def processing_error : Error := ⟨1000, "server processing error"⟩

def parameter_error : Error := ⟨1008, "parameter missing"⟩

def session_unknown : Error := ⟨2002, "session unknown"⟩

def auth : Error := ⟨5000, "authentication or authorization failed"⟩

def already_authenticated : Error := ⟨5002, "already authenticated"⟩

def auth_permission : Error := ⟨5004, "permission error"⟩

def change_role : Error :=
  ⟨9999, "current status: changing a role MUST be done using logout/login."⟩

def no_resource : Error := ⟨10010, "No more resources"⟩

def timeout : Error := ⟨20001, "Run into timeout"⟩

end Error

/-- The connection data of a socket in `vocs->connections`. -/
structure Record where
  user : Option String := none
  client : Option String := none
  role : Option String := none
  session : Option Session := none
  ice : Bool := false
  media_ready : Bool := false
  loops : String → Permission := fun _ => .none

def Record.set_loop_state (data : Record) (loop : String) (permission : Permission) : Record :=
  { data with loops := Function.update data.loops loop permission }

structure Pending where
  socket : Socket
  value : Message

/-- `struct Participant` of `ov_vocs_loop`. -/
structure Participant where
  client : Option String
  user : String
  role : String
  deriving DecidableEq, Repr

/-- `ov_broadcast_type`, as far as the server sets it. -/
inductive Broadcast where
  | unset | user | role | loop | system
  deriving DecidableEq, Repr

/-- `struct Session` of `ov_event_session`. -/
structure UserSession where
  id : String
  user : String

/-- The callbacks that are registered for a request to a mixer. -/
inductive Callback where
  | acquired | released | join | leave | volume | state
  deriving DecidableEq, Repr

/-- The messages to a mixer. Only `acquire` and `release` carry the session; the
    other ones concern whoever holds the mixer, and the session they are meant
    for is noted here for the statements about them. -/
inductive MixerCommand where
  | acquire (session : Session)
  | release (session : Session)
  | join (session : Session) (loop : String)
  | leave (session : Session) (loop : String)
  | volume (session : Session) (loop : String)
  | state (session : Session)
  deriving DecidableEq, Repr

/-- A message to a mixer that is not answered yet. -/
structure MixerRequest where
  mixer : Socket
  uuid : Uuid
  command : MixerCommand

/-- What is sent of a candidate: `ov_ice_candidate_info`. -/
structure CandidateInfo where
  candidate : Option String
  ufrag : String
  deriving DecidableEq, Repr

/-- The messages to an ICE proxy. -/
inductive ProxyCommand where
  | create_session
  | update_session (session : Session) (type sdp : String)
  | drop_session (session : Session)
  | candidate (session : Session) (info : CandidateInfo)
  | end_of_candidates (session : Session)
  | talk (session : Session) (on : Bool) (loop : String)
  | session_state (session : Session)
  deriving DecidableEq, Repr

/-- A message to a proxy that is not answered yet. The asker is the socket whose
    request made the server send it; nothing in the server reads it. -/
structure ProxyRequest where
  uuid : Uuid
  command : ProxyCommand
  asker : Socket

/-- A bind the LDAP threads are asked for. -/
structure LdapRequest where
  uuid : Uuid
  user : String
  password : String

/-- The requests that the SIP module and the recorder answer. -/
inductive ModuleCall where
  | list_calls | list_permissions | get_status | start_record | stop_record
  deriving DecidableEq, Repr

structure ModuleRequest where
  uuid : Uuid
  call : ModuleCall

/-- The content of a response to a client. -/
inductive Response where
  | success
  | error (error : Error)
  | login (id session : String)
  | id (id : String)
  | media (type sdp : String)
  | loop_state (participants : List Participant) (state : Permission) (loop : String)
  | volume (loop : String)
  | candidate (info : CandidateInfo)
  | content (value : Json)
  | session_state (frontend : List (String × Json)) (backend : Json)

/-- The messages to a client that answer no request. -/
inductive Notice where
  | media_ready
  | media
  | candidate (info : CandidateInfo)
  | end_of_candidates (info : CandidateInfo)
  deriving DecidableEq, Repr

/-- The content of a `switch_loop_state` or `switch_loop_volume` broadcast. -/
structure SwitchBroadcast where
  loop : String
  state : Option Permission
  user : Option String
  role : Option String
  client : Option String
  participants : Option (List Participant)

/-- What the server sends out. -/
inductive Output where
  | response (socket : Socket) (request : Message) (response : Response)
  | notice (socket : Socket) (notice : Notice)
  | proxy (uuid : Uuid) (command : ProxyCommand)
  | mixer (mixer : Socket) (uuid : Uuid) (command : MixerCommand)
  | broadcast (name : String) (type : Broadcast) (content : SwitchBroadcast)
  | close (socket : Socket)

/-- A `switch_loop_state` request with a role, as it was seen when it arrived. -/
structure Switch where
  socket : Socket
  connection : Nat
  session : Session
  role : String
  loop : String
  requested : Permission
  permission : Permission
  deriving DecidableEq, Repr

/-- A login request; `accepted` when `ov_vocs_db_authenticate` took its password
    or `ov_event_session_verify` its session id. -/
structure Login where
  socket : Socket
  connection : Nat
  user : String
  password : String
  accepted : Bool
  deriving DecidableEq, Repr

/-- `struct ov_vocs` with its mixer backend, the messages under way, and what was
    sent out in the current step. The last six fields record the history for the
    statements about it; nothing in the server reads them. -/
structure State where
  db : Db := Db.empty
  connections : Socket → Record := fun _ => {}
  sessions : Session → Socket := fun _ => 0
  async : List (Uuid × Pending) := []
  loops : String → Option (List (Socket × Participant)) := fun _ => none
  broadcasts : String → Socket → Broadcast := fun _ _ => .unset
  user_sessions : String → Option UserSession := fun _ => none
  -- `ov_mc_backend`: a registered mixer has a slot, with the session it works for
  slots : Socket → Option (Option Session) := fun _ => none
  users : Session → Socket := fun _ => 0
  callbacks : List (Uuid × Callback) := []
  mixer_requests : List MixerRequest := []
  proxy_requests : List ProxyRequest := []
  ldap_store : List Uuid := []
  ldap_requests : List LdapRequest := []
  module_requests : List ModuleRequest := []
  uuids : Nat := 0
  session_ids : List Session := []
  out : List Output := []
  -- how often the connection of a socket was dropped
  drops : Socket → Nat := fun _ => 0
  switches : List Switch := []
  logins : List Login := []
  binds : List (String × String) := []
  -- the socket whose media request a session was created for
  created_for : Session → Socket := fun _ => 0
  -- the number of drops of its socket when a session was entered in `sessions`
  opened : Session → Nat := fun _ => 0

namespace State

variable (st : State)

def send (o : Output) : State := { st with out := st.out ++ [o] }

/-- `send_success_response`, `send_error_response` and `env_send` of a response. -/
def respond (socket : Socket) (request : Message) (response : Response) : State :=
  st.send (.response socket request response)

/-- `ov_socket_json_set`; there is no entry for socket zero. -/
def set_record (socket : Socket) (data : Record) : State :=
  if socket = 0 then st else { st with connections := Function.update st.connections socket data }

def drop_record (socket : Socket) : State :=
  { st with connections := Function.update st.connections socket {} }

/-- Enters a session in `vocs->sessions`. -/
def open_session (session : Session) (socket : Socket) : State :=
  { st with
    sessions := Function.update st.sessions session socket
    opened := Function.update st.opened session (st.drops socket) }

/-- Deletes a session from `vocs->sessions`. -/
def close_session (session : Session) : State :=
  { st with sessions := Function.update st.sessions session 0 }

/-- A new id from `ov_id_fill_with_uuid`. -/
def new_uuid : Uuid := .own st.uuids

def take_uuid : State := { st with uuids := st.uuids + 1 }

/-- The entry of an id in the async store. -/
def pending (uuid : Uuid) : Option Pending := st.async.lookup uuid

def async_set (uuid : Uuid) (data : Pending) : State :=
  { st with async := assoc.erase uuid st.async ++ [(uuid, data)] }

/-- The store after `ov_event_async_unset`. -/
def async_unset (uuid : Uuid) : State :=
  { st with async := assoc.erase uuid st.async }

def async_drop (socket : Socket) : State :=
  { st with async := st.async.filter (fun entry => decide (entry.2.socket ≠ socket)) }

def set_broadcast (name : String) (socket : Socket) (type : Broadcast) : State :=
  { st with broadcasts :=
      Function.update st.broadcasts name (Function.update (st.broadcasts name) socket type) }

def unset_broadcasts (socket : Socket) : State :=
  { st with broadcasts := fun name => Function.update (st.broadcasts name) socket .unset }

/-- Creates a loop that is not in `vocs->loops`. -/
def open_loop (loop : String) : State :=
  { st with loops := Function.update st.loops loop (some ((st.loops loop).getD [])) }

def get_participants (loop : String) : Option (List Participant) :=
  (st.loops loop).map (fun participants => participants.map Prod.snd)

/-- `ov_vocs_loop_add_participant` on a loop that is there. -/
def add_participant (loop : String) (socket : Socket) (p : Participant) : State :=
  let participants := (st.loops loop).map (fun participants => assoc.erase socket participants ++ [(socket, p)])
  { st with loops := Function.update st.loops loop participants }

def drop_participant (loop : String) (socket : Socket) : State :=
  { st with loops := Function.update st.loops loop ((st.loops loop).map (assoc.erase socket)) }

/-- `ov_dict_for_each` over the loops with `close_participation`. The callback
    reads the loop states from the wrong object and sends no broadcast. -/
def close_participations (socket : Socket) : State :=
  { st with loops := fun loop => (st.loops loop).map (assoc.erase socket) }

/-- Whether a socket is in the participant list of a loop. -/
def participates (socket : Socket) (loop : String) : Bool :=
  match st.loops loop with
  | none => false
  | some participants => (participants.lookup socket).isSome

def send_switch_loop_broadcast (socket : Socket) (loop : String) (current : Permission) : State :=
  let data := st.connections socket
  st.send (.broadcast loop .loop
    ⟨loop, some current, data.user, data.role, data.client, st.get_participants loop⟩)

def send_switch_loop_user_broadcast (socket : Socket) (loop : String) (current : Permission) : State :=
  let data := st.connections socket
  match data.user with
  | none => st
  | some user => st.send (.broadcast user .user
      ⟨loop, some current, data.user, data.role, data.client, st.get_participants loop⟩)

def send_switch_volume_user_broadcast (socket : Socket) (loop : String) : State :=
  let data := st.connections socket
  match data.user with
  | none => st
  | some user => st.send (.broadcast user .user ⟨loop, none, data.user, data.role, data.client, none⟩)

end State

end openvocs.vocs
