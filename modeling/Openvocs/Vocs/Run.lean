import Openvocs.Lib.Machine
import Openvocs.Vocs.Requests

namespace openvocs.vocs

open State

/-- What can happen to the server. Messages under way, pending requests and
    callbacks are named by their place in the lists of the state. -/
inductive Event where
  | request (socket : Socket) (request : Request) (msg : Message) (outside : Outside)
  | socket_close (socket : Socket)
  -- one run of `invalidate_run` with the requests that have expired
  | timeout (expired : List Nat)
  | ldap_result (i : Nat) (granted : Bool) (outside : Outside)
  | proxy_response (i : Nat) (result : ProxyResult) (outside : Outside)
  | proxy_lost (i : Nat)
  | session_completed (session : Session) (success : Bool)
  | session_dropped (session : Session)
  | candidate (session : Session) (info : CandidateInfo)
  | end_of_candidates (session : Session) (info : CandidateInfo)
  | mixer_register (mixer : Socket)
  | mixer_close (mixer : Socket)
  | mixer_response (i : Nat) (error : Option Error) (content : Json) (outside : Outside)
  | callback_expired (i : Nat)
  | module_response (i : Nat) (error : Option Error) (content : Json)
  | user_session_expired (client : String)
  | database (op : vocs_db.Op)

/-- A message of a client. Its socket is closed when the handler returns false. -/
def client_request (config : Config) (socket : Socket) (request : Request) (msg : Message)
    (outside : Outside) (st : State) : Option State :=
  if socket = 0 then none
  else
    match cb_client_process config outside request socket msg st with
    | none => none
    | some (true, st) => some st
    | some (false, st) => some (drop_connection socket st)

/-- The ids of the requests that have expired. -/
def expired_uuids (expired : List Nat) (st : State) : List Uuid :=
  expired.filterMap (fun i => st.async[i]?.map Prod.fst)

/-- The effect of an event. -/
def handle (config : Config) (e : Event) (st : State) : Option State :=
  match e with
  | .request socket request msg outside => client_request config socket request msg outside st
  | .socket_close socket => some (drop_connection socket st)
  | .timeout expired => some (invalidate (expired_uuids expired st) st)
  | .ldap_result i granted outside =>
    match st.ldap_requests[i]? with
    | none => none
    | some r => ldap_response outside r granted { st with ldap_requests := st.ldap_requests.eraseIdx i }
  | .proxy_response i result outside =>
    match st.proxy_requests[i]? with
    | none => none
    | some r =>
      vocs.proxy_response config outside r result { st with proxy_requests := st.proxy_requests.eraseIdx i }
  | .proxy_lost i => some { st with proxy_requests := st.proxy_requests.eraseIdx i }
  | .session_completed session success => some (cb_frontend_session_completed session success st)
  | .session_dropped session => some (cb_frontend_session_dropped session st)
  | .candidate session info => some (st.send (.notice (st.sessions session) (.candidate info)))
  | .end_of_candidates session info =>
    some (st.send (.notice (st.sessions session) (.end_of_candidates info)))
  | .mixer_register mixer => register_mixer config mixer st
  | .mixer_close mixer => some (close_mixer mixer st)
  | .mixer_response i error content outside =>
    match st.mixer_requests[i]? with
    | none => none
    | some r =>
      vocs.mixer_response outside r error content { st with mixer_requests := st.mixer_requests.eraseIdx i }
  | .callback_expired i => some { st with callbacks := st.callbacks.eraseIdx i }
  | .module_response i error content =>
    match st.module_requests[i]? with
    | none => none
    | some r =>
      some (vocs.module_response r error content
        { st with module_requests := st.module_requests.eraseIdx i })
  | .user_session_expired client =>
    some { st with user_sessions := Function.update st.user_sessions client none }
  | .database op => (op.step st.db).map (fun r => { st with db := r.2 })

/-- A step of the server; `out` holds what was sent in the last one. -/
def step (config : Config) (e : Event) (st : State) : Option State :=
  handle config e { st with out := [] }

/-- A run of the server. -/
abbrev run (config : Config) : List Event → State → Option State := machine.run (step config)

/-- The server as it starts with a database. -/
def State.init (db : vocs_db.Db) : State := { db }

/-- A message with an id and a parameter object. -/
def simple_request (socket : Socket) (request : Request) (uuid : String)
    (parameter : List (String × String)) : Event :=
  .request socket request
    { uuid := some uuid
      client := some "client"
      parameter := .object (parameter.map (fun entry => (entry.1, .string entry.2))) } {}

/-- A small installation: the user may receive and send on one loop and only
    receive on the other. -/
def small_config : Config where
  sockets := 4
  is_valid := fun password stored => match stored with
    | some (.string s) => decide (password = s)
    | _ => false

def small_loop (id : String) (send : Bool) : String × Json :=
  (id, .object [("id", .string id), ("multicast", .object [("host", .string "224.0.0.1")]),
    ("roles", .object [("operator", .bool send)])])

def small_domain : Json :=
  .object [("id", .string "d"),
    ("users", .object [("alice", .object [("id", .string "alice"), ("password", .string "pw")])]),
    ("roles", .object [("operator", .object [("id", .string "operator"), ("users", .object [("alice", .null)])])]),
    ("loops", .object [small_loop "both" true, small_loop "listen" false])]

def small_db : vocs_db.Db :=
  match vocs_db.inject_auth (.object [("d", small_domain)]) vocs_db.Db.empty with
  | some (_, db) => db
  | none => vocs_db.Db.empty

/-- The events that bring a client to the point where it can switch loops. -/
def small_setup (socket : Socket) (session : Session) : List Event :=
  [simple_request socket .login "1" [("user", "alice"), ("password", "pw")],
   simple_request socket .authorize "2" [("role", "operator")],
   simple_request socket .media "3" [("type", "request")],
   .proxy_response 0 { session, type := "offer", sdp := "sdp" } {},
   .mixer_response 0 none .null {},
   .session_completed session true]

end openvocs.vocs
