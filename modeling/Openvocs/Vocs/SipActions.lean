import Openvocs.Registry.SipBackend
import Openvocs.Vocs.Backend
import Openvocs.VocsDb.Permission

namespace openvocs

namespace vocs_db

/-- The object `sip/roles` of a loop. -/
def sip_roles (loop : Json) : Option Json := (loop.object_get "sip").bind (fun sip => sip.object_get "roles")

def sip_allow_callout (loop role : String) (db : Db) : Option Bool :=
  match db.index_get .loop loop with
  | none => some false
  | some ptr => (db.read ptr).map fun data =>
    match sip_roles data with
    | none => true
    | some roles =>
      match roles.object_get role with
      | some (.bool true) => true
      | _ => false

def sip_allow_callend (loop : Option String) (role : String) (db : Db) : Option Bool :=
  match loop with
  | none => some false
  | some loop =>
    match db.index_get .loop loop with
    | none => some true
    | some ptr => (db.read ptr).map fun data =>
      match sip_roles data with
      | none => true
      | some roles => (roles.object_get role).isSome

end vocs_db

/-- `ov_mc_backend_sip_registry_get_proxy_socket`: the first gateway of the dictionary. -/
def backend_sip.State.get_proxy_socket (st : backend_sip.State) : Nat :=
  st.proxys.entries.foldl (fun socket entry => if socket < 1 then entry.1 else socket) 0

namespace vocs

open vocs_db (Db sip_roles sip_allow_callout sip_allow_callend)
open State

/-- The messages to a gateway. -/
inductive GatewayMessage where
  | call (loop callee : String) (caller : Option String)
  | hangup (call : String)
  | permit (permission : Json)
  | revoke (permission : Json)

/-- The server with its SIP backend, and the messages that went to the gateways. -/
structure SipServer where
  server : State
  sip : backend_sip.State
  sent : List (Nat × GatewayMessage) := []

namespace SipServer

variable (s : SipServer)

def respond (socket : Socket) (request : Message) (response : Response) : SipServer :=
  { s with server := s.server.respond socket request response }

/-- `ov_event_app_send`, which fails when the socket of the gateway does. -/
def app_send (ok : Bool) (gw : Nat) (m : GatewayMessage) : Bool × SipServer :=
  if ok then (true, { s with sent := s.sent ++ [(gw, m)] }) else (false, s)

/-- Sends a message if there is a gateway and the message could be made. -/
def send_to (ok : Bool) (gw : Nat) (m : Option GatewayMessage) : Bool × SipServer :=
  if gw = 0 then (false, s)
  else
    match m with
    | none => (false, s)
    | some m => s.app_send ok gw m

/-- `ov_mc_backend_sip_create_call`; the id is the one of the message. -/
def create_call (ok : Bool) (loop dest : String) (source : Option String) : Option Uuid × SipServer :=
  match s.send_to ok s.sip.get_proxy_socket (some (.call loop dest source)) with
  | (false, s) => (none, s)
  | (true, s) => (some s.server.new_uuid, { s with server := s.server.take_uuid })

def terminate_call (ok : Bool) (call_id : String) : Bool × SipServer :=
  s.send_to ok ((s.sip.get_call_proxy call_id).getD 0) (some (.hangup call_id))

def create_permission (ok : Bool) (p : SipPermission) : Bool × SipServer :=
  s.send_to ok s.sip.get_proxy_socket ((sip_permission_to_json p).map .permit)

def terminate_permission (ok : Bool) (p : SipPermission) : Bool × SipServer :=
  s.send_to ok s.sip.get_proxy_socket ((sip_permission_to_json p).map .revoke)

end SipServer

/-- The end of a request that is answered at once. -/
def answer (socket : Socket) (msg : Message) (done : Bool × SipServer) : SipServer :=
  match done with
  | (true, s) => s.respond socket msg .success
  | (false, s) => s.respond socket msg (.error Error.processing_error)

/-- Errors of these requests do not close the socket. -/
def client_calling (ok : Bool) (socket : Socket) (msg : Message) (s : SipServer) : Option SipServer :=
  let data := s.server.connections socket
  match data.user, data.role with
  | some _, some role =>
    match msg.uuid, msg.get "loop", msg.get "destination" with
    | some _, some loop, some dest =>
      match sip_allow_callout loop role s.server.db with
      | none => none
      | some false => some (s.respond socket msg (.error Error.auth))
      | some true =>
        match s.create_call ok loop dest (msg.get "from") with
        | (none, s) => some (s.respond socket msg (.error Error.processing_error))
        | (some uuid, s) => some { s with server := s.server.async_set uuid ⟨socket, msg⟩ }
    | _, _, _ => some (s.respond socket msg (.error Error.parameter_error))
  | _, _ => some (s.respond socket msg (.error Error.auth))

def client_hangup (ok : Bool) (socket : Socket) (msg : Message) (s : SipServer) : Option SipServer :=
  let data := s.server.connections socket
  match data.user, data.role with
  | some _, some role =>
    match msg.uuid, msg.get "call" with
    | some _, some call_id =>
      match sip_allow_callend (msg.get "loop") role s.server.db with
      | none => none
      | some false => some (s.respond socket msg (.error Error.auth))
      | some true => some (answer socket msg (s.terminate_call ok call_id))
    | _, _ => some (s.respond socket msg (.error Error.parameter_error))
  | _, _ => some (s.respond socket msg (.error Error.auth))

/-- `client_permit_call` and `client_revoke_call` differ in what they do with the permission. -/
def with_permission (act : SipPermission → Bool × SipServer) (socket : Socket) (msg : Message) (s : SipServer) :
    Option SipServer :=
  let data := s.server.connections socket
  match data.user, data.role with
  | some _, some _ =>
    match msg.uuid, sip_permission_from_json msg.parameter with
    | some _, some p => some (answer socket msg (act p))
    | _, _ => some (s.respond socket msg (.error Error.parameter_error))
  | _, _ => some (s.respond socket msg (.error Error.auth))

def client_permit_call (ok : Bool) (socket : Socket) (msg : Message) (s : SipServer) : Option SipServer :=
  with_permission (s.create_permission ok) socket msg s

def client_revoke_call (ok : Bool) (socket : Socket) (msg : Message) (s : SipServer) : Option SipServer :=
  with_permission (s.terminate_permission ok) socket msg s

/-- The requests, by the names they are registered under. -/
inductive SipRequest where
  | call | hangup | permit_call | revoke_call
  deriving DecidableEq

def SipRequest.run (request : SipRequest) (ok : Bool) (socket : Socket) (msg : Message) (s : SipServer) :
    Option SipServer :=
  match request with
  | .call => client_calling ok socket msg s
  | .hangup => client_hangup ok socket msg s
  | .permit_call => client_permit_call ok socket msg s
  | .revoke_call => client_revoke_call ok socket msg s

section

variable {ok : Bool} {socket : Socket} {msg : Message} {s s' : SipServer}

end

end vocs

end openvocs
