import Openvocs.VocsDb.Update

namespace openvocs.vocs_db

/-- `ov_json_object_for_each` with a callback that changes the children in place. -/
def for_each_child (f : Json → Bool × Json) : Json → Bool × Json
  | .object members =>
    let (ok, members) := assoc.map_while f (assoc.entries members)
    (ok, .object members)
  | j => (false, j)

/-- Changes a member of a value in place; an absent member is not there to change. -/
def change_member (key : String) (f : Json → Bool × Json) (j : Json) : Bool × Json :=
  match j.object_get key with
  | none => (true, j)
  | some child =>
    let (ok, child) := f child
    (ok, j.object_put key child)

def delete_password_for_export (val : Json) : Bool × Json :=
  (val.is_object, val.object_erase "password")

def delete_password_in_project (val : Json) : Bool × Json :=
  change_member "users" (for_each_child delete_password_for_export) val

/-- The clean-up of the copy that `lock_db_get` hands out. -/
def clean_for_export (cpy : Json) : Json :=
  let cpy := cpy.object_erase "password"
  let cpy := (change_member "users" (for_each_child delete_password_for_export) cpy).2
  (change_member "projects" (for_each_child delete_password_in_project) cpy).2

/-- What a getter returns: `none` for a null pointer. The outer `Option` is `none`
    when it reads a freed node. -/
abbrev Got := Option (Option Json)

def get_entity (entity : Entity) (id : String) (db : Db) : Got :=
  match db.index_get entity id with
  | none => some none
  | some ptr => (db.read ptr).map (fun src => some (clean_for_export src))

def get_entity_key (entity : Entity) (id key : String) (db : Db) : Got :=
  if key = "password" then some (some .null)
  else
    match db.index_get entity id with
    | none => some (some .null)
    | some ptr => (db.read ptr).map (fun item => some ((item.object_get key).getD .null))

/-- `ov_vocs_db_parent`: an id that could not be read is a null pointer. -/
structure Parent where
  scope : Scope
  id : Option String
  deriving DecidableEq, Repr

def json_get_id (val : Json) : Option String := (val.object_get "id").bind Json.string_get

/-- `ov_vocs_db_get_parent`. The scope of an item is guessed from the member
    `projects` of the node two levels up. -/
def db_get_parent (entity : Entity) (id : String) (db : Db) : Option (Option Parent) :=
  match db.index_get entity id with
  | none => some none
  | some item =>
    if entity = .domain then some (some ⟨.domain, some id⟩)
    else
      match item with
      | .dangling => none
      -- the users object of a loose user has no parent
      | .loose _ => some (some ⟨.project, none⟩)
      | .node path =>
        let second_up := (db.node path.dropLast.dropLast).getD .null
        let scope := if (second_up.object_get "projects").isSome then .domain else .project
        some (some ⟨scope, json_get_id second_up⟩)

def json_is_admin_user (val : Json) (user : String) : Bool :=
  (val.node_at ["roles", "admin", "users", user]).isSome

def authorize (user role : String) (db : Db) : Option Bool :=
  match db.index_get .user user, db.index_get .role role with
  | some _, some role_data => (db.read role_data).map (fun data => (data.node_at ["users", user]).isSome)
  | _, _ => some false

def authorize_domain_admin (user id : String) (db : Db) : Option Bool :=
  match db.index_get .domain id with
  | none => some false
  | some domain => (db.read domain).map (fun data => json_is_admin_user data user)

def authorize_project_admin (user id : String) (db : Db) : Option Bool :=
  match db.index_get .project id with
  | none => some false
  | some project =>
    match db.read project with
    | none => none
    | some data =>
      if json_is_admin_user data user then some true
      else
        match project with
        | .node path =>
          match json_get_id ((db.node path.dropLast.dropLast).getD .null) with
          | none => some false
          | some domain_id => authorize_domain_admin user domain_id db
        | _ => some false

/-- `authorize_connection_for_id` of the database service, for a connection that
    is logged in as a user. -/
def authorize_connection_for_id (user : String) (entity : Entity) (id : String) (db : Db) : Option Bool :=
  match db_get_parent entity id db with
  | none => none
  | some (some ⟨.domain, some parent⟩) => authorize_domain_admin user parent db
  | some (some ⟨.project, some parent⟩) => authorize_project_admin user parent db
  | some _ => some false

inductive Permission where
  | none | recv | send
  deriving DecidableEq, Repr

def get_permission (role loop : String) (db : Db) : Option Permission :=
  match db.index_get .loop loop with
  | none => some .none
  | some ptr => (db.read ptr).map fun loop_data =>
    match loop_data.node_at ["roles", role] with
    | some (.bool true) => .send
    | some (.bool false) => .recv
    | _ => .none

/-- Whether `ov_socket_transport_from_string` knows a string. -/
def is_transport (s : String) : Bool :=
  ["udp", "tcp", "tls", "dtls", "local"].any (fun name => s.toLower.isPrefixOf name)

/-- The host of `ov_socket_configuration_from_json`, empty when there is none or
    the object is refused. -/
def socket_configuration_host (val : Json) : String :=
  let type_ok := match val.object_get "type" with
    | none => true
    | some (.string type) => is_transport type
    | some _ => false
  let port_ok := match val.object_get "port" with
    | some (.number port) => decide (0 ≤ port ∧ port ≤ 65535)
    | _ => true
  match val.object_get "host" with
  | some (.string host) => if type_ok && port_ok then host else ""
  | _ => ""

/-- The host of `ov_vocs_db_get_multicast_group`. -/
def get_multicast_group (loop : String) (db : Db) : Option String :=
  match db.index_get .loop loop with
  | none => some ""
  | some ptr => (db.read ptr).map fun loop_data =>
    match loop_data.object_get "multicast" with
    | none => ""
    | some val => socket_configuration_host val

/-- `ov_vocs_db_authenticate`; `is_valid` stands for `ov_password_is_valid`. -/
def authenticate (is_valid : String → Option Json → Bool) (user pass : String) (db : Db) : Option Bool :=
  match db.index_get .user user with
  | none => some false
  | some ptr => (db.read ptr).map (fun data => is_valid pass (data.object_get "password"))

/-- `ov_vocs_db_inject` of the authorization data. -/
def inject_auth (data : Json) (_db : Db) : Option (Bool × Db) :=
  reindex_auth { domains := some data }

/-- Sets a key of an indexed entity: the common body of `ov_vocs_db_set_password`,
    `ov_vocs_db_set_layout` and `ov_vocs_db_set_recorded`. -/
def set_entity_key (entity : Entity) (id key : String) (val : Json) (db : Db) : Option (Bool × Db) :=
  match db.index_get entity id with
  | none => some (false, db)
  | some ptr => set_through entity id ptr key val db

/-- `ov_vocs_db_set_password` with the result of `ov_password_hash`. -/
def set_password (user : String) (hash : Json) : Db → Option (Bool × Db) :=
  set_entity_key .user user "password" hash

def set_layout (role : String) (layout : Json) : Db → Option (Bool × Db) :=
  set_entity_key .role role "layout" layout

def set_recorded (loop : String) (on : Bool) : Db → Option (Bool × Db) :=
  set_entity_key .loop loop "recorded" (.bool on)

def set_keyset_layout (domain name : String) (layout : Json) (db : Db) : Option (Bool × Db) :=
  match db.index_get .domain domain with
  | none => some (false, db)
  | some (.node path) =>
    match get_create_content path "layout" db with
    | (false, db) => some (false, db)
    | (true, db) => some (db.object_set (path ++ ["layout"]) name layout)
  | some _ => none

/-- The common body of `ov_vocs_db_add_project_admin` and
    `ov_vocs_db_add_domain_admin`. The new objects are not entered in the index;
    where one cannot be linked, the grant goes to an object outside of the tree. -/
def add_admin (scope : Entity) (scope_id user : String) (db : Db) : Option (Bool × Db) :=
  match db.index_get scope scope_id with
  | none => some (false, db)
  | some (.node path) =>
    let db := (get_create_content path "roles" db).2
    let db := (get_create_content (path ++ ["roles"]) "admin" db).2
    let db := (get_create_content (path ++ ["roles", "admin"]) "users" db).2
    let users := path ++ ["roles", "admin", "users"]
    some (if (db.node users).isSome then db.object_set users user .null else (true, db))
  | some _ => none

def add_project_admin : String → String → Db → Option (Bool × Db) := add_admin .project

def add_domain_admin : String → String → Db → Option (Bool × Db) := add_admin .domain

end openvocs.vocs_db
