import Openvocs.VocsDb.Entity
import Openvocs.VocsDb.Sip

namespace openvocs.vocs_db

/-- The state an update works on: the database and the SIP data it collects. -/
structure Update where
  db : Db
  out : Processing := none

/-- Runs a step of the database inside an update. -/
def Update.lift (u : Update) (f : Db → Option (Bool × Db)) : Option (Bool × Update) :=
  (f u.db).map (fun r => (r.1, { u with db := r.2 }))

/-- The common body of `user_already_set`, `role_already_set` and
    `loop_already_set`: an id in use must be one of the parent's own. -/
def already_set (entity : Entity) (parent : Option Json) (db : Db) (key : String) : Bool :=
  decide (is_admin_role entity key) || !(db.index_get entity key).isSome ||
    (parent.bind (fun node => node.object_get key)).isSome

/-- Walks the new members with `already_set`. -/
def none_already_set (entity : Entity) (parent : Option Json) (new : Json) (db : Db) : Bool :=
  ((new.object_entries).getD []).all (fun entry => already_set entity parent db entry.1)

/-- The object `/users`, `/roles` or `/loops` of a parent, created when absent.
    The flag is false when the new object could not be linked to its parent. -/
def get_create_content (parent : Path) (key : String) (db : Db) : Bool × Db :=
  match (db.node parent).bind (fun node => node.object_get key) with
  | some _ => (true, db)
  | none => db.object_set parent key (.object [])

def drop_user (path : Path) (key : String) (db : Db) : Db := (db.object_del path key).2

def add_new_user (path : Path) : Callback := fun key val db =>
  match (db.node path).bind (fun node => node.object_get key) with
  | some _ => some (true, db)
  | none => some (db.object_set path key val)

/-- The members of the object at a path. -/
def members_at (path : Path) (db : Db) : List (String × Json) :=
  ((db.node path).bind Json.object_entries).getD []

/-- `update_users` once the users object is at hand. -/
def update_users_content (path : Path) (users : Json) (db : Db) : Option (Bool × Db) :=
  if ¬ none_already_set .user (db.node path) users db then some (false, db)
  else
    guarded.next (((db.node path).getD .null).object_for_each unindex_users db) fun db =>
    let dropped := (members_at path db).filter (fun entry => (users.object_get entry.1).isNone)
    let db := dropped.foldl (fun db entry => drop_user path entry.1 db) db
    guarded.next (users.object_for_each (add_new_user path) db) fun db =>
    ((db.node path).getD .null).object_for_each (reindex_users path) db

/-- `update_users` when the new users object could not be linked to its parent:
    the users get into the index, but not into the tree. -/
def update_users_loose (users : Json) (db : Db) : Option (Bool × Db) :=
  if ¬ none_already_set .user none users db then some (false, db)
  else users.object_for_each (fun key val db => some (true, db.index_set .user key (.loose val))) db

def update_users (parent : Path) (users : Json) (db : Db) : Option (Bool × Db) :=
  if ¬ users.is_object then some (false, db)
  else
    match get_create_content parent "users" db with
    | (true, db) => update_users_content (parent ++ ["users"]) users db
    | (false, db) => update_users_loose users db

/-- The part that `update_roles` and `update_loops` share: the new object takes
    the place of the old one. -/
def replace_content (entity : Entity) (parent : Path) (new : Json) (db : Db) : Option (Bool × Db) :=
  let path := parent ++ [entity.container]
  guarded.next (((db.node path).getD .null).object_for_each (unindex entity) db) fun db =>
  guarded.next (some (db.object_set parent entity.container new)) fun db =>
  new.object_for_each (reindex entity path) db

def update_roles (parent : Path) (roles : Json) (db : Db) : Option (Bool × Db) :=
  if ¬ roles.is_object then some (false, db)
  else
    match get_create_content parent "roles" db with
    | (false, db) => some (false, db)
    | (true, db) =>
      if ¬ none_already_set .role (db.node (parent ++ ["roles"])) roles db then some (false, db)
      else replace_content .role parent roles db

def update_loops (parent : Path) (loops : Json) (u : Update) : Option (Bool × Update) :=
  if ¬ loops.is_object then some (false, u)
  else
    let (linked, db) := get_create_content parent "loops" u.db
    let u := { u with db := db }
    let data := if linked then db.node (parent ++ ["loops"]) else some (.object [])
    if ¬ none_already_set .loop data loops db then some (false, u)
    else
      match check_sip_processing data loops u.out with
      | (false, out) => some (false, { u with out := out })
      | (true, out) =>
        let u := { u with out := out }
        if linked then u.lift (replace_content .loop parent loops) else some (false, u)

def update_domain_projects (domain : Path) (projects : Json) (u : Update) : Option (Bool × Update) :=
  if ¬ projects.is_object then some (false, u)
  else
    let old := (u.db.node domain).bind (fun node => node.object_get "projects")
    guarded.next (u.lift (for_each_if_set old unindex_projects)) fun u =>
    match check_sip_processing old projects u.out with
    | (false, out) => some (false, { u with out := out })
    | (true, out) =>
      let u := { u with out := out }
      guarded.next (u.lift (fun db => some (db.object_set domain "projects" projects))) fun u =>
      u.lift (projects.object_for_each (reindex_projects (domain ++ ["projects"])))

/-- `update_domain` on the domain at a path. -/
def update_domain (src : Path) (key : String) (val : Json) (u : Update) : Option (Bool × Update) :=
  if key = "projects" then update_domain_projects src val u
  else if key = "users" then u.lift (update_users src val)
  else if key = "roles" then u.lift (update_roles src val)
  else if key = "loops" then update_loops src val u
  else if key = "id" then some (true, u)
  else u.lift (fun db => some (db.object_set src key val))

/-- `update_project` on the project at a path. -/
def update_project (src : Path) (key : String) (val : Json) (u : Update) : Option (Bool × Update) :=
  if key = "users" then u.lift (update_users src val)
  else if key = "roles" then u.lift (update_roles src val)
  else if key = "loops" then update_loops src val u
  else if key = "id" then some (true, u)
  else u.lift (fun db => some (db.object_set src key val))

/-- `ov_json_object_set` through a pointer of an index. -/
def set_through (entity : Entity) (id : String) (ptr : Ptr) (key : String) (val : Json) (db : Db) :
    Option (Bool × Db) :=
  match ptr with
  | .node path => some (db.object_set path key val)
  | .loose _ =>
    -- a value outside the tree is kept in its entry, with the keys set before
    match db.index_get entity id with
    | some (.loose value) =>
      some (value.is_object, db.index_set entity id (.loose (value.object_put key val)))
    | _ => none
  | .dangling => none

def update_entity (entity : Entity) (id : String) (ptr : Ptr) (key : String) (val : Json) (u : Update) :
    Option (Bool × Update) :=
  match u.db.read ptr with
  | none => none
  | some data =>
    let out := if key = "sip" then
        (update_sip_parameter_processing id (data.object_get key) (some val) u.out).2
      else u.out
    { u with out := out }.lift (set_through entity id ptr key val)

/-- The function an update of an entity calls for each key. -/
def update_key (entity : Entity) (id : String) (ptr : Ptr) (key : String) (val : Json) (u : Update) :
    Option (Bool × Update) :=
  match entity, ptr with
  | .domain, .node path => update_domain path key val u
  | .project, .node path => update_project path key val u
  | .domain, _ => none
  | .project, _ => none
  | _, _ => update_entity entity id ptr key val u

def update_entity_key (entity : Entity) (id key : String) (val : Json) (db : Db) : Option (Bool × Db) :=
  if key = "id" then some (false, db)
  else
    match db.index_get entity id with
    | none => some (false, db)
    | some ptr => (update_key entity id ptr key val { db }).map (fun r => (r.1, r.2.db))

/-- The unindexing of a key that is deleted; only a domain has projects. -/
def unindex_key (entity : Entity) (key : String) (content : Json) (db : Db) : Option (Bool × Db) :=
  if key = "projects" ∧ entity = .domain then content.object_for_each unindex_projects db
  else if key = "users" then content.object_for_each unindex_users db
  else if key = "roles" then content.object_for_each unindex_roles db
  else if key = "loops" then content.object_for_each unindex_loops db
  else some (true, db)

/-- The common body of `delete_domain_key` and `delete_project_key`. -/
def delete_scope_key (entity : Entity) (path : Path) (key : String) (db : Db) : Option (Bool × Db) :=
  let content := ((db.node path).bind (fun node => node.object_get key)).getD .null
  match unindex_key entity key content db with
  | none => none
  | some (result, db) =>
    let (deleted, db) := db.object_del path key
    some (result && deleted, db)

def delete_domain_key : Path → String → Db → Option (Bool × Db) := delete_scope_key .domain

def delete_project_key : Path → String → Db → Option (Bool × Db) := delete_scope_key .project

def delete_entity_key (entity : Entity) (id key : String) (db : Db) : Option (Bool × Db) :=
  if key = "id" then some (false, db)
  else
    match db.index_get entity id with
    | none => some (false, db)
    | some ptr =>
      match entity, ptr with
      | .domain, .node path => delete_domain_key path key db
      | .project, .node path => delete_project_key path key db
      | _, .node path => some (db.object_del path key)
      | _, .loose value =>
        some (value.is_object, db.index_set entity id (.loose (value.object_erase key)))
      | _, .dangling => none

/-- The outcome of a verification: the flag and the errors it reports. -/
abbrev Verdict := Bool × Option Json

/-- An error object with one entry. -/
def error_entry (key message : String) : Json := .object [(key, .string message)]

/-- The id check at the start of `verify_user`, `verify_role` and `verify_loop`;
    an id that is no string is passed to `strcmp` as a null pointer. -/
def verify_own_id (id : String) (value : Json) : Option Verdict :=
  match value.object_get "id" with
  | none => some (true, none)
  | some id_set =>
    match id_set.string_get with
    | none => none
    | some s => some (if s = id then (true, none) else (false, some (error_entry "id" "id does not match")))

def verify_role (id : String) (value : Json) : Option Verdict := verify_own_id id value

def verify_loop (id : String) (value : Json) : Option Verdict := verify_own_id id value

def verify_user (id : String) (value : Json) : Option Verdict :=
  match verify_own_id id value with
  | some (true, _) =>
    some (if (value.object_get "password").isSome then
        (false, some (error_entry "password" "user password contained."))
      else (true, none))
  | other => other

/-- `verify_id`: an id must be one of the own ones or not be in use at all. -/
def verify_id (db : Db) (index : Entity) (own : Option Json) (message : String) (key : String)
    (err : Option Json) : Verdict :=
  if (own.bind (fun node => node.object_get key)).isSome then (true, err)
  else if (db.index_get index key).isSome then
    (false, some ((err.getD (.object [])).object_put key (.string message)))
  else (true, err)

/-- Walks the ids of a member of the new value with `verify_id`. -/
def verify_ids (db : Db) (index : Entity) (own : Option Json) (message : String) (new : Option Json)
    (err : Option Json) : Option Verdict :=
  match new with
  | none => some (true, err)
  | some j => j.object_for_each (fun key _ err => some (verify_id db index own message key err)) err

/-- The user, role and loop ids of a new project or domain. -/
def verify_scope (db : Db) (node : Option Json) (value : Json) (err : Option Json) : Option Verdict :=
  let own := fun key => node.bind (fun n => n.object_get key)
  guarded.next (verify_ids db .user (own "users") "user id already in use." (value.object_get "users") err) fun err =>
  guarded.next (verify_ids db .role (own "roles") "role id already in use." (value.object_get "roles") err) fun err =>
  verify_ids db .loop (own "loops") "loop id already in use." (value.object_get "loops") err

/-- The indexed node of a project or domain that is verified. -/
def verified_node (db : Db) (entity : Entity) (id : String) : Option (Option Json) :=
  match db.index_get entity id with
  | none => some none
  | some ptr => (db.read ptr).map some

def verify_project (db : Db) (id : String) (value : Json) : Option Verdict :=
  match verified_node db .project id with
  | none => none
  | some project => verify_scope db project value none

/-- `verify_project_id`; the id of the project is looked up among the loops. -/
def verify_project_id (db : Db) (own : Option Json) (key : String) (val : Json) : Option Verdict :=
  guarded.next (verify_project db key val) fun err =>
  some (verify_id db .loop own "project id already in use." key err)

def verify_domain (db : Db) (id : String) (value : Json) : Option Verdict :=
  match verified_node db .domain id with
  | none => none
  | some domain =>
    guarded.next (verify_scope db domain value none) fun err =>
    match value.object_get "projects" with
    | none => some (true, err)
    | some projects =>
      projects.object_for_each
        (fun key val _ => verify_project_id db (domain.bind (fun n => n.object_get "projects")) key val) err

def verify_entity_item (entity : Entity) (id : String) (val : Json) (db : Db) : Option Verdict :=
  match entity with
  | .domain => verify_domain db id val
  | .project => verify_project db id val
  | .user => verify_user id val
  | .loop => verify_loop id val
  | .role => verify_role id val

/-- What `ov_vocs_db_update_entity_item` returns, reports and sends. -/
structure ItemResult where
  result : Bool
  db : Db
  errors : Option Json
  processing : Processing

def update_entity_item (entity : Entity) (id : String) (val : Json) (db : Db) : Option ItemResult :=
  match verify_entity_item entity id val db with
  | none => none
  | some (false, errors) => some { result := false, db, errors, processing := none }
  | some (true, errors) =>
    match db.index_get entity id with
    | none =>
      some { result := false, db, errors := some (error_entry id "ID not found."), processing := none }
    | some ptr =>
      (val.object_for_each (update_key entity id ptr) { db }).map fun r =>
        { result := r.1, db := r.2.db, errors, processing := r.2.out }

end openvocs.vocs_db
