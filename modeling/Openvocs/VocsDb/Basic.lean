import Mathlib.Logic.Function.Basic
import Openvocs.Json.Value
import Openvocs.Lib.Guarded

namespace openvocs.vocs_db

/-- `ov_vocs_db_entity`, without the error value. -/
inductive Entity where
  | domain | project | loop | role | user
  deriving DecidableEq, Repr

inductive Scope where
  | domain | project
  deriving DecidableEq, Repr

/-- The member of a domain or project that holds the entities of a type. -/
def Entity.container : Entity → String
  | .domain => "domains"
  | .project => "projects"
  | .loop => "loops"
  | .role => "roles"
  | .user => "users"

/-- What an index dict stores under an id: the address of a JSON node.
    A node is never moved, so a node of `data.domains` is its path. A loose node
    sits in an object that was never linked into `data.domains` (only
    `update_users` leaves such nodes behind); nothing but the index knows it. -/
inductive Ptr where
  | node (path : Path)
  | loose (value : Json)
  | dangling
  deriving Repr, Inhabited

/-- Freeing the subtree at a path. -/
def Ptr.release (path : Path) : Ptr → Ptr
  | node other => if path <+: other then dangling else node other
  | ptr => ptr

/-- `struct ov_vocs_db`: the tree of all domains and the five index dicts. -/
structure Db where
  domains : Option Json := none
  index : Entity → List (String × Ptr) := fun _ => []

/-- The slot of an id in an index dict. -/
def index_slot : String → Nat := dict_slot 255

namespace Db

/-- A new database. -/
def empty : Db := {}

def index_get (db : Db) (entity : Entity) (id : String) : Option Ptr :=
  (db.index entity).lookup id

def index_entries (db : Db) (entity : Entity) : List (String × Ptr) :=
  assoc.entries (db.index entity)

def index_set (db : Db) (entity : Entity) (id : String) (ptr : Ptr) : Db :=
  { db with index := Function.update db.index entity (assoc.put index_slot id ptr (db.index entity)) }

def index_del (db : Db) (entity : Entity) (id : String) : Db :=
  { db with index := Function.update db.index entity (assoc.erase id (db.index entity)) }

/-- The node at a path of `data.domains`. -/
def node (db : Db) (path : Path) : Option Json :=
  db.domains.bind (fun root => root.node_at path)

/-- Every pointer into the subtree at a path becomes dangling. -/
def release (db : Db) (path : Path) : Db :=
  { db with index := fun entity => (db.index entity).map (fun entry => (entry.1, entry.2.release path)) }

/-- What is read through a pointer. There is nothing to read in a freed node. -/
def read (db : Db) : Ptr → Option Json
  | .node path => db.node path
  | .loose value => some value
  | .dangling => none

/-- `ov_json_object_set` on a node of the tree. A replaced member is freed. -/
def object_set (db : Db) (path : Path) (key : String) (value : Json) : Bool × Db :=
  match db.node path with
  | some (.object _) =>
    (true, { db.release (path ++ [key]) with
      domains := db.domains.map (Json.update_at (fun node => node.object_put key value) path) })
  | _ => (false, db)

/-- `ov_json_object_del` on a node of the tree. -/
def object_del (db : Db) (path : Path) (key : String) : Bool × Db :=
  match db.node path with
  | some (.object _) =>
    (true, { db.release (path ++ [key]) with
      domains := db.domains.map (Json.update_at (fun node => node.object_erase key) path) })
  | _ => (false, db)

end Db

/-- The callbacks of `ov_json_object_for_each` that change the database. -/
abbrev Callback := String → Json → Db → Option (Bool × Db)

/-- The pattern `if (content && !ov_json_object_for_each(content, ..)) goto error`. -/
def for_each_if_set (content : Option Json) (f : Callback) (db : Db) : Option (Bool × Db) :=
  match content with
  | none => some (true, db)
  | some j => j.object_for_each f db

/-- The common body of `unindex_users`, `unindex_roles` and `unindex_loops`. -/
def unindex (entity : Entity) : Callback :=
  fun key _ db => some (true, db.index_del entity key)

def unindex_users : Callback := unindex .user

def unindex_roles : Callback := unindex .role

def unindex_loops : Callback := unindex .loop

def unindex_project (id : String) (db : Db) : Option (Bool × Db) :=
  match db.index_get .project id with
  | none => some (true, db)
  | some ptr =>
    match db.read ptr with
    | none => none
    | some v =>
      guarded.next (for_each_if_set (v.object_get "users") unindex_users db) fun db =>
      guarded.next (for_each_if_set (v.object_get "roles") unindex_roles db) fun db =>
      guarded.next (for_each_if_set (v.object_get "loops") unindex_loops db) fun db =>
      some (true, db.index_del .project id)

def unindex_projects : Callback := fun key _ db => unindex_project key db

def unindex_domain (id : String) (db : Db) : Option (Bool × Db) :=
  match db.node [id] with
  | none => some (true, db)
  | some domain =>
    guarded.next (for_each_if_set (domain.object_get "projects") unindex_projects db) fun db =>
    guarded.next (for_each_if_set (domain.object_get "users") unindex_users db) fun db =>
    guarded.next (for_each_if_set (domain.object_get "roles") unindex_roles db) fun db =>
    guarded.next (for_each_if_set (domain.object_get "loops") unindex_loops db) fun db =>
    some (true, db.index_del .domain id)

/-- The common body of `reindex_users`, `reindex_roles` and `reindex_loops` for
    the members of the object at a path. -/
def reindex (entity : Entity) (path : Path) : Callback :=
  fun key _ db => some (true, db.index_set entity key (.node (path ++ [key])))

def reindex_users (path : Path) : Callback := reindex .user path

def reindex_roles (path : Path) : Callback := reindex .role path

def reindex_loops (path : Path) : Callback := reindex .loop path

/-- The part that `reindex_projects` and `reindex_domains` share. -/
def reindex_scope (scope : Path) (val : Json) (db : Db) : Option (Bool × Db) :=
  guarded.next (for_each_if_set (val.object_get "loops") (reindex_loops (scope ++ ["loops"])) db) fun db =>
  guarded.next (for_each_if_set (val.object_get "roles") (reindex_roles (scope ++ ["roles"])) db) fun db =>
  for_each_if_set (val.object_get "users") (reindex_users (scope ++ ["users"])) db

def reindex_projects (path : Path) : Callback := fun key val db =>
  guarded.next (reindex_scope (path ++ [key]) val db) fun db =>
  some (true, db.index_set .project key (.node (path ++ [key])))

def reindex_domains : Callback := fun key val db =>
  guarded.next (reindex_scope [key] val db) fun db =>
  guarded.next (for_each_if_set (val.object_get "projects") (reindex_projects [key, "projects"]) db) fun db =>
  some (true, db.index_set .domain key (.node [key]))

def reindex_auth (db : Db) : Option (Bool × Db) :=
  match db.domains with
  | none => some (false, db)
  | some root => root.object_for_each reindex_domains db

end openvocs.vocs_db
