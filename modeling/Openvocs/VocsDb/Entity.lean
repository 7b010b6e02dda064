import Openvocs.VocsDb.Basic

namespace openvocs.vocs_db

/-- The unindexing that `db_delete` starts with. -/
def unindex_entity (entity : Entity) (id : String) (db : Db) : Option (Bool × Db) :=
  match entity with
  | .domain => unindex_domain id db
  | .project => unindex_project id db
  | .loop => unindex_loops id .null db
  | .role => unindex_roles id .null db
  | .user => unindex_users id .null db

def db_delete (entity : Entity) (id : String) (db : Db) : Option (Bool × Db) :=
  match db.index_get entity id with
  | none => some (true, db)
  | some src =>
    match unindex_entity entity id db with
    | none => none
    | some (result, db) =>
      -- a failed unindexing is logged, the node is deleted all the same
      match src with
      | .dangling => none
      | .loose _ => some (result, db)
      | .node path =>
        let (deleted, db) := db.object_del path.dropLast id
        some (result && deleted, db)

/-- `delete_in_parent`: deletes `id` in the member `item` of an indexed node. -/
def delete_in_parent (entity : Entity) (item id key : String) (ptr : Ptr) (db : Db) :
    Option (Bool × Db) :=
  match db.read ptr with
  | none => none
  | some v =>
    match v.object_get item with
    | none => some (true, db)
    | some entry =>
      match ptr with
      | .node path => some (db.object_del (path ++ [item]) id)
      | .loose value =>
        some (entry.is_object, db.index_set entity key
          (.loose (Json.update_at (fun node => node.object_erase id) [item] value)))
      | .dangling => none

/-- `ov_dict_for_each` over an index dict with one of the `delete_*_in_parent`. -/
def delete_in_parents (entity : Entity) (item id : String) (db : Db) : Option (Bool × Db) :=
  assoc.walk (delete_in_parent entity item id) (db.index_entries entity) db

/-- The second part of `ov_vocs_db_delete_entity`. -/
def delete_references (entity : Entity) (id : String) (db : Db) : Option (Bool × Db) :=
  match entity with
  | .domain => unindex_domain id db
  | .project => delete_in_parents .domain "projects" id db
  | .loop => do
    let (in_domains, db) ← delete_in_parents .domain "loops" id db
    let (in_projects, db) ← delete_in_parents .project "loops" id db
    some (in_domains && in_projects, db)
  | .role => do
    let (in_domains, db) ← delete_in_parents .domain "roles" id db
    let (in_projects, db) ← delete_in_parents .project "roles" id db
    some (in_domains && in_projects, db)
  | .user => delete_in_parents .role "users" id db

def delete_entity (entity : Entity) (id : String) (db : Db) : Option (Bool × Db) := do
  let (result, db) ← db_delete entity id db
  let (references, db) ← delete_references entity id db
  some (result && references, db)

def get_create_parent (data : Path) (key : String) (db : Db) : Option Path × Db :=
  match (db.node data).bind (fun node => node.object_get key) with
  | some _ => (some (data ++ [key]), db)
  | none =>
    let (ok, db) := db.object_set data key (.object [])
    (if ok then some (data ++ [key]) else none, db)

/-- The node of the scope that `get_parent` works on. -/
def scope_node (scope : Scope) (scope_id : String) (db : Db) : Option (Option Path) :=
  match scope with
  | .domain => some (if (db.node [scope_id]).isSome then some [scope_id] else none)
  | .project =>
    match db.index_get .project scope_id with
    | none => some none
    | some (.node path) => some (some path)
    | some _ => none

def get_parent (entity : Entity) (scope : Scope) (scope_id : String) (db : Db) :
    Option (Option Path × Db) :=
  if entity = .domain then
    match scope with
    | .project => some (none, db)
    | .domain => some (some [], { db with domains := some (db.domains.getD (.object [])) })
  else
    match scope_node scope scope_id db with
    | none => none
    | some none => some (none, db)
    | some (some data) =>
      if entity = .project ∧ scope ≠ .domain then some (none, db)
      else some (get_create_parent data entity.container db)

/-- The object a new entity starts with. -/
def new_entity (id : String) : Json := .object [("id", .string id)]

/-- The role id that is not unique: every domain and project may have it. -/
def is_admin_role (entity : Entity) (id : String) : Prop := entity = .role ∧ id = "admin"

instance (entity : Entity) (id : String) : Decidable (is_admin_role entity id) :=
  inferInstanceAs (Decidable (_ ∧ _))

def create_entity (entity : Entity) (id : String) (scope : Scope) (scope_id : String) (db : Db) :
    Option (Bool × Db) :=
  if ¬ is_admin_role entity id ∧ (db.index_get entity id).isSome then some (false, db)
  else
    match get_parent entity scope scope_id db with
    | none => none
    | some (none, db) => some (false, db)
    | some (some parent, db) =>
      match db.object_set parent id (new_entity id) with
      | (false, db) => some (false, db)
      | (true, db) =>
        -- the reserved role is linked into the tree, but not into the index
        if is_admin_role entity id then some (true, db)
        else some (true, db.index_set entity id (.node (parent ++ [id])))

end openvocs.vocs_db
