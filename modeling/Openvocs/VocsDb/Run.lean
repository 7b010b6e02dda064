import Openvocs.VocsDb.Access

namespace openvocs.vocs_db

/-- The calls that change `data.domains` or the index. -/
inductive Op where
  | create_entity (entity : Entity) (id : String) (scope : Scope) (scope_id : String)
  | update_entity_item (entity : Entity) (id : String) (val : Json)
  | update_entity_key (entity : Entity) (id key : String) (val : Json)
  | delete_entity (entity : Entity) (id : String)
  | delete_entity_key (entity : Entity) (id key : String)
  | inject_auth (data : Json)
  | set_password (user : String) (hash : Json)
  | set_layout (role : String) (layout : Json)
  | set_recorded (loop : String) (on : Bool)
  | set_keyset_layout (domain name : String) (layout : Json)
  | add_project_admin (project user : String)
  | add_domain_admin (domain user : String)

/-- One call on a database: the flag it returns and the database after it. -/
def Op.step : Op → Db → Option (Bool × Db)
  | create_entity entity id scope scope_id => vocs_db.create_entity entity id scope scope_id
  | update_entity_item entity id val => fun db =>
    (vocs_db.update_entity_item entity id val db).map (fun r => (r.result, r.db))
  | update_entity_key entity id key val => vocs_db.update_entity_key entity id key val
  | delete_entity entity id => vocs_db.delete_entity entity id
  | delete_entity_key entity id key => vocs_db.delete_entity_key entity id key
  | inject_auth data => vocs_db.inject_auth data
  | set_password user hash => vocs_db.set_password user hash
  | set_layout role layout => vocs_db.set_layout role layout
  | set_recorded loop on => vocs_db.set_recorded loop on
  | set_keyset_layout domain name layout => vocs_db.set_keyset_layout domain name layout
  | add_project_admin project user => vocs_db.add_project_admin project user
  | add_domain_admin domain user => vocs_db.add_domain_admin domain user

/-- The five calls that edit entities. -/
def Op.edits : Op → Bool
  | create_entity .. | update_entity_item .. | update_entity_key .. | delete_entity .. | delete_entity_key .. => true
  | _ => false

/-- A run of calls. -/
def run : List Op → Db → Option Db
  | [], db => some db
  | op :: ops, db => (op.step db).bind (fun r => run ops r.2)

/-- The databases that calls lead to from a new one. -/
def Reachable (db : Db) : Prop := ∃ ops, run ops Db.empty = some db

theorem run_invariant (P : Db → Prop) (allowed : Db → Op → Prop)
    (hstep : ∀ db op ok db', P db → allowed db op → op.step db = some (ok, db') → P db')
    (ops : List Op) {db db' : Db} (hdb : P db)
    (hallowed : ∀ before op after mid, ops = before ++ op :: after → run before db = some mid → allowed mid op)
    (hrun : run ops db = some db') : P db' := by
  induction ops generalizing db with
  | nil =>
    simp only [run, Option.some.injEq] at hrun
    exact hrun ▸ hdb
  | cons op ops ih =>
    simp only [run, Option.bind_eq_some_iff] at hrun
    obtain ⟨⟨ok, next⟩, hop, hrest⟩ := hrun
    have hnext : P next := hstep db op ok next hdb (hallowed [] op ops db rfl rfl) hop
    refine ih hnext ?_ hrest
    intro before other after mid hops hmid
    refine hallowed (op :: before) other after mid (by simp [hops]) ?_
    simp [run, hop, hmid]

end openvocs.vocs_db
