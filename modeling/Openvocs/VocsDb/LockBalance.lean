import Openvocs.Lib.Flow
import Openvocs.VocsDb.Permission

/-!
The bodies keep the statements that decide about the lock, in the order of the source.
-/

namespace openvocs.vocs_db

open flow

/-- The labels of the source, and `state` and `verified` for the ends of `inject_auth`
    and `ov_vocs_db_verify_entity_item` within their callers. -/
inductive Label where
  | done | error | state | verified
  deriving DecidableEq, Repr

/-- What an operation tests before it jumps. -/
inductive Test where
  | null_argument | is_id_key | is_password_key | volume_above_100 | copy_failed | set_failed | out_of_memory
  | no_index | unknown_domain | unknown_project | unknown_user | unknown_role | unknown_loop | unknown_item
  | is_domain | id_in_use | no_parent | no_state | no_layout | no_sip | no_roles | no_permission | no_whitelist
  | found_domain | found_project | found_user | found_role | found_loop
  | verification_failed | is_state_type | is_other_type
  deriving DecidableEq, Repr

/-- The work on the data, and an event that is sent when the lock is free again. -/
inductive Action where
  | work | trigger_send
  deriving DecidableEq, Repr

abbrev Body := List (Stmt Test Action Label)

def goto_if_any (tests : List Test) (label : Label) : Body := tests.map (fun test => .goto_if test label)

/-- The body of most operations: the checks before the lock, and the tests after which
    there is nothing more to do. In some operations the label `error` follows the
    release of the lock directly and both return the same. -/
def locked_body (checks tests : List Test) : Body :=
  goto_if_any checks .error ++ [.lock .error] ++ goto_if_any tests .done ++
    [.act .work, .label .done, .unlock, .ret, .label .error, .ret]

/-- Here an event follows. -/
def triggering_body (checks tests : List Test) : Body :=
  goto_if_any checks .error ++ [.lock .error] ++ goto_if_any tests .done ++
    [.act .work, .label .done, .unlock, .act .trigger_send, .ret, .label .error, .ret]

/-- The public operations on a database, in the order of the source. -/
inductive Operation where
  | dump | get_parent | get_entity | get_entity_domain | get_entity_key | delete_entity | create_entity
  | update_entity_key | send_vocs_trigger | delete_entity_key | verify_entity_item | update_entity_item
  | inject | eject | set_password | authenticate | authorize | get_permission | authorize_domain_admin | authorize_project_admin
  | add_project_admin | add_domain_admin | get_admin_domains | get_admin_projects | get_user_roles
  | get_role_loops | get_loops | get_user_role_loops | set_state | get_state | get_multicast_group | set_volume
  | get_volume | get_layout | set_layout | check_id_exists | check_entity_id_exists | set_keyset_layout
  | get_keyset_layout | get_user_data | set_user_data | get_recorded_loops | set_recorded | get_sip
  | sip_allow_callout | sip_allow_callend | get_all_loops | get_all_loops_incl_domain | remove_permission
  | add_permission | set_persistance | get_highest_port
  deriving DecidableEq, Repr

def verify_entity_item_body : Body := locked_body [.null_argument] []

/-- `inject_auth` and `inject_state`. -/
def inject_data_body : Body := locked_body [] []

namespace Operation

def body : Operation → Body
  | dump => locked_body [.null_argument] []
  | get_parent => locked_body [.null_argument] [.no_index, .unknown_item, .is_domain]
  | get_entity => locked_body [.null_argument, .no_index] [.unknown_item]
  | get_entity_domain =>
    locked_body [.null_argument] [.unknown_item, .no_parent, .no_parent, .no_parent, .out_of_memory]
  | get_entity_key => locked_body [.null_argument] [.is_password_key, .unknown_item]
  | delete_entity => locked_body [.null_argument] []
  | create_entity => locked_body [.null_argument] [.id_in_use, .no_parent, .set_failed, .set_failed]
  | update_entity_key => triggering_body [.null_argument, .is_id_key] [.unknown_item]
  | send_vocs_trigger => [.goto_if .null_argument .error, .act .trigger_send, .ret, .label .error, .ret]
  | delete_entity_key => locked_body [.null_argument, .is_id_key] [.unknown_item]
  | verify_entity_item => verify_entity_item_body
  | update_entity_item =>
    -- the verification takes and releases the lock on its own
    inline .verified verify_entity_item_body ++ [.label .verified] ++
      triggering_body [.verification_failed] [.unknown_item]
  | inject =>
    [.goto_if .null_argument .error, .goto_if .is_state_type .state, .goto_if .is_other_type .error] ++
      inject_data_body ++ [.label .state] ++ inject_data_body
  | eject => locked_body [.null_argument] []
  | set_password => locked_body [.null_argument] [.unknown_user]
  | authenticate => locked_body [.null_argument] [.unknown_user]
  | authorize => locked_body [.null_argument] [.unknown_user, .unknown_role]
  | get_permission => locked_body [.null_argument] [.unknown_loop, .no_permission]
  | authorize_domain_admin => locked_body [.null_argument] []
  | authorize_project_admin => locked_body [.null_argument] []
  | add_project_admin => locked_body [.null_argument] [.unknown_project]
  | add_domain_admin => locked_body [.null_argument] [.unknown_domain]
  | get_admin_domains => locked_body [.null_argument] []
  | get_admin_projects => locked_body [.null_argument] []
  | get_user_roles => locked_body [.null_argument] []
  | get_role_loops => locked_body [.null_argument] []
  | get_loops => locked_body [.null_argument] []
  | get_user_role_loops => locked_body [.null_argument] []
  | set_state => locked_body [.null_argument] [.no_state]
  | get_state => locked_body [.null_argument] [.no_state]
  | get_multicast_group => locked_body [.null_argument] []
  | set_volume => locked_body [.volume_above_100, .null_argument] [.no_state]
  | get_volume => locked_body [.null_argument] [.no_state]
  | get_layout => locked_body [.null_argument] [.unknown_role]
  | set_layout => locked_body [.null_argument, .copy_failed] [.unknown_role]
  | check_id_exists =>
    locked_body [.null_argument] [.found_domain, .found_project, .found_user, .found_role, .found_loop]
  | check_entity_id_exists => locked_body [.null_argument, .no_index] []
  | set_keyset_layout => locked_body [.null_argument] [.unknown_domain, .no_layout, .copy_failed, .set_failed]
  | get_keyset_layout => locked_body [.null_argument] [.unknown_domain, .no_layout, .copy_failed]
  | get_user_data => locked_body [.null_argument] [.no_state]
  | set_user_data => locked_body [.null_argument] [.no_state, .copy_failed, .set_failed]
  | get_recorded_loops => locked_body [.null_argument] [.out_of_memory]
  | set_recorded => locked_body [.null_argument] [.unknown_loop]
  | get_sip => locked_body [.null_argument] []
  | sip_allow_callout => locked_body [.null_argument] [.unknown_loop, .no_sip, .no_roles, .no_permission]
  | sip_allow_callend => locked_body [.null_argument] [.unknown_loop, .no_sip, .no_roles]
  | get_all_loops => locked_body [.null_argument] []
  | get_all_loops_incl_domain => locked_body [.null_argument] []
  | remove_permission => locked_body [.null_argument] [.unknown_loop, .no_sip, .no_whitelist]
  | add_permission =>
    -- there is no release at the label `done`
    [.goto_if .null_argument .error, .lock .error, .goto_if .unknown_loop .done, .act .work, .label .done, .ret,
      .label .error, .ret]
  | set_persistance => [.goto_if .null_argument .error, .act .work, .ret, .label .error, .ret]
  | get_highest_port => locked_body [.null_argument] []

/-- A call that adds a permission to a database. -/
def Adds {σ : Type} (op : Operation) (m : Meaning Test Action σ) (s : σ) : Prop :=
  op = add_permission ∧ m.test .null_argument s = false

variable {σ : Type}

theorem leaves_of_ne {op : Operation} (hop : op ≠ add_permission) : leaves op.body {} {} = true := by
  cases op with
  | add_permission => exact absurd rfl hop
  | _ => rfl

theorem exits_of_held (op : Operation) (blocked : Bool) :
    (exits op.body none { locked := true, blocked }).all (fun lock => lock.locked) = true := by
  cases blocked <;> cases op <;> rfl

variable (m : Meaning Test Action σ)

theorem exec_of_held (op : Operation) {st : σ × Lock} (hlocked : st.2.locked = true) :
    (exec m op.body none st).2.locked = true := by
  obtain ⟨s, locked, blocked⟩ := st
  obtain rfl : locked = true := hlocked
  exact List.all_eq_true.mp (exits_of_held op blocked) _ (exec_mem_exits m op.body none s _)

theorem exec_add_permission (s : σ) :
    (exec m add_permission.body none (s, {})).2 = { locked := !m.test .null_argument s } := by
  cases hnull : m.test .null_argument s with
  | true => simp [body, exec, hnull]
  | false => cases hloop : m.test .unknown_loop s <;> simp [body, exec, hnull, hloop]

theorem exec_of_free_iff (op : Operation) (s : σ) :
    (exec m op.body none (s, {})).2 = {} ↔ ¬ op.Adds m s := by
  by_cases hop : op = add_permission
  · subst hop
    rw [exec_add_permission]
    cases hnull : m.test .null_argument s <;> simp [Adds, hnull]
  have hleaves := exec_of_leaves m (leaves_of_ne hop) s
  exact ⟨fun _ hadds => hop hadds.1, fun _ => hleaves⟩

end Operation

/-- A call that finds the lock free leaves it free if and only if it is no addition of a
    permission, and without such additions a whole run of calls finds it free each time.
    After an addition the lock is held for good. -/
theorem lock_free_when {σ : Type} (m : Meaning Test Action σ) (op : Operation) (s : σ)
    (run : List (Operation × Meaning Test Action σ)) :
    ((exec m op.body none (s, {})).2 = {} ↔ ¬ op.Adds m s) ∧
      ((∀ call ∈ run, ∀ s, ¬ call.1.Adds call.2 s) →
        ∀ st ∈ calls (run.map (fun call => (call.1.body, call.2))) (s, {}), st.2 = {}) ∧
      (op.Adds m s → ∀ st ∈ calls (run.map (fun call => (call.1.body, call.2))) (exec m op.body none (s, {})),
        st.2.locked = true) := by
  refine ⟨Operation.exec_of_free_iff m op s, fun hrun => ?_, fun hadds => ?_⟩
  · refine calls_keep (P := fun st => st.2 = {}) (fun call hcall st hfree => ?_) rfl
    obtain ⟨⟨op, m⟩, hmem, rfl⟩ := List.mem_map.mp hcall
    obtain ⟨s, lock⟩ := st
    obtain rfl : lock = {} := hfree
    exact (Operation.exec_of_free_iff m op s).mpr (hrun (op, m) hmem s)
  · have hheld : (exec m op.body none (s, {})).2.locked = true := by
      obtain ⟨rfl, hnull⟩ := hadds
      rw [Operation.exec_add_permission, hnull]
      rfl
    refine calls_keep (P := fun st => st.2.locked = true) (fun call hcall st hlocked => ?_) hheld
    obtain ⟨⟨op, m⟩, -, rfl⟩ := List.mem_map.mp hcall
    exact Operation.exec_of_held m op hlocked

/-- The arguments are there, and every id is known. -/
def known_ids : Meaning Test Action Unit where
  test _ _ := false
  act _ s := s

theorem lock_free_when_authenticated :
    ∀ st ∈ calls ([(Operation.authenticate, known_ids), (.inject, known_ids)].map (fun call => (call.1.body, call.2)))
      ((), {}), st.2 = {} :=
  (lock_free_when known_ids .authenticate () [(.authenticate, known_ids), (.inject, known_ids)]).2.1
    (by simp [Operation.Adds])

/-- An authentication fails after a permission was added. -/
theorem lock_not_released : ¬ ∀ (op : Operation) (m : Meaning Test Action Unit) (s : Unit),
    (exec m op.body none (s, {})).2.locked = false ∧
      (exec m Operation.authenticate.body none (exec m op.body none (s, {}))).2.blocked = false :=
  fun h => absurd (h .add_permission known_ids ()).1 (by decide)

end openvocs.vocs_db
