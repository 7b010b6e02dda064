import Openvocs.VocsDb.Consistency

open List Option

namespace openvocs.vocs_db

/-- A user is in the admin role of the domain or project at a path. -/
def lists_admin (db : Db) (scope : Path) (user : String) : Prop :=
  db.has (scope ++ ["roles", "admin", "users", user])

/-- The domain or project at a path contains an entity; a domain contains itself. -/
def is_containing (entity : Entity) (path scope : Path) : Prop :=
  IsScope scope ∧ scope <+: path ∧ (entity ≠ .domain → scope ≠ path)

/-- The user is an admin of a domain or project that contains the entity. -/
def is_admin_of (user : String) (entity : Entity) (id : String) (db : Db) : Prop :=
  ∃ path scope, db.index_get entity id = some (.node path) ∧ is_containing entity path scope ∧
    lists_admin db scope user

/-- The scopes that the id of a node leads to, by the shape of the node: a domain when
    the node has a member `projects`, else a project and the domain that the node
    around that project has the id of. -/
inductive LeadsTo (db : Db) (scope : Path) : Path → Prop where
  | domain {val : Json} {id : String} (hnode : db.node scope = some val)
      (hprojects : (val.object_get "projects").isSome = true) (hid : json_get_id val = some id)
      (hhas : db.has [id]) : LeadsTo db scope [id]
  | project {val : Json} {id domain : String} (hnode : db.node scope = some val)
      (hprojects : (val.object_get "projects").isSome = false) (hid : json_get_id val = some id)
      (hhas : db.has [domain, "projects", id]) : LeadsTo db scope [domain, "projects", id]
  | around {val around : Json} {id domain domain_id : String} (hnode : db.node scope = some val)
      (hprojects : (val.object_get "projects").isSome = false) (hid : json_get_id val = some id)
      (hhas : db.has [domain, "projects", id]) (haround : db.node [domain] = some around)
      (hdomain : json_get_id around = some domain_id) (hhas' : db.has [domain_id]) :
      LeadsTo db scope [domain_id]

/-- The scopes that are asked for an entity at a path. -/
def is_asked (db : Db) (entity : Entity) (path scope : Path) : Prop :=
  if entity = .domain then scope = path else LeadsTo db path.dropLast.dropLast scope

section Lookup

variable {db : Db} {user id : String}

theorem json_is_admin_user_iff (user : String) {scope : Path} {val : Json} (hnode : db.node scope = some val) :
    json_is_admin_user val user = true ↔ lists_admin db scope user := by
  simp only [json_is_admin_user, lists_admin, Db.has, Db.node_append, hnode, bind_some]

theorem Consistent.domain_get_iff (h : Consistent db) {ptr : Ptr} :
    db.index_get .domain id = some ptr ↔ ptr = .node [id] ∧ db.has [id] := by
  constructor
  · intro hget
    obtain ⟨path, rfl, hsits⟩ := h.settled .domain id ptr hget
    cases hsits.1 with
    | domain => exact ⟨rfl, hsits.2⟩
    | item himpossible => cases himpossible
  rintro ⟨rfl, hhas⟩
  exact (h.agree .domain id (fun hadmin => by cases hadmin.1) [id]).mpr ⟨.domain id, hhas⟩

theorem Consistent.project_get_iff (h : Consistent db) {ptr : Ptr} : db.index_get .project id = some ptr ↔
      ∃ domain, ptr = .node [domain, "projects", id] ∧ db.has [domain, "projects", id] := by
  constructor
  · intro hget
    obtain ⟨path, rfl, hsits⟩ := h.settled .project id ptr hget
    cases hsits.1 with
    | project domain => exact ⟨domain, rfl, hsits.2⟩
    | item himpossible => cases himpossible
  rintro ⟨domain, rfl, hhas⟩
  exact (h.agree .project id (fun hadmin => by cases hadmin.1) _).mpr ⟨.project domain id, hhas⟩

theorem authorize_domain_admin_iff (h : Consistent db) :
    authorize_domain_admin user id db = some true ↔ db.has [id] ∧ lists_admin db [id] user := by
  unfold authorize_domain_admin
  cases hget : db.index_get .domain id with
  | none =>
    have hnot : ¬ db.has [id] := by
      intro hhas
      rw [h.domain_get_iff.mpr ⟨rfl, hhas⟩] at hget
      cases hget
    simp [hnot]
  | some ptr =>
    obtain ⟨rfl, hhas⟩ := h.domain_get_iff.mp hget
    obtain ⟨val, hnode⟩ := isSome_iff_exists.mp hhas
    have hlists := json_is_admin_user_iff user hnode
    simp [Db.read, hnode, hhas, hlists]

theorem authorize_project_admin_iff (h : Consistent db) : authorize_project_admin user id db = some true ↔
      ∃ domain, db.has [domain, "projects", id] ∧ (lists_admin db [domain, "projects", id] user ∨
        ∃ around domain_id, db.node [domain] = some around ∧ json_get_id around = some domain_id ∧
          db.has [domain_id] ∧ lists_admin db [domain_id] user) := by
  unfold authorize_project_admin
  cases hget : db.index_get .project id with
  | none =>
    have hnot : ∀ domain, ¬ db.has [domain, "projects", id] := by
      intro domain hhas
      rw [h.project_get_iff.mpr ⟨domain, rfl, hhas⟩] at hget
      cases hget
    simp [hnot]
  | some ptr =>
    obtain ⟨domain, rfl, hhas⟩ := h.project_get_iff.mp hget
    obtain ⟨val, hnode⟩ := isSome_iff_exists.mp hhas
    have hup : db.has [domain] := Db.has_of_below (by simp [cons_prefix_cons]) hhas
    obtain ⟨around, haround⟩ := isSome_iff_exists.mp hup
    have honly : ∀ other, db.has [other, "projects", id] → other = domain := by
      intro other hother
      have hsame := h.project_get_iff.mpr ⟨other, rfl, hother⟩
      rw [hget] at hsame
      cases hsame
      rfl
    have hlists := json_is_admin_user_iff user hnode
    simp only [Db.read, hnode, List.dropLast, haround, getD_some]
    by_cases hadmin : json_is_admin_user val user = true
    · rw [if_pos hadmin]
      exact iff_of_true rfl ⟨domain, hhas, .inl (hlists.mp hadmin)⟩
    rw [if_neg hadmin]
    have hright : (∃ other, db.has [other, "projects", id] ∧ (lists_admin db [other, "projects", id] user ∨
        ∃ around domain_id, db.node [other] = some around ∧ json_get_id around = some domain_id ∧
          db.has [domain_id] ∧ lists_admin db [domain_id] user)) ↔
        ∃ domain_id, json_get_id around = some domain_id ∧ db.has [domain_id] ∧
          lists_admin db [domain_id] user := by
      constructor
      · rintro ⟨other, hother, hlisted⟩
        obtain rfl := honly other hother
        rcases hlisted with hlisted | ⟨around', domain_id, haround', hrest⟩
        · exact absurd (hlists.mpr hlisted) hadmin
        rw [haround] at haround'
        cases haround'
        exact ⟨domain_id, hrest⟩
      rintro ⟨domain_id, hrest⟩
      exact ⟨domain, hhas, .inr ⟨around, domain_id, haround, hrest⟩⟩
    rw [hright]
    cases hid : json_get_id around with
    | none => simp
    | some domain_id => simp [authorize_domain_admin_iff h]

theorem authorize_connection_for_id_iff (h : Consistent db) {entity : Entity} :
    authorize_connection_for_id user entity id db = some true ↔
      ∃ path scope, db.index_get entity id = some (.node path) ∧ is_asked db entity path scope ∧
        lists_admin db scope user := by
  unfold authorize_connection_for_id db_get_parent
  cases hget : db.index_get entity id with
  | none => simp
  | some ptr =>
    obtain ⟨path, rfl, hsits⟩ := h.settled entity id ptr hget
    have hasked : (∃ path' scope, some (Ptr.node path) = some (.node path') ∧ is_asked db entity path' scope ∧
        lists_admin db scope user) ↔ ∃ scope, is_asked db entity path scope ∧ lists_admin db scope user := by
      constructor
      · rintro ⟨path', scope, hsame, hrest⟩
        cases hsame
        exact ⟨scope, hrest⟩
      rintro ⟨scope, hrest⟩
      exact ⟨path, scope, rfl, hrest⟩
    rw [hasked]
    by_cases hentity : entity = .domain
    · subst hentity
      obtain ⟨hpath, hhas⟩ := h.domain_get_iff.mp hget
      cases hpath
      simp [is_asked, authorize_domain_admin_iff h, hhas]
    have hscope : db.has path.dropLast.dropLast := by
      refine Db.has_of_below ?_ hsits.2
      exact ( dropLast_prefix _).trans ( dropLast_prefix _)
    obtain ⟨val, hnode⟩ := isSome_iff_exists.mp hscope
    simp only [hentity, if_false, is_asked, hnode, getD_some]
    cases hid : json_get_id val with
    | none =>
      refine iff_of_false ?_ ?_
      · split <;> simp_all
      rintro ⟨scope, hleads, _⟩
      cases hleads <;> simp_all
    | some scope_id =>
      cases hprojects : (val.object_get "projects").isSome with
      | true =>
        simp only [if_true, authorize_domain_admin_iff h]
        constructor
        · rintro ⟨hhas, hlisted⟩
          exact ⟨[scope_id], .domain hnode hprojects hid hhas, hlisted⟩
        rintro ⟨scope, hleads, hlisted⟩
        cases hleads <;> simp_all
      | false =>
        simp only [Bool.false_eq_true, if_false, authorize_project_admin_iff h]
        constructor
        · rintro ⟨domain, hhas, hlisted | ⟨around, domain_id, haround, hdomain, hhas', hlisted⟩⟩
          · exact ⟨_, .project hnode hprojects hid hhas, hlisted⟩
          · exact ⟨_, .around hnode hprojects hid hhas haround hdomain hhas', hlisted⟩
        rintro ⟨scope, hleads, hlisted⟩
        cases hleads with
        | domain hnode' hprojects' hid' hhas' => simp_all
        | @project val' id' domain hnode' hprojects' hid' hhas' =>
          rw [hnode] at hnode'
          cases hnode'
          rw [hid] at hid'
          cases hid'
          exact ⟨domain, hhas', .inl hlisted⟩
        | @around val' around id' domain domain_id hnode' hprojects' hid' hhas' haround hdomain hhas'' =>
          rw [hnode] at hnode'
          cases hnode'
          rw [hid] at hid'
          cases hid'
          exact ⟨domain, hhas', .inr ⟨around, domain_id, haround, hdomain, hhas'', hlisted⟩⟩

end Lookup

/-- A foreign scope is harmless for a user: the user is no admin of it, or is an admin of
    a scope that contains the entity as well. -/
def foreign_scopes_harmless (user : String) (entity : Entity) (id : String) (db : Db) : Prop :=
  ∀ path scope, db.index_get entity id = some (.node path) → is_asked db entity path scope →
    ¬ is_containing entity path scope → lists_admin db scope user → is_admin_of user entity id db

/-- Who is authorized for an entity is an admin of a scope that contains it, exactly when
    the scopes that are asked instead are harmless. -/
theorem authorize_sound_iff {db : Db} (h : Consistent db) (user : String) (entity : Entity) (id : String) :
    (authorize_connection_for_id user entity id db = some true → is_admin_of user entity id db) ↔
      foreign_scopes_harmless user entity id db := by
  rw [authorize_connection_for_id_iff h]
  constructor
  · intro hsound path scope hget hasked _ hlisted
    exact hsound ⟨path, scope, hget, hasked, hlisted⟩
  · rintro hharmless ⟨path, scope, hget, hasked, hlisted⟩
    by_cases hcontaining : is_containing entity path scope
    · exact ⟨path, scope, hget, hcontaining, hlisted⟩
    · exact hharmless path scope hget hasked hcontaining hlisted

/-- A domain `x`, and a project `x` of another domain, which has the admin `u`. -/
def shared_id : List Op :=
  [.create_entity .domain "x" .domain "x", .create_entity .user "v" .domain "x",
    .create_entity .domain "d" .domain "d", .create_entity .project "x" .domain "d",
    .update_entity_key .project "x" "roles"
      (.object [("admin", .object [("users", .object [("u", .null)])])])]

theorem shared_id_admissible {op : Op} (hop : op ∈ shared_id) (db : Db) : op.changes_entities ∧ op.admissible db := by
  have hcreate : ∀ entity id scope scope_id, ¬ is_admin_role entity id →
      (Op.create_entity entity id scope scope_id).admissible db :=
    fun entity id scope scope_id hnot hadmin => absurd hadmin hnot
  simp only [shared_id, mem_cons, not_mem_nil, or_false] at hop
  rcases hop with rfl | rfl | rfl | rfl | rfl
  · exact ⟨trivial, hcreate _ _ _ _ (by decide)⟩
  · exact ⟨trivial, hcreate _ _ _ _ (by decide)⟩
  · exact ⟨trivial, hcreate _ _ _ _ (by decide)⟩
  · exact ⟨trivial, hcreate _ _ _ _ (by decide)⟩
  refine ⟨.inr (.inl rfl), ?_⟩
  intro _ hkey
  simp at hkey

theorem shared_id_consistent {db : Db} (hrun : run shared_id Db.empty = some db) : Consistent db := by
  refine run_invariant Consistent (fun _ op => op ∈ shared_id) ?_ shared_id consistent_empty ?_ hrun
  · intro db op ok db' hdb hop hstep
    obtain ⟨hchanges, hadmissible⟩ := shared_id_admissible hop db
    obtain ⟨_, _, hsame, hdb'⟩ := (step_consistent_iff hdb hchanges).mpr hadmissible
    rw [hstep] at hsame
    cases hsame
    exact hdb'
  intro before op after mid hops _
  rw [hops]
  simp

theorem authorize_sound_iff_shared_id : ∃ db, run shared_id Db.empty = some db ∧ Consistent db ∧
      ((authorize_connection_for_id "u" .role "admin" db = some true → is_admin_of "u" .role "admin" db) ↔
        foreign_scopes_harmless "u" .role "admin" db) := by
  have hrun : (run shared_id Db.empty).isSome = true := by decide +kernel
  obtain ⟨db, hdb⟩ := isSome_iff_exists.mp hrun
  have hconsistent := shared_id_consistent hdb
  exact ⟨db, hdb, hconsistent, authorize_sound_iff hconsistent "u" .role "admin"⟩

/-- The admin of the project `x` is authorized for a user of the domain `x`, which has no
    member `projects` yet. -/
theorem shared_id_authorizes_foreign_admin : ¬ ∀ db, Consistent db → ∀ user entity id,
      authorize_connection_for_id user entity id db = some true → is_admin_of user entity id db := by
  intro h
  have hfacts : (run shared_id Db.empty).any (fun db =>
      decide (authorize_connection_for_id "u" .user "v" db = some true) &&
      (db.node ["x", "users", "v"]).isSome &&
      (db.node ["x", "roles", "admin", "users", "u"]).isNone) = true := by decide +kernel
  obtain ⟨db, hrun, hfacts⟩ := Option.any_eq_true .. |>.mp hfacts
  simp only [Bool.and_eq_true, decide_eq_true_eq, isNone_iff_eq_none] at hfacts
  obtain ⟨⟨hauthorized, huser⟩, hnone⟩ := hfacts
  have hget : db.index_get .user "v" = some (.node ["x", "users", "v"]) :=
    ((shared_id_consistent hrun).agree .user "v" (by decide) _).mpr ⟨.item rfl (.domain "x") "v", huser⟩
  obtain ⟨path, scope, hpath, ⟨hscope, hbelow, _⟩, hlisted⟩ :=
    h db (shared_id_consistent hrun) "u" .user "v" hauthorized
  rw [hget] at hpath
  cases hpath
  cases hscope with
  | domain domain =>
    simp only [cons_prefix_cons, nil_prefix, and_true] at hbelow
    subst hbelow
    simp [lists_admin, Db.has, hnone] at hlisted
  | project => simp [cons_prefix_cons] at hbelow

end openvocs.vocs_db
