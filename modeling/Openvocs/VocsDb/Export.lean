import Openvocs.VocsDb.Run

namespace openvocs.vocs_db

open Json assoc

def has_password (user : Json) : Prop := (user.object_get "password").isSome

/-- The members of an object that is a member itself. -/
def members_of (key : String) (val : Json) : List (String × Json) :=
  ((val.object_get key).bind object_entries).getD []

/-- Inside the object of an entity the path leads to the object of a user. -/
inductive UserPath : Entity → Path → Prop where
  | user : UserPath .user []
  | project (user : String) : UserPath .project ["users", user]
  | domain (user : String) : UserPath .domain ["users", user]
  | project_of_domain (project user : String) : UserPath .domain ["projects", project, "users", user]

/-- No user of a domain or project has a password. -/
def NoPassword (val : Json) : Prop := ∀ user ∈ members_of "users" val, ¬ has_password user.2

/-- No user behind the first one that is not an object has a password. -/
def NoPasswordBehind (val : Json) : Prop :=
  ∀ user ∈ behind_stop Json.is_object (members_of "users" val), ¬ has_password user.2

/-- The users of a project are absent, or an object with nothing but objects. -/
def users_walked (val : Json) : Bool :=
  match val.object_get "users" with
  | none => true
  | some users => users.is_object && (members_of "users" val).all (fun user => user.2.is_object)

/-- The objects for which the clean-up of the export reaches every password. -/
def export_clean (entity : Entity) (src : Json) : Prop :=
  match entity with
  | .project => NoPasswordBehind src
  | .domain =>
    NoPasswordBehind src ∧
    (∀ project ∈ members_of "projects" src, NoPasswordBehind project.2) ∧
    ∀ project ∈ behind_stop users_walked (members_of "projects" src), NoPassword project.2
  | _ => True

/-- The objects of which a member holds no password of a user. -/
def key_clean (entity : Entity) (key : String) (src : Json) : Prop :=
  (entity = .project ∨ entity = .domain → key = "users" → NoPassword src) ∧
  (entity = .domain → key = "projects" → ∀ project ∈ members_of "projects" src, NoPassword project.2)

/-- The node an id of an index stands for. -/
def Stored (db : Db) (entity : Entity) (id : String) (src : Json) : Prop :=
  (db.index_get entity id).bind db.read = some src

theorem mem_members_of (key : String) (val : Json) (id : String) (child : Json) :
    (id, child) ∈ members_of key val ↔ val.node_at [key, id] = some child := by
  unfold members_of
  simp only [node_at]
  cases val.object_get key with
  | none => simp
  | some content =>
    simp only [Option.bind_some]
    cases hentries : content.object_entries with
    | none =>
      have hobject : content.is_object = false := by simpa [hentries] using (object_entries_isSome content).symm
      have hget : content.object_get id = none := by
        cases hget : content.object_get id with
        | none => rfl
        | some other => simp [is_object_of_object_get hget] at hobject
      simp [hget]
    | some members =>
      simp only [Option.getD_some]
      rw [mem_object_entries hentries]
      cases content.object_get id <;> simp

theorem no_password_iff (val : Json) :
    NoPassword val ↔ ∀ user, val.node_at ["users", user, "password"] = none := by
  have hpath : ∀ user, val.node_at ["users", user, "password"] =
      (val.node_at ["users", user]).bind (fun child => child.object_get "password") := by
    intro user
    rw [show ["users", user, "password"] = ["users", user] ++ ["password"] from rfl, node_at_append]
    simp only [node_at_singleton]
  constructor
  · intro h user
    rw [hpath]
    cases hnode : val.node_at ["users", user] with
    | none => rfl
    | some child =>
      have hnone := h (user, child) ((mem_members_of _ _ _ _).mpr hnode)
      simpa [has_password] using hnone
  rintro h ⟨user, child⟩ hmem
  have hnode := (mem_members_of _ _ _ _).mp hmem
  have hnone := h user
  rw [hpath, hnode] at hnone
  simpa [has_password] using hnone

theorem object_get_change_member (key : String) (f : Json → Bool × Json) (j : Json) (other : String) :
    (change_member key f j).2.object_get other =
      if other = key then (j.object_get key).map (fun child => (f child).2) else j.object_get other := by
  unfold change_member
  cases hget : j.object_get key with
  | none =>
    by_cases hother : other = key
    · simp [hother, hget]
    · simp [hother]
  | some child =>
    simp [object_get_object_put (is_object_of_object_get hget)]

theorem members_of_for_each_child {key : String} {f : Json → Bool × Json} {val val' : Json}
    (hval : val'.object_get key = (val.object_get key).map (fun child => (for_each_child f child).2))
    (P : String × Json → Prop) :
    (∀ entry ∈ members_of key val', P entry) ↔
      ∀ entry ∈ (map_while f (members_of key val)).2, P entry := by
  have hsame : ∀ entry, entry ∈ members_of key val' ↔
      entry ∈ (map_while f (members_of key val)).2 := by
    rintro ⟨id, child⟩
    rw [mem_members_of]
    simp only [node_at, hval, members_of]
    cases val.object_get key with
    | none => simp [map_while]
    | some content =>
      cases content with
      | object members =>
        simp only [Option.map_some, for_each_child, Option.bind_some, Json.object_get, object_entries,
          Option.getD_some, Option.bind_fun_some]
        refine (mem_iff_lookup_of_nodup ?_ id child).symm
        rw [map_while_keys]
        exact entries_keys_nodup members
      | _ => simp [for_each_child, Json.object_get, object_entries, map_while]
  simp only [hsame]

theorem not_has_password_erase (user : Json) : ¬ has_password (user.object_erase "password") := by
  simp [has_password, object_get_object_erase]

theorem no_password_after_walk {val val' : Json}
    (hval : val'.object_get "users" = (val.object_get "users").map
      (fun child => (for_each_child delete_password_for_export child).2)) :
    NoPassword val' ↔ NoPasswordBehind val := by
  unfold NoPassword NoPasswordBehind
  rw [members_of_for_each_child hval (fun user => ¬ has_password user.2)]
  have hwalk := forall_map_while (κ := String) (f := delete_password_for_export)
    (P := fun user => ¬ has_password user) (Q := fun _ => True)
    (fun user => by simp [delete_password_for_export, not_has_password_erase])
    (fun _ _ => trivial) (members_of "users" val)
  rw [hwalk]
  simp [delete_password_for_export]

theorem delete_password_in_project_ok (val : Json) : (delete_password_in_project val).1 = users_walked val := by
  unfold delete_password_in_project change_member users_walked members_of
  cases val.object_get "users" with
  | none => rfl
  | some users =>
    cases users with
    | object members =>
      simp only [for_each_child, Json.is_object, Bool.true_and, Option.bind_some, object_entries, Option.getD_some]
      exact map_while_ok _ _
    | _ => simp [for_each_child, Json.is_object]

theorem no_password_delete_password_in_project (val : Json) :
    NoPassword (delete_password_in_project val).2 ↔ NoPasswordBehind val := by
  refine no_password_after_walk ?_
  rw [delete_password_in_project, object_get_change_member, if_pos rfl]

theorem no_password_behind_of_no_password {val : Json} (h : NoPassword val) : NoPasswordBehind val := by
  intro user hmem
  exact h user ((List.dropWhile_sublist _).subset (List.mem_of_mem_tail hmem))

theorem clean_for_export_users (src : Json) : (clean_for_export src).object_get "users" =
      (src.object_get "users").map (fun child => (for_each_child delete_password_for_export child).2) := by
  simp [clean_for_export, object_get_change_member, object_get_object_erase]

theorem clean_for_export_projects (src : Json) : (clean_for_export src).object_get "projects" =
      (src.object_get "projects").map (fun child => (for_each_child delete_password_in_project child).2) := by
  simp [clean_for_export, object_get_change_member, object_get_object_erase]

theorem clean_for_export_password (src : Json) : (clean_for_export src).object_get "password" = none := by
  simp [clean_for_export, object_get_change_member, object_get_object_erase]

theorem projects_of_clean_for_export (src : Json) :
    (∀ project ∈ members_of "projects" (clean_for_export src), NoPassword project.2) ↔
      (∀ project ∈ members_of "projects" src, NoPasswordBehind project.2) ∧
      ∀ project ∈ behind_stop users_walked (members_of "projects" src), NoPassword project.2 := by
  rw [members_of_for_each_child (clean_for_export_projects src) (fun project => NoPassword project.2)]
  rw [forall_map_while (P := NoPassword) no_password_delete_password_in_project
    (fun _ => no_password_behind_of_no_password)]
  simp only [delete_password_in_project_ok]

theorem no_password_in_projects_iff (val : Json) :
    (∀ project ∈ members_of "projects" val, NoPassword project.2) ↔
      ∀ project user, val.node_at ["projects", project, "users", user, "password"] = none := by
  have hpath : ∀ project user, val.node_at ["projects", project, "users", user, "password"] =
      (val.node_at ["projects", project]).bind (fun child => child.node_at ["users", user, "password"]) := by
    intro project user
    rw [← node_at_append]
    rfl
  constructor
  · intro h project user
    rw [hpath]
    cases hnode : val.node_at ["projects", project] with
    | none => rfl
    | some child =>
      exact (no_password_iff child).mp (h (project, child) ((mem_members_of _ _ _ _).mpr hnode)) user
  rintro h ⟨project, child⟩ hmem
  refine (no_password_iff child).mpr ?_
  intro user
  have hnone := h project user
  rw [hpath, (mem_members_of _ _ _ _).mp hmem] at hnone
  exact hnone

theorem user_paths_iff (entity : Entity) (val : Json) :
    (∀ path, UserPath entity path → val.node_at (path ++ ["password"]) = none) ↔
      (entity = .user → val.object_get "password" = none) ∧
      (entity = .project ∨ entity = .domain → NoPassword val) ∧
      (entity = .domain → ∀ project ∈ members_of "projects" val, NoPassword project.2) := by
  rw [no_password_iff, no_password_in_projects_iff]
  constructor
  · intro h
    refine ⟨?_, ?_, ?_⟩
    · rintro rfl
      simpa [node_at] using h [] .user
    · rintro (rfl | rfl) user
      · exact h _ (.project user)
      · exact h _ (.domain user)
    rintro rfl project user
    exact h _ (.project_of_domain project user)
  rintro ⟨huser, husers, hprojects⟩ path hpath
  cases hpath with
  | user => simpa [node_at] using huser rfl
  | project user => exact husers (.inl rfl) user
  | domain user => exact husers (.inr rfl) user
  | project_of_domain project user => exact hprojects rfl project user

theorem clean_for_export_no_password_iff (entity : Entity) (src : Json) :
    (∀ path, UserPath entity path → (clean_for_export src).node_at (path ++ ["password"]) = none) ↔
      export_clean entity src := by
  rw [user_paths_iff, projects_of_clean_for_export, no_password_after_walk (clean_for_export_users src)]
  cases entity <;> simp [export_clean, clean_for_export_password]

/-- `ov_vocs_db_get_entity` hands out no password of a user. -/
def EntityExportsNoPassword (db : Db) (entity : Entity) (id : String) : Prop :=
  ∀ value, get_entity entity id db = some (some value) →
    ∀ path, UserPath entity path → value.node_at (path ++ ["password"]) = none

/-- `ov_vocs_db_get_entity_key` hands out no password of a user, neither as the
    value of a key nor inside of it. -/
def KeyExportsNoPassword (db : Db) (entity : Entity) (id key : String) : Prop :=
  ∀ value, get_entity_key entity id key db = some (some value) →
    (key = "password" → value = .null) ∧
    ∀ path, UserPath entity (key :: path) → value.node_at (path ++ ["password"]) = none

theorem entity_exports_no_password_iff (db : Db) (entity : Entity) (id : String) :
    EntityExportsNoPassword db entity id ↔ ∀ src, Stored db entity id src → export_clean entity src := by
  unfold EntityExportsNoPassword Stored get_entity
  cases db.index_get entity id with
  | none => simp
  | some ptr =>
    cases hread : db.read ptr with
    | none => simp [hread]
    | some src => simp [hread, clean_for_export_no_password_iff]

theorem key_paths_iff (entity : Entity) (key : String) (src : Json) : (∀ path, UserPath entity (key :: path) →
      ((src.object_get key).getD .null).node_at (path ++ ["password"]) = none) ↔ key_clean entity key src := by
  have hmember : ∀ first rest, ((src.object_get key).getD .null).node_at (first :: rest) =
      src.node_at (key :: first :: rest) := by
    intro first rest
    simp only [node_at]
    cases src.object_get key with
    | none => simp [Json.object_get]
    | some child => simp
  unfold key_clean
  rw [no_password_iff, no_password_in_projects_iff]
  constructor
  · intro h
    constructor
    · rintro (rfl | rfl) rfl user
      · exact (hmember _ _).symm.trans (h _ (.project user))
      · exact (hmember _ _).symm.trans (h _ (.domain user))
    rintro rfl rfl project user
    exact (hmember _ _).symm.trans (h _ (.project_of_domain project user))
  rintro ⟨husers, hprojects⟩ path hpath
  cases hpath with
  | project user => exact (hmember _ _).trans (husers (.inl rfl) rfl user)
  | domain user => exact (hmember _ _).trans (husers (.inr rfl) rfl user)
  | project_of_domain project user => exact (hmember _ _).trans (hprojects rfl rfl project user)

theorem key_exports_no_password_iff (db : Db) (entity : Entity) (id key : String) :
    KeyExportsNoPassword db entity id key ↔
      ∀ src, Stored db entity id src → key_clean entity key src := by
  by_cases hkey : key = "password"
  · subst hkey
    have hclean : ∀ src, key_clean entity "password" src := by simp [key_clean]
    have hpath : ∀ path, ¬ UserPath entity ("password" :: path) := by
      intro path hpath
      generalize hwhole : "password" :: path = whole at hpath
      cases hpath <;> simp at hwhole
    simp [KeyExportsNoPassword, get_entity_key, hclean, hpath]
  unfold KeyExportsNoPassword Stored get_entity_key
  cases db.index_get entity id with
  | none =>
    have hnull : ∀ path, Json.null.node_at (path ++ ["password"]) = none := by
      intro path
      cases path <;> rfl
    simp [hkey, hnull]
  | some ptr =>
    cases hread : db.read ptr with
    | none => simp [hkey, hread]
    | some src => simp [hkey, hread, key_paths_iff]

/-- Reading an entity or a key of it hands out no password of a user exactly when
    the clean-up walk reaches every password of the entity, and the key does not
    hold users with a password. -/
theorem read_exports_no_password_iff (db : Db) (entity : Entity) (id key : String) :
    EntityExportsNoPassword db entity id ∧ KeyExportsNoPassword db entity id key ↔
      ∀ src, Stored db entity id src → export_clean entity src ∧ key_clean entity key src := by
  rw [entity_exports_no_password_iff, key_exports_no_password_iff]
  constructor
  · rintro ⟨hentity, hkey⟩ src hsrc
    exact ⟨hentity src hsrc, hkey src hsrc⟩
  · intro h
    exact ⟨fun src hsrc => (h src hsrc).1, fun src hsrc => (h src hsrc).2⟩

def user_with_password : List Op :=
  [.create_entity .domain "d" .domain "d", .create_entity .user "u" .domain "d",
   .set_password "u" (.string "hash")]

/-- The key `users` of a domain shows the passwords of its users. -/
theorem users_key_shows_password : ¬ ∀ db, Reachable db → ∀ entity id key,
      EntityExportsNoPassword db entity id ∧ KeyExportsNoPassword db entity id key := by
  intro h
  have hshown : (run user_with_password Db.empty).any (fun db =>
      (get_entity_key .domain "d" "users" db).any (fun value => value.any (fun value =>
        (value.node_at ["u", "password"]).isSome))) = true := by
    decide +kernel
  simp only [Option.any_eq_true] at hshown
  obtain ⟨db, hrun, _, hget, value, rfl, hvalue⟩ := hshown
  have hclean := ((h db ⟨user_with_password, hrun⟩ .domain "d" "users").2 value hget).2 ["u"] (.domain "u")
  exact absurd hclean (Option.isSome_iff_ne_none.mp hvalue)

end openvocs.vocs_db
