import Openvocs.VocsDb.Placed

open List Option

namespace openvocs.vocs_db

open Db assoc

/-- The path of a user in the users of a role. -/
def grant_path (scope : Path) (role user : String) : Path := scope ++ ["roles", role, "users", user]

/-- The clean-up goes on behind a role: its users are absent or an object. -/
def walks_on (db : Db) (ptr : Ptr) : Bool :=
  (db.read ptr).any (fun role => (role.object_get "users").all Json.is_object)

/-- `db'` is `db` without some of its nodes; nothing else in the tree changed shape. -/
structure Cuts (removed : Path → Prop) (db db' : Db) : Prop where
  has_iff : ∀ path, db'.has path ↔ db.has path ∧ ¬ removed path
  is_object_at_eq : ∀ {path}, ¬ removed path → db'.is_object_at path = db.is_object_at path
  roles_eq : db'.index_entries .role = db.index_entries .role

theorem Cuts.refl (db : Db) : Cuts (fun _ => False) db db :=
  ⟨fun _ => by simp, fun _ => rfl, rfl⟩

theorem Cuts.trans {first second : Path → Prop} {db mid db' : Db} (h₁ : Cuts first db mid)
    (h₂ : Cuts second mid db') : Cuts (fun path => first path ∨ second path) db db' := by
  refine ⟨?_, ?_, h₂.roles_eq.trans h₁.roles_eq⟩
  · intro path
    rw [h₂.has_iff, h₁.has_iff, and_assoc, not_or]
  intro path hnot
  rw [not_or] at hnot
  rw [h₂.is_object_at_eq hnot.2, h₁.is_object_at_eq hnot.1]

theorem Cuts.congr {removed removed' : Path → Prop} {db db' : Db} (h : Cuts removed db db')
    (hsame : ∀ path, removed path ↔ removed' path) : Cuts removed' db db' := by
  have heq : removed = removed' := funext (fun path => propext (hsame path))
  exact heq ▸ h

theorem Placed.index_entries_release {db : Db} (h : Placed db) {entity : Entity} {path : Path}
    (hpath : ∀ id place, Sits db entity id place → ¬ path <+: place) :
    (db.release path).index_entries entity = db.index_entries entity := by
  unfold index_entries Db.release
  rw [entries_map_value]
  conv_rhs => rw [← List.map_id (assoc.entries (db.index entity))]
  refine map_congr_left ?_
  rintro ⟨id, ptr⟩ hmem
  have hget : db.index_get entity id = some ptr := (assoc.mem_entries_iff _ _ _).mp hmem
  cases h entity id ptr hget with
  | node hsits => simp [Ptr.release_of_not_below (hpath id _ hsits)]
  | loose value huser => rfl
  | dangling => rfl

theorem not_grant_prefix_place {scope place : Path} (role user : String) {id : String} {entity : Entity}
    (hscope : IsScope scope) (hplace : IsPlace entity id place) : ¬ grant_path scope role user <+: place := by
  cases hscope <;> cases hplace with
  | domain => simp [grant_path, cons_prefix_cons]
  | project => simp [grant_path, cons_prefix_cons]
  | item hitem hscope' id =>
    cases hscope' <;> simp [grant_path, cons_prefix_cons]

/-- The paths of the roles among the index entries of a list. -/
def role_path (scope : Path) (role : String) : Path := scope ++ ["roles", role]

theorem IsPlace.role_path {id : String} {path : Path} (h : IsPlace .role id path) :
    ∃ scope, IsScope scope ∧ path = role_path scope id := by
  cases h with
  | item hitem hscope id => exact ⟨_, hscope, rfl⟩

theorem Cuts.of_not_has {db : Db} {removed : Path} (h : ¬ db.has removed) :
    Cuts (fun path => removed <+: path) db db := by
  refine ⟨?_, fun _ => rfl, rfl⟩
  intro path
  constructor
  · intro hpath
    exact ⟨hpath, fun hbelow => h (has_of_below hbelow hpath)⟩
  · exact fun hpath => hpath.1

theorem Placed.cuts_object_del {db : Db} (h : Placed db) {path : Path} (hobject : db.is_object_at path = true)
    (key : String) (hroles : ∀ id place, Sits db .role id place → ¬ path ++ [key] <+: place) :
    Cuts (fun other => path ++ [key] <+: other) db (db.object_del path key).2 := by
  have hwrites := writes_object_del hobject key
  refine ⟨?_, fun hnot => hwrites.is_object_at_eq hnot, ?_⟩
  · intro other
    by_cases hbelow : path ++ [key] <+: other
    · obtain ⟨rest, rfl⟩ := hbelow
      have hgone := not_has_object_del_below hobject key rest
      simpa using hgone
    · simp [hwrites.has_iff hbelow, hbelow]
  rw [object_del_of_object hobject]
  exact h.index_entries_release hroles

private theorem takeWhile_congr {α : Type} {p q : α → Bool} {l : List α} (h : ∀ a ∈ l, p a = q a) :
    l.takeWhile p = l.takeWhile q := by
  induction l with
  | nil => rfl
  | cons a l ih =>
    have hrest := ih (fun b hb => h b (mem_cons_of_mem _ hb))
    simp [takeWhile_cons, h a mem_cons_self, hrest]

private theorem dropWhile_congr {α : Type} {p q : α → Bool} {l : List α} (h : ∀ a ∈ l, p a = q a) :
    l.dropWhile p = l.dropWhile q := by
  induction l with
  | nil => rfl
  | cons a l ih =>
    have hrest := ih (fun b hb => h b (mem_cons_of_mem _ hb))
    simp [dropWhile_cons, h a mem_cons_self, hrest]

section Walk

variable {db : Db} {user : String}

theorem delete_in_parent_role (user : String) (h : Placed db) {id : String} {path : Path}
    (hsits : Sits db .role id path) :
    (walks_on db (.node path) = true ∧ ∃ db', delete_in_parent .role "users" user id (.node path) db =
        some (true, db') ∧ Cuts (fun other => path ++ ["users", user] <+: other) db db') ∨
    (walks_on db (.node path) = false ∧
      delete_in_parent .role "users" user id (.node path) db = some (false, db)) := by
  obtain ⟨hplace, hhas⟩ := hsits
  obtain ⟨scope, hscope, rfl⟩ := hplace.role_path
  obtain ⟨role, hnode⟩ := isSome_iff_exists.mp hhas
  have husers : db.node (role_path scope id ++ ["users"]) = role.object_get "users" := node_member hnode _
  have happend : role_path scope id ++ ["users", user] = role_path scope id ++ ["users"] ++ [user] := by simp
  unfold walks_on delete_in_parent
  simp only [Db.read, hnode, any_some]
  cases hget : role.object_get "users" with
  | none =>
    refine .inl ⟨by simp, db, rfl, Cuts.of_not_has ?_⟩
    intro hgrant
    rw [happend] at hgrant
    have hup := has_of_has_append _ hgrant
    simp [has, husers, hget] at hup
  | some users =>
    cases hobject : users.is_object with
    | false =>
      refine .inr ⟨by simp [hobject], ?_⟩
      have hnot : db.is_object_at (role_path scope id ++ ["users"]) = false := by
        simp [is_object_at, husers, hget, hobject]
      simp only [object_del_of_not_object hnot]
    | true =>
      have his : db.is_object_at (role_path scope id ++ ["users"]) = true := by
        simp [is_object_at, husers, hget, hobject]
      refine .inl ⟨by simp [hobject], (db.object_del (role_path scope id ++ ["users"]) user).2, ?_, ?_⟩
      · rw [← his, ← object_del_ok db (role_path scope id ++ ["users"]) user]
      rw [happend]
      refine h.cuts_object_del his user ?_
      intro other place hplace
      have hnot := not_grant_prefix_place id user hscope hplace.1
      simpa [grant_path, role_path] using hnot

theorem walks_on_iff {path : Path} (hhas : db.has path) : walks_on db (.node path) = true ↔
      (db.has (path ++ ["users"]) → db.is_object_at (path ++ ["users"]) = true) := by
  obtain ⟨role, hnode⟩ := isSome_iff_exists.mp hhas
  unfold walks_on has is_object_at
  simp only [Db.read, hnode, any_some, node_member hnode "users"]
  cases role.object_get "users" <;> simp

/-- The grants of a user in the roles of a list of index entries. -/
def revoked (roles : List (String × Ptr)) (user : String) (path : Path) : Prop :=
  ∃ id role, (id, Ptr.node role) ∈ roles ∧ role ++ ["users", user] <+: path

theorem Cuts.walks_on_eq {removed : Path → Prop} {db' : Db} (hcut : Cuts removed db db')
    (hroles : ∀ id path, IsPlace .role id path → ¬ removed path ∧ ¬ removed (path ++ ["users"]))
    {id : String} {ptr : Ptr} (hptr : PtrOk db .role id ptr) :
    walks_on db' ptr = walks_on db ptr ∧ PtrOk db' .role id ptr := by
  cases hptr with
  | @node path hsits =>
    obtain ⟨hpath, husers⟩ := hroles id path hsits.1
    have hhas' : db'.has path := (hcut.has_iff path).mpr ⟨hsits.2, hpath⟩
    refine ⟨?_, .node ⟨hsits.1, hhas'⟩⟩
    rw [Bool.eq_iff_iff, walks_on_iff hhas', walks_on_iff hsits.2, hcut.has_iff, hcut.is_object_at_eq husers]
    simp [husers]
  | loose value huser => cases huser
  | dangling => exact ⟨rfl, .dangling⟩

theorem grant_not_prefix_role {first path : Path} {first_id id : String} (hfirst : IsPlace .role first_id first)
    (hplace : IsPlace .role id path) :
    ¬ first ++ ["users", user] <+: path ∧ ¬ first ++ ["users", user] <+: path ++ ["users"] := by
  obtain ⟨scope, hscope, rfl⟩ := hfirst.role_path
  obtain ⟨scope', hscope', rfl⟩ := hplace.role_path
  cases hscope <;> cases hscope' <;> simp [role_path, cons_prefix_cons]

theorem user_not_prefix_role {place path : Path} {user_id id : String} (huser : IsPlace .user user_id place)
    (hplace : IsPlace .role id path) (rest : Path) : ¬ place <+: path ++ rest := by
  obtain ⟨scope', hscope', rfl⟩ := hplace.role_path
  cases huser with
  | item _ hscope =>
    cases hscope <;> cases hscope' <;> simp [role_path, cons_prefix_cons, Entity.container]

theorem walk_roles (user : String) (roles : List (String × Ptr)) {db : Db} (h : Placed db)
    (hroles : ∀ entry ∈ roles, PtrOk db .role entry.1 entry.2) :
    ((∃ entry ∈ (roles.dropWhile (fun entry => walks_on db entry.2)).head?, entry.2 = .dangling) ∧
      walk (delete_in_parent .role "users" user) roles db = none) ∨
    ((∀ entry ∈ (roles.dropWhile (fun entry => walks_on db entry.2)).head?, entry.2 ≠ .dangling) ∧
      ∃ ok db', walk (delete_in_parent .role "users" user) roles db = some (ok, db') ∧
        Cuts (revoked (roles.takeWhile (fun entry => walks_on db entry.2)) user) db db') := by
  induction roles generalizing db with
  | nil =>
    refine .inr ⟨by simp, true, db, rfl, (Cuts.refl db).congr ?_⟩
    simp [revoked]
  | cons entry rest ih =>
    obtain ⟨id, ptr⟩ := entry
    have hrest := fun entry hmem => hroles entry (mem_cons_of_mem _ hmem)
    cases hroles (id, ptr) mem_cons_self with
    | loose value huser => cases huser
    | dangling =>
      have hstop : walks_on db .dangling = false := rfl
      refine .inl ⟨?_, by simp [walk, delete_in_parent, Db.read]⟩
      simp [hstop]
    | @node path hsits =>
      rcases delete_in_parent_role user h hsits with ⟨hon, next, hstep, hcut⟩ | ⟨hoff, hstep⟩
      · have hnext : Placed next := h.delete_in_parent (fun _ hptr => by cases hptr) hstep
        have hkept : ∀ entry ∈ rest, walks_on next entry.2 = walks_on db entry.2 ∧
            PtrOk next .role entry.1 entry.2 := by
          intro entry hmem
          exact hcut.walks_on_eq (fun _ _ hplace => grant_not_prefix_role hsits.1 hplace) (hrest entry hmem)
        have hdrop : rest.dropWhile (fun entry => walks_on next entry.2) =
            rest.dropWhile (fun entry => walks_on db entry.2) :=
          dropWhile_congr fun entry hmem => (hkept entry hmem).1
        have htake : rest.takeWhile (fun entry => walks_on next entry.2) =
            rest.takeWhile (fun entry => walks_on db entry.2) :=
          takeWhile_congr fun entry hmem => (hkept entry hmem).1
        have hwalk : walk (delete_in_parent .role "users" user) ((id, .node path) :: rest) db =
            walk (delete_in_parent .role "users" user) rest next := by
          simp [walk, hstep]
        rw [hwalk, dropWhile_cons, takeWhile_cons]
        simp only [hon, if_true]
        rw [← hdrop, ← htake]
        rcases ih hnext (fun entry hmem => (hkept entry hmem).2) with hundefined | ⟨hdefined, ok, last, hlast, hcuts⟩
        · exact .inl hundefined
        refine .inr ⟨hdefined, ok, last, hlast, (hcut.trans hcuts).congr ?_⟩
        intro other
        simp only [revoked, mem_cons, Prod.mk.injEq, Ptr.node.injEq]
        constructor
        · rintro (hfirst | ⟨other_id, role, hmem, hbelow⟩)
          · exact ⟨id, path, .inl ⟨rfl, rfl⟩, hfirst⟩
          · exact ⟨other_id, role, .inr hmem, hbelow⟩
        rintro ⟨other_id, role, ⟨rfl, rfl⟩ | hmem, hbelow⟩
        · exact .inl hbelow
        · exact .inr ⟨other_id, role, hmem, hbelow⟩
      · refine .inr ⟨?_, false, db, by simp [walk, hstep], ?_⟩
        · simp [hoff]
        refine (Cuts.refl db).congr ?_
        simp [revoked, hoff]

theorem db_delete_user (user : String) (h : Placed db) :
    (db.index_get .user user = some .dangling ∧ db_delete .user user db = none) ∨
    (db.index_get .user user ≠ some .dangling ∧ ∃ db', db_delete .user user db = some (true, db') ∧
      Cuts (fun path => ∃ place, db.index_get .user user = some (.node place) ∧ place <+: path) db db') := by
  have hindex : Cuts (fun _ => False) db (db.index_del .user user) :=
    ⟨fun path => by simp [has], fun _ => rfl, by simp [index_entries, Db.index_del]⟩
  unfold db_delete
  cases hget : db.index_get .user user with
  | none => exact .inr ⟨by simp, db, rfl, (Cuts.refl db).congr (by simp)⟩
  | some ptr =>
    simp only [unindex_entity, unindex_users, unindex]
    cases h .user user ptr hget with
    | dangling => exact .inl ⟨rfl, rfl⟩
    | loose value huser => exact .inr ⟨by simp, _, rfl, hindex.congr (by simp)⟩
    | @node place hsits =>
      have hplaced := h.index_del .user user
      have hlast := hsits.1.eq_dropLast_append
      have hobject : (db.index_del .user user).is_object_at place.dropLast = true := by
        refine is_object_at_of_has user ?_
        rw [← hlast]
        exact hsits.2
      have hcut := hplaced.cuts_object_del hobject user (by
        rw [← hlast]
        intro id role hrole hbelow
        obtain rfl := hsits.1.eq_of_below rfl hrole.1 hbelow
        cases (hsits.1.unique hrole.1).1)
      refine .inr ⟨by simp, ((db.index_del .user user).object_del place.dropLast user).2, ?_, ?_⟩
      · simp [object_del_ok, hobject]
      refine (hindex.trans hcut).congr ?_
      intro path
      rw [← hlast]
      simp

theorem delete_entity_user (user : String) (h : Placed db) : ((db.index_get .user user ≠ some .dangling ∧
      ∀ entry ∈ ((db.index_entries .role).dropWhile (fun entry => walks_on db entry.2)).head?,
        entry.2 ≠ .dangling) ∧
      ∃ ok db', delete_entity .user user db = some (ok, db') ∧
        Cuts (fun path => (∃ place, db.index_get .user user = some (.node place) ∧ place <+: path) ∨
          revoked ((db.index_entries .role).takeWhile (fun entry => walks_on db entry.2)) user path) db db') ∨
    (¬ (db.index_get .user user ≠ some .dangling ∧
      ∀ entry ∈ ((db.index_entries .role).dropWhile (fun entry => walks_on db entry.2)).head?,
        entry.2 ≠ .dangling) ∧ delete_entity .user user db = none) := by
  rcases db_delete_user user h with ⟨hfreed, hnone⟩ | ⟨hdefined, mid, hdelete, hcut⟩
  · exact .inr ⟨fun hdefined => hdefined.1 hfreed, by simp [delete_entity, hnone]⟩
  have hmid := h.db_delete hdelete
  have hkept : ∀ entry ∈ db.index_entries .role, walks_on mid entry.2 = walks_on db entry.2 ∧
      PtrOk mid .role entry.1 entry.2 := by
    rintro ⟨id, ptr⟩ hmem
    refine hcut.walks_on_eq ?_ (h .role id ptr ((assoc.mem_entries_iff _ _ _).mp hmem))
    intro id path hplace
    constructor
    · rintro ⟨place, hget, hbelow⟩
      exact user_not_prefix_role (h.sits hget).1 hplace [] (by simpa using hbelow)
    rintro ⟨place, hget, hbelow⟩
    exact user_not_prefix_role (h.sits hget).1 hplace ["users"] hbelow
  have hwalk := walk_roles user (db.index_entries .role) hmid (fun entry hmem => (hkept entry hmem).2)
  rw [dropWhile_congr (fun entry hmem => (hkept entry hmem).1),
    takeWhile_congr (fun entry hmem => (hkept entry hmem).1)] at hwalk
  have hreferences : delete_entity .user user db =
      (walk (delete_in_parent .role "users" user) (db.index_entries .role) mid) := by
    simp only [delete_entity, hdelete, delete_references, delete_in_parents, hcut.roles_eq,
      bind_eq_bind, bind_some, Bool.true_and]
    cases walk (delete_in_parent .role "users" user) (db.index_entries .role) mid <;> rfl
  rw [hreferences]
  rcases hwalk with ⟨⟨entry, hmem, hfreed⟩, hnone⟩ | ⟨hstop, ok, db', hsome, hcuts⟩
  · exact .inr ⟨fun hdefined => hdefined.2 entry hmem hfreed, hnone⟩
  · exact .inl ⟨⟨hdefined, hstop⟩, ok, db', hsome, hcut.trans hcuts⟩

end Walk

/-- What the deletion of a user is to achieve. -/
structure UserDeleted (db db' : Db) (user : String) : Prop where
  gone : ∀ path, ¬ Sits db' .user user path
  no_grant : ∀ scope role, IsScope scope → ¬ db'.has (grant_path scope role user)
  /-- also when a user with the id is created again -/
  not_authorized : ∀ again,
    (again = db' ∨ ∃ scope scope_id ok, create_entity .user user scope scope_id db' = some (ok, again)) →
    ∀ id, authorize user id again ≠ some true ∧ authorize_project_admin user id again ≠ some true ∧
      authorize_domain_admin user id again ≠ some true
  others : ∀ entity id path, Sits db entity id path → ¬ (entity = .user ∧ id = user) →
    Sits db' entity id path

/-- The databases in which the deletion of a user finds all there is of the user. -/
structure UserKnown (db : Db) (user : String) : Prop where
  only_place : ∀ path, Sits db .user user path → db.index_get .user user = some (.node path)
  not_freed : db.index_get .user user ≠ some .dangling
  roles_reached : ∀ scope role, IsScope scope → db.has (grant_path scope role user) →
    (role, Ptr.node (role_path scope role)) ∈
      (db.index_entries .role).takeWhile (fun entry => walks_on db entry.2)
  stop_not_freed : ∀ entry ∈ ((db.index_entries .role).dropWhile (fun entry => walks_on db entry.2)).head?,
    entry.2 ≠ .dangling

theorem not_authorized_of_no_grant {db : Db} (h : Placed db) {user : String}
    (hnone : ∀ scope role, IsScope scope → ¬ db.has (grant_path scope role user)) (id : String) :
    authorize user id db ≠ some true ∧ authorize_project_admin user id db ≠ some true ∧
      authorize_domain_admin user id db ≠ some true := by
  have hadmin : ∀ (entity : Entity) {id : String} {ptr : Ptr} {val : Json}, entity.is_item = false →
      db.index_get entity id = some ptr → db.read ptr = some val → json_is_admin_user val user = false := by
    intro entity id ptr val hscope hget hread
    cases h entity id ptr hget with
    | @node path hsits =>
      have hnot := hnone path "admin" (hsits.1.isScope hscope)
      simp only [Db.read] at hread
      rw [has, grant_path, node_append, hread] at hnot
      simpa [json_is_admin_user] using hnot
    | loose value huser =>
      subst huser
      cases hscope
    | dangling => cases hread
  have hdomain : ∀ id, authorize_domain_admin user id db ≠ some true := by
    intro id
    unfold authorize_domain_admin
    cases hget : db.index_get .domain id with
    | none => simp
    | some ptr =>
      cases hread : db.read ptr with
      | none => simp [hread]
      | some val => simp [hread, hadmin .domain rfl hget hread]
  refine ⟨?_, ?_, hdomain id⟩
  · unfold authorize
    split
    · rename_i role_data _ hget
      cases h .role id role_data hget with
      | @node path hsits =>
        obtain ⟨scope, hscope, rfl⟩ := hsits.1.role_path
        obtain ⟨role, hnode⟩ := isSome_iff_exists.mp hsits.2
        have hnot := hnone scope id hscope
        have happend : grant_path scope id user = role_path scope id ++ ["users", user] := by
          simp [grant_path, role_path]
        rw [has, happend, node_append, hnode] at hnot
        simpa [Db.read, hnode] using hnot
      | loose value huser => cases huser
      | dangling => simp [Db.read]
    · simp
  unfold authorize_project_admin
  cases hget : db.index_get .project id with
  | none => simp
  | some ptr =>
    cases hread : db.read ptr with
    | none => simp [hread]
    | some val =>
      simp only [hread, hadmin .project rfl hget hread, Bool.false_eq_true, if_false]
      split
      · split
        · simp
        · exact hdomain _
      · simp

theorem users_not_prefix_grant {data scope : Path} (hdata : IsScope data) (hscope : IsScope scope)
    (role user : String) (rest : Path) : ¬ data ++ "users" :: rest <+: grant_path scope role user := by
  cases hdata <;> cases hscope <;> simp [grant_path, cons_prefix_cons]

theorem no_grant_create_user {db db' : Db} (h : Placed db) {user : String} {scope : Scope} {scope_id : String}
    {ok : Bool} (hcreate : create_entity .user user scope scope_id db = some (ok, db'))
    {path : Path} (hpath : IsScope path) (role : String) (hgrant : db'.has (grant_path path role user)) :
    db.has (grant_path path role user) := by
  rcases create_entity_cases hcreate with ⟨_, rfl⟩ | ⟨_, parent, mid, hparent, hset⟩
  · exact hgrant
  rcases get_parent_eq_some hparent with ⟨hdomain, _⟩ | ⟨_, _, data, hnode, rfl, hcontent⟩
  · cases hdomain
  have hdata := (h.isScope_of_scope_node hnode).1
  have hmid : mid.has (grant_path path role user) → db.has (grant_path path role user) := by
    intro hmid
    unfold get_create_content at hcontent
    split at hcontent
    · cases hcontent
      exact hmid
    refine (has_object_set_iff db (.object []) ?_).mp (by rw [hcontent]; exact hmid)
    exact users_not_prefix_grant hdata hpath role user []
  rcases hset with ⟨_, _, rfl⟩ | ⟨_, _, rfl⟩
  · exact hmid hgrant
  refine hmid ((has_object_set_iff mid (new_entity user) ?_).mp hgrant)
  simpa [Entity.container] using users_not_prefix_grant hdata hpath role user [user]

/-- In every reachable database the deletion of a user removes the user with all
    grants, and nothing else, exactly when the user index knows the only object of
    the user and the walk over the role index comes to every role that lists the
    user before it stops. -/
theorem delete_user_revokes_iff {db : Db} (hdb : Reachable db) (user : String) :
    (∃ ok db', delete_entity .user user db = some (ok, db') ∧ UserDeleted db db' user) ↔
      UserKnown db user := by
  have h := hdb.placed
  have hrole : ∀ {id role}, (id, Ptr.node role) ∈
      (db.index_entries .role).takeWhile (fun entry => walks_on db entry.2) → IsPlace .role id role := by
    intro id role hmem
    exact (h.sits ((assoc.mem_entries_iff _ _ _).mp (takeWhile_subset _ hmem))).1
  rcases delete_entity_user user h with ⟨hdefined, ok, db', hdelete, hcut⟩ | ⟨hundefined, hnone⟩
  · rw [hdelete]
    constructor
    · rintro ⟨_, _, hsame, hdeleted⟩
      cases hsame
      refine ⟨?_, hdefined.1, ?_, hdefined.2⟩
      · intro path hsits
        have hremoved := hdeleted.gone path
        rw [Sits, hcut.has_iff] at hremoved
        rcases not_not.mp (fun hkept => hremoved ⟨hsits.1, hsits.2, hkept⟩) with ⟨place, hget, hbelow⟩ | ⟨id, role, hmem, hbelow⟩
        · rw [(h.sits hget).1.eq_of_below rfl hsits.1 hbelow]
          exact hget
        · obtain ⟨scope, hscope, rfl⟩ := (hrole hmem).role_path
          refine absurd ?_ (not_grant_prefix_place id user hscope hsits.1)
          simpa [grant_path, role_path] using hbelow
      · intro scope role hscope hhas
        have hremoved := hdeleted.no_grant scope role hscope
        rw [hcut.has_iff] at hremoved
        rcases not_not.mp (fun hkept => hremoved ⟨hhas, hkept⟩) with ⟨place, hget, hbelow⟩ | ⟨id, other, hmem, hbelow⟩
        · cases (h.sits hget).1 with
          | item _ hdata => exact absurd hbelow (users_not_prefix_grant hdata hscope role user [user])
        · obtain ⟨scope', hscope', rfl⟩ := (hrole hmem).role_path
          have hsame : scope' = scope ∧ id = role := by
            cases hscope <;> cases hscope' <;>
              simp_all [grant_path, role_path, cons_prefix_cons]
          rw [← hsame.1, ← hsame.2]
          exact hmem
    · intro hknown
      have hplaced := h.delete_entity hdelete
      have hgrants : ∀ scope role, IsScope scope → ¬ db'.has (grant_path scope role user) := by
        intro scope role hscope hhas
        rw [hcut.has_iff] at hhas
        refine hhas.2 (.inr ⟨role, role_path scope role, hknown.roles_reached scope role hscope hhas.1, ?_⟩)
        simp [grant_path, role_path]
      refine ⟨ok, db', rfl, ?_, hgrants, ?_, ?_⟩
      · rintro path ⟨hplace, hhas⟩
        rw [hcut.has_iff] at hhas
        exact hhas.2 (.inl ⟨path, hknown.only_place path ⟨hplace, hhas.1⟩, prefix_rfl⟩)
      · rintro again (rfl | ⟨scope, scope_id, ok, hcreate⟩)
        · exact not_authorized_of_no_grant hplaced hgrants
        · refine not_authorized_of_no_grant (hplaced.create_entity hcreate) ?_
          intro path role hpath hgrant
          exact hgrants path role hpath (no_grant_create_user hplaced hcreate hpath role hgrant)
      · rintro entity id path ⟨hplace, hhas⟩ hother
        refine ⟨hplace, (hcut.has_iff path).mpr ⟨hhas, ?_⟩⟩
        rintro (⟨place, hget, hbelow⟩ | ⟨other, role, hmem, hbelow⟩)
        · obtain rfl := (h.sits hget).1.eq_of_below rfl hplace hbelow
          exact hother (hplace.unique (h.sits hget).1)
        · obtain ⟨scope, hscope, rfl⟩ := (hrole hmem).role_path
          refine absurd ?_ (not_grant_prefix_place other user hscope hplace)
          simpa [grant_path, role_path] using hbelow
  · rw [hnone]
    constructor
    · rintro ⟨_, _, hsome, _⟩
      cases hsome
    · intro hknown
      exact absurd ⟨hknown.not_freed, hknown.stop_not_freed⟩ hundefined

def user_as_domain_admin : List Op :=
  [.create_entity .domain "d" .domain "d", .create_entity .user "u" .domain "d", .add_domain_admin "d" "u"]

theorem delete_user_revokes_iff_domain_admin : ∃ db, Reachable db ∧
      ((∃ ok db', delete_entity .user "u" db = some (ok, db') ∧ UserDeleted db db' "u") ↔ UserKnown db "u") := by
  have hdefined : (run user_as_domain_admin Db.empty).isSome = true := by decide +kernel
  obtain ⟨db, hrun⟩ := isSome_iff_exists.mp hdefined
  have hdb : Reachable db := ⟨user_as_domain_admin, hrun⟩
  exact ⟨db, hdb, delete_user_revokes_iff hdb "u"⟩

/-- The role `admin` that `ov_vocs_db_add_domain_admin` creates is not in the role
    index: a deleted user stays the admin of the domain. -/
theorem deleted_user_stays_domain_admin :
    ¬ ∀ db, Reachable db → ∀ user, ∃ ok db', delete_entity .user user db = some (ok, db') ∧
      UserDeleted db db' user := by
  intro h
  have hstays : (run user_as_domain_admin Db.empty).any (fun db => (delete_entity .user "u" db).any (fun r =>
      authorize_domain_admin "u" "d" r.2 == some true)) = true := by
    decide +kernel
  simp only [Option.any_eq_true] at hstays
  obtain ⟨db, hrun, r, hdelete, hadmin⟩ := hstays
  obtain ⟨ok, db', hsame, hdeleted⟩ := h db ⟨user_as_domain_admin, hrun⟩ "u"
  rw [hdelete] at hsame
  cases hsame
  exact (hdeleted.not_authorized db' (.inl rfl) "d").2.2 (by simpa using hadmin)

end openvocs.vocs_db
