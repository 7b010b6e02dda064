import Openvocs.VocsDb.UserState

open List Option

namespace openvocs.vocs_db

open Json

/-- A walk over the index of the loops that adds what `entry` makes of a loop, if
    anything, to the result. It is `none` when a freed node is read. -/
def export_loops (entry : String → Ptr → Option (Option Json)) (db : Db) : Option Json :=
  (db.index_entries .loop).foldlM
    (fun out loop => (entry loop.1 loop.2).map fun
      | none => out
      | some copy => out.object_put loop.1 copy)
    (.object [])

/-- `itm` of the exports. -/
def permission_item (role : Json) : Json :=
  match role with
  | .bool true => .string (permission_to_string .send)
  | _ => .string (permission_to_string .recv)

def put_if_absent (key : String) (value j : Json) : Json :=
  if (j.object_get key).isSome then j else j.object_put key value

/-- What the two exports make of a loop with the role. -/
def copy_for_export (key : String) (loop_data role : Json) : Json :=
  let copy := (loop_data.object_erase "users").object_erase "roles"
  let copy := copy.object_put "permission" (permission_item role)
  put_if_absent "name" (.string key) (put_if_absent "type" (.string "audio") copy)

def add_loop_for_export (role : String) (db : Db) (key : String) (value : Ptr) : Option (Option Json) :=
  (db.read value).map fun loop_data =>
    ((loop_data.object_get "roles").bind fun roles => roles.object_get role).map (copy_for_export key loop_data)

def get_role_loops (role : String) (db : Db) : Option Json := export_loops (add_loop_for_export role db) db

/-- The settings of the user and the layout in an exported loop. -/
def add_user_settings (key : String) (settings layout : Option Json) (copy : Json) : Json :=
  let state := (settings.bind fun settings => settings.object_get "state").getD (.string (permission_to_string .none))
  let volume := (settings.bind fun settings => settings.object_get "volume").getD (.number 50)
  let copy := (copy.object_put "state" state).object_put "volume" volume
  match layout.bind fun layout => layout.object_get key with
  | some position => copy.object_put "layout_position" position
  | none => copy

/-- `layout` of `add_user_loop_for_export`. -/
def get_role_layout (role : String) (db : Db) : Option (Option Json) :=
  match db.index_get .role role with
  | none => some none
  | some role_data => (db.read role_data).map fun role_data => role_data.object_get "layout"

def add_user_loop_for_export (user role : String) (state : Dataset) (db : Db) (key : String) (value : Ptr) :
    Option (Option Json) :=
  (get_role_layout role db).bind fun layout =>
    (add_loop_for_export role db key value).map fun copy =>
      copy.map (add_user_settings key (state.get_loop_settings user role key) layout)

def get_user_role_loops (user role : String) (state : Dataset) (db : Db) : Option Json :=
  export_loops (add_user_loop_for_export user role state db) db

/-- The value under `roles` of a loop. -/
def role_value (role loop : String) (db : Db) : Option Json :=
  ((db.index_get .loop loop).bind db.read).bind fun loop_data => loop_data.node_at ["roles", role]

def is_bool : Json → Bool
  | .bool _ => true
  | _ => false

section

variable {db : Db} {entry : String → Ptr → Option (Option Json)}

theorem foldlM_put_spec (loops : List (String × Ptr)) (hnodup : (loops.map Prod.fst).Nodup)
    (hdefined : ∀ loop ∈ loops, (entry loop.1 loop.2).isSome = true) (out : Json) (hout : out.is_object = true) :
    ∃ result, loops.foldlM (fun out loop => (entry loop.1 loop.2).map fun
        | none => out
        | some copy => out.object_put loop.1 copy) out = some result ∧
      ∀ key, result.object_get key =
        match (loops.lookup key).bind fun ptr => (entry key ptr).join with
        | some copy => some copy
        | none => out.object_get key := by
  induction loops generalizing out with
  | nil => exact ⟨out, rfl, fun _ => rfl⟩
  | cons loop loops ih =>
    obtain ⟨id, ptr⟩ := loop
    obtain ⟨hnew, hrest⟩ := nodup_cons.mp hnodup
    obtain ⟨made, hmade⟩ := isSome_iff_exists.mp (hdefined (id, ptr) mem_cons_self)
    have hmade' : entry id ptr = some made := hmade
    have habsent : loops.lookup id = none := by
      by_contra hsome
      obtain ⟨other, hother⟩ := ne_none_iff_exists'.mp hsome
      have hmem := (assoc.mem_iff_lookup_of_nodup hrest id other).mpr hother
      exact hnew (List.mem_map.mpr ⟨(id, other), hmem, rfl⟩)
    have hdefined' := fun loop hmem => hdefined loop (mem_cons_of_mem _ hmem)
    cases made with
    | none =>
      obtain ⟨result, hfold, hget⟩ := ih hrest hdefined' out hout
      refine ⟨result, by simpa [hmade'] using hfold, fun key => ?_⟩
      rw [hget key, assoc.lookup_cons_eq]
      by_cases hkey : key = id
      · subst hkey
        simp [habsent, hmade']
      · simp [hkey]
    | some copy =>
      have hput : (out.object_put id copy).is_object = true := by rw [is_object_object_put, hout]
      obtain ⟨result, hfold, hget⟩ := ih hrest hdefined' _ hput
      refine ⟨result, by simpa [hmade'] using hfold, fun key => ?_⟩
      rw [hget key, assoc.lookup_cons_eq, object_get_object_put hout]
      by_cases hkey : key = id
      · subst hkey
        simp [habsent, hmade']
      · simp [hkey]

theorem foldlM_put_defined {loops : List (String × Ptr)} {out result : Json}
    (h : loops.foldlM (fun out loop => (entry loop.1 loop.2).map fun
        | none => out
        | some copy => out.object_put loop.1 copy) out = some result) :
    ∀ loop ∈ loops, (entry loop.1 loop.2).isSome = true := by
  induction loops generalizing out with
  | nil => exact fun loop hmem => absurd hmem not_mem_nil
  | cons first loops ih =>
    simp only [foldlM_cons, bind_eq_bind, bind_eq_some_iff, map_eq_some_iff] at h
    obtain ⟨next, ⟨made, hmade, _⟩, hrest⟩ := h
    intro loop hmem
    obtain rfl | hmem := mem_cons.mp hmem
    · rw [hmade]
      rfl
    · exact ih hrest loop hmem

theorem export_loops_spec : (export_loops entry db).isSome = true ↔
    ∀ loop ptr, db.index_get .loop loop = some ptr → (entry loop ptr).isSome = true := by
  have hentries : ∀ loop ptr, (loop, ptr) ∈ db.index_entries .loop ↔ db.index_get .loop loop = some ptr :=
    fun loop ptr => assoc.mem_entries_iff _ loop ptr
  constructor
  · intro h loop ptr hget
    obtain ⟨result, hresult⟩ := isSome_iff_exists.mp h
    exact foldlM_put_defined hresult (loop, ptr) ((hentries loop ptr).mpr hget)
  intro h
  obtain ⟨result, hresult, _⟩ := foldlM_put_spec (db.index_entries .loop) (assoc.entries_keys_nodup _)
    (fun loop hmem => h loop.1 loop.2 ((hentries loop.1 loop.2).mp hmem)) (.object []) rfl
  exact isSome_iff_exists.mpr ⟨result, hresult⟩

theorem object_get_export_loops {result : Json} (h : export_loops entry db = some result) (loop : String) :
    result.object_get loop = (db.index_get .loop loop).bind fun ptr => (entry loop ptr).join := by
  obtain ⟨other, hother, hget⟩ := foldlM_put_spec (db.index_entries .loop) (assoc.entries_keys_nodup _)
    (foldlM_put_defined h) (.object []) rfl
  obtain rfl : result = other := some.inj (h.symm.trans hother)
  rw [hget loop, Db.index_entries, assoc.lookup_entries]
  unfold Db.index_get
  split
  · rename_i copy hcopy
    exact hcopy.symm
  rename_i hnone
  rw [hnone]
  rfl

end

/-- A loop is in an exported list with a permission. -/
def lists (out : Json) (loop : String) (permission : Permission) : Prop :=
  ∃ copy, out.object_get loop = some copy ∧
    copy.object_get "permission" = some (.string (permission_to_string permission))

theorem object_get_put_if_absent {key other : String} (h : other ≠ key) (value j : Json) :
    (put_if_absent key value j).object_get other = j.object_get other := by
  unfold put_if_absent
  split
  · rfl
  cases hobject : j.is_object with
  | true => rw [object_get_object_put hobject, if_neg h]
  | false =>
    cases j with
    | object members => simp [Json.is_object] at hobject
    | _ => rfl

theorem is_object_put_if_absent (key : String) (value j : Json) : (put_if_absent key value j).is_object = j.is_object := by
  unfold put_if_absent
  split
  · rfl
  · rw [is_object_object_put]

theorem is_object_copy_for_export (key : String) (loop_data role : Json) :
    (copy_for_export key loop_data role).is_object = loop_data.is_object := by
  simp [copy_for_export, is_object_put_if_absent]

theorem permission_copy_for_export (key : String) {loop_data : Json} (h : loop_data.is_object = true) (role : Json) :
    (copy_for_export key loop_data role).object_get "permission" = some (permission_item role) := by
  have hobject : ((loop_data.object_erase "users").object_erase "roles").is_object = true := by simpa using h
  unfold copy_for_export
  rw [object_get_put_if_absent (by decide), object_get_put_if_absent (by decide), object_get_object_put hobject,
    if_pos rfl]

theorem permission_add_user_settings (key : String) (settings layout : Option Json) {copy : Json}
    (h : copy.is_object = true) :
    (add_user_settings key settings layout copy).object_get "permission" = copy.object_get "permission" := by
  have hstate : ∀ value, ((copy.object_put "state" value).is_object = true) := by
    intro value
    rw [is_object_object_put, h]
  have hvolume : ∀ state volume, (((copy.object_put "state" state).object_put "volume" volume).is_object = true) := by
    intro state volume
    rw [is_object_object_put, hstate]
  unfold add_user_settings
  dsimp only
  split
  · rw [object_get_object_put (hvolume _ _), if_neg (by decide), object_get_object_put (hstate _),
      if_neg (by decide), object_get_object_put h, if_neg (by decide)]
  · rw [object_get_object_put (hstate _), if_neg (by decide), object_get_object_put h, if_neg (by decide)]

/-- The permission that the exports read off the value. -/
def exported_permission (role : Json) : Permission :=
  match role with
  | .bool true => .send
  | _ => .recv

theorem permission_item_eq (role : Json) : permission_item role = .string (permission_to_string (exported_permission role)) := by
  cases role with
  | bool value => cases value <;> rfl
  | _ => rfl

theorem permission_to_string_injective {p q : Permission} (h : permission_to_string p = permission_to_string q) :
    p = q := by
  cases p <;> cases q <;> first | rfl | exact absurd h (by decide)

section

variable {role loop : String} {db : Db}

theorem node_at_roles (loop_data : Json) (role : String) :
    ((loop_data.object_get "roles").bind fun roles => roles.object_get role) = loop_data.node_at ["roles", role] := by
  simp [node_at]

theorem lists_iff {result : Json} {entry : String → Ptr → Option (Option Json)}
    (h : export_loops entry db = some result)
    (hentry : ∀ ptr made, entry loop ptr = some made → ∃ loop_data, db.read ptr = some loop_data ∧
      made.map (fun copy => copy.object_get "permission") =
        (loop_data.node_at ["roles", role]).map (fun value => some (permission_item value)))
    (permission : Permission) :
    lists result loop permission ↔
      (role_value role loop db).map exported_permission = some permission := by
  have hitem : ∀ value, some (permission_item value) = some (Json.string (permission_to_string permission)) ↔
      exported_permission value = permission := by
    intro value
    rw [permission_item_eq]
    constructor
    · intro heq
      simp only [some.injEq, Json.string.injEq] at heq
      exact permission_to_string_injective heq
    rintro rfl
    rfl
  have hdefined := export_loops_spec.mp (isSome_iff_exists.mpr ⟨result, h⟩)
  unfold lists role_value
  rw [object_get_export_loops h]
  cases hget : db.index_get .loop loop with
  | none => simp
  | some ptr =>
    obtain ⟨made, hmade⟩ := isSome_iff_exists.mp (hdefined loop ptr hget)
    obtain ⟨loop_data, hread, hpermission⟩ := hentry ptr made hmade
    simp only [bind_some, hmade, join_some, hread]
    cases hvalue : loop_data.node_at ["roles", role] with
    | none =>
      rw [hvalue, map_none, map_eq_none_iff] at hpermission
      simp [hpermission]
    | some value =>
      rw [hvalue, map_some] at hpermission
      obtain ⟨copy, rfl, hcopy⟩ := map_eq_some_iff.mp hpermission
      simp only [map_some, some.injEq, exists_eq_left']
      rw [hcopy]
      exact hitem value

theorem permission_add_loop_for_export {ptr : Ptr} {made : Option Json}
    (h : add_loop_for_export role db loop ptr = some made) :
    ∃ loop_data, db.read ptr = some loop_data ∧
      made = (loop_data.node_at ["roles", role]).map (copy_for_export loop loop_data) ∧
      made.map (fun copy => copy.object_get "permission") =
        (loop_data.node_at ["roles", role]).map (fun value => some (permission_item value)) := by
  obtain ⟨loop_data, hread, rfl⟩ := map_eq_some_iff.mp h
  rw [node_at_roles]
  refine ⟨loop_data, hread, rfl, ?_⟩
  cases hvalue : loop_data.node_at ["roles", role] with
  | none => rfl
  | some value =>
    obtain ⟨roles, hroles, _⟩ := bind_eq_some_iff.mp hvalue
    rw [map_some, map_some, map_some, permission_copy_for_export loop (is_object_of_object_get hroles)]

theorem lists_get_role_loops {out : Json} (h : get_role_loops role db = some out) (permission : Permission) :
    lists out loop permission ↔ (role_value role loop db).map exported_permission = some permission := by
  apply lists_iff h
  intro ptr made hmade
  obtain ⟨loop_data, hread, _, hpermission⟩ := permission_add_loop_for_export hmade
  exact ⟨loop_data, hread, hpermission⟩

theorem lists_get_user_role_loops {user : String} {state : Dataset} {out : Json}
    (h : get_user_role_loops user role state db = some out) (permission : Permission) :
    lists out loop permission ↔ (role_value role loop db).map exported_permission = some permission := by
  apply lists_iff h
  intro ptr made hmade
  obtain ⟨layout, _, hrest⟩ := bind_eq_some_iff.mp hmade
  obtain ⟨copy, hcopy, rfl⟩ := map_eq_some_iff.mp hrest
  obtain ⟨loop_data, hread, hmadeEq, hpermission⟩ := permission_add_loop_for_export hcopy
  refine ⟨loop_data, hread, ?_⟩
  rw [← hpermission, hmadeEq]
  cases hvalue : loop_data.node_at ["roles", role] with
  | none => rfl
  | some value =>
    obtain ⟨roles, hroles, _⟩ := bind_eq_some_iff.mp hvalue
    have hobject : (copy_for_export loop loop_data value).is_object = true := by
      rw [is_object_copy_for_export]
      exact is_object_of_object_get hroles
    simp only [map_some]
    rw [permission_add_user_settings _ _ _ hobject]

end

/-- Nothing that the exports read for the role has been freed. -/
structure NotFreed (role : String) (db : Db) : Prop where
  loops : ∀ loop ptr, db.index_get .loop loop = some ptr → (db.read ptr).isSome = true
  role : ∀ loop ptr, db.index_get .loop loop = some ptr →
    ∀ role_data, db.index_get .role role = some role_data → (db.read role_data).isSome = true

/-- The two exports and the check say the same about a loop: it is listed with exactly
    the permission that the check gives, unless that is `none`. -/
def Agrees (user role loop : String) (state : Dataset) (db : Db) : Prop :=
  ∃ permission out user_out, get_permission role loop db = some permission ∧ get_role_loops role db = some out ∧
    get_user_role_loops user role state db = some user_out ∧
    ∀ p, (lists out loop p ↔ permission = p ∧ p ≠ .none) ∧ (lists user_out loop p ↔ permission = p ∧ p ≠ .none)

section

variable {role loop : String} {db : Db}

theorem get_role_loops_isSome_iff : (get_role_loops role db).isSome = true ↔
    ∀ loop ptr, db.index_get .loop loop = some ptr → (db.read ptr).isSome = true := by
  unfold get_role_loops
  rw [export_loops_spec]
  simp [add_loop_for_export]

theorem get_role_layout_isSome_iff : (get_role_layout role db).isSome = true ↔
    ∀ role_data, db.index_get .role role = some role_data → (db.read role_data).isSome = true := by
  unfold get_role_layout
  cases db.index_get .role role with
  | none => simp
  | some role_data => simp

theorem get_user_role_loops_isSome_iff (user : String) (state : Dataset) :
    (get_user_role_loops user role state db).isSome = true ↔ NotFreed role db := by
  have hentry : ∀ loop ptr, (add_user_loop_for_export user role state db loop ptr).isSome = true ↔
      (get_role_layout role db).isSome = true ∧ (db.read ptr).isSome = true := by
    intro loop ptr
    unfold add_user_loop_for_export add_loop_for_export
    cases get_role_layout role db with
    | none => simp
    | some layout => simp
  unfold get_user_role_loops
  rw [export_loops_spec]
  constructor
  · intro h
    refine ⟨fun loop ptr hget => ((hentry loop ptr).mp (h loop ptr hget)).2, fun loop ptr hget => ?_⟩
    exact get_role_layout_isSome_iff.mp ((hentry loop ptr).mp (h loop ptr hget)).1
  intro h loop ptr hget
  refine (hentry loop ptr).mpr ⟨?_, h.loops loop ptr hget⟩
  exact get_role_layout_isSome_iff.mpr (h.role loop ptr hget)

/-- The permission that the check reads off the value. -/
def checked_permission : Option Json → Permission
  | some (.bool true) => .send
  | some (.bool false) => .recv
  | _ => .none

theorem get_permission_eq (h : NotFreed role db) :
    get_permission role loop db = some (checked_permission (role_value role loop db)) := by
  unfold get_permission role_value
  cases hget : db.index_get .loop loop with
  | none => rfl
  | some ptr =>
    obtain ⟨loop_data, hread⟩ := isSome_iff_exists.mp (h.loops loop ptr hget)
    simp only [bind_some, hread, map_some, some.injEq]
    rfl

theorem exported_eq_checked_iff (value : Option Json) :
    (∀ p, value.map exported_permission = some p ↔ checked_permission value = p ∧ p ≠ .none) ↔
      ∀ v, value = some v → is_bool v = true := by
  constructor
  · rintro h v rfl
    by_contra hbool
    have hrecv : exported_permission v = .recv ∧ checked_permission (some v) = .none := by
      cases v with
      | bool value => exact absurd rfl hbool
      | _ => exact ⟨rfl, rfl⟩
    have hsame := (h .recv).mp (by rw [map_some, hrecv.1])
    rw [hrecv.2] at hsame
    exact absurd hsame.1 (by decide)
  intro h p
  cases value with
  | none =>
    constructor
    · intro hnone
      cases hnone
    intro hp
    exact absurd hp.1.symm hp.2
  | some v =>
    have hbool := h v rfl
    cases v with
    | bool value =>
      cases value <;> simp only [map_some, some.injEq, exported_permission, checked_permission]
      · exact ⟨fun hp => ⟨hp, hp ▸ by decide⟩, And.left⟩
      · exact ⟨fun hp => ⟨hp, hp ▸ by decide⟩, And.left⟩
    | _ => cases hbool

end

/-- For every database, user, role and loop: the exports and the check agree if and only
    if nothing they read has been freed and the value of the role in the loop is a
    boolean, if there is one. -/
theorem export_agrees_iff (user role loop : String) (state : Dataset) (db : Db) :
    Agrees user role loop state db ↔
      NotFreed role db ∧ ∀ value, role_value role loop db = some value → is_bool value = true := by
  constructor
  · rintro ⟨permission, out, user_out, hpermission, hout, huser, hsame⟩
    have hfreed : NotFreed role db :=
      (get_user_role_loops_isSome_iff user state).mp (isSome_iff_exists.mpr ⟨user_out, huser⟩)
    refine ⟨hfreed, (exported_eq_checked_iff _).mp (fun p => ?_)⟩
    rw [get_permission_eq hfreed] at hpermission
    cases hpermission
    rw [← lists_get_role_loops hout]
    exact (hsame p).1
  · rintro ⟨hfreed, hbool⟩
    obtain ⟨out, hout⟩ := isSome_iff_exists.mp (get_role_loops_isSome_iff.mpr hfreed.loops)
    obtain ⟨user_out, huser⟩ :=
      isSome_iff_exists.mp ((get_user_role_loops_isSome_iff user state).mpr hfreed)
    refine ⟨_, out, user_out, get_permission_eq hfreed, hout, huser, fun p => ⟨?_, ?_⟩⟩
    · rw [lists_get_role_loops hout]
      exact (exported_eq_checked_iff _).mpr hbool p
    · rw [lists_get_user_role_loops huser]
      exact (exported_eq_checked_iff _).mpr hbool p

/-- A domain with a loop that has the string "yes" for a role. -/
def string_permission : Json :=
  .object [("d", .object [("loops", .object [("l", .object [("roles", .object [("r", .string "yes")])])])])]

/-- The loop is exported with the permission to listen, which the check does not give. -/
theorem string_listed_but_refused : ((inject_auth string_permission Db.empty).map fun next =>
      (get_permission "r" "l" next.2,
        ((get_role_loops "r" next.2).bind fun out => out.node_at ["l", "permission"]).bind Json.string_get,
        ((get_user_role_loops "u" "r" none next.2).bind fun out => out.node_at ["l", "permission"]).bind
          Json.string_get)) = some (some .none, some "recv", some "recv") := by
  decide +kernel

end openvocs.vocs_db
