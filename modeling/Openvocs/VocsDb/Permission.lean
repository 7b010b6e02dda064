import Openvocs.VocsDb.Content

namespace openvocs

/-- A 64 bit number as `ov_json_number` keeps it: the next double, in the middle the
    even one. -/
def double_of_uint64 (n : Nat) : Nat :=
  let unit := 2 ^ (n.log2 - 52)
  let low := n / unit * unit
  let rest := 2 * (n % unit)
  if rest < unit ∨ rest = unit ∧ n / unit % 2 = 0 then low else low + unit

/-- `put` of `ov_sip_permission.c`; a value that is not there is not set. -/
def put_string (object : Json) (key : String) (value : Option String) : Json :=
  match value with
  | none => object
  | some s => object.object_put key (.string s)

def sip_permission_to_json (p : SipPermission) : Option Json :=
  let permission := put_string (.object []) "caller" p.caller
  let permission := put_string permission "callee" p.callee
  let permission := put_string permission "loop" p.loop
  let permission := permission.object_put "valid_from" (.number (double_of_uint64 p.from_epoch))
  let permission := permission.object_put "valid_until" (.number (double_of_uint64 p.until_epoch))
  if (p.caller.isSome || p.callee.isSome) && p.loop.isSome then some permission else none

/-- A permission that could not be read has no field set. -/
def SipPermission.empty : SipPermission := ⟨none, none, none, 0, 0⟩

namespace vocs_db

/-- A database with its lock, which the thread that holds it cannot take once more. -/
structure LockedDb where
  db : Db
  locked : Bool := false

/-- The first entry of a whitelist that equals a permission. -/
def find_permission (p : SipPermission) (whitelist : List Json) : Option Nat :=
  whitelist.findIdx? (fun item =>
    sip_permission_equals p ((sip_permission_from_json item).getD SipPermission.empty))

/-- The indexed loop of a permission. -/
def permission_loop (p : SipPermission) (db : Db) : Option Ptr := p.loop.bind (db.index_get .loop)

/-- `ov_vocs_db_remove_permission`. The pointer `"/sip"` is used as a key. -/
def remove_permission (p : SipPermission) (st : LockedDb) : Option (Bool × LockedDb) :=
  if st.locked then some (false, st)
  else
    match permission_loop p st.db with
    | none => some (false, st)
    | some (.node path) =>
      match ((st.db.node path).bind (fun loop => loop.object_get "/sip")).bind (fun sip => sip.object_get "whitelist") with
      | none => some (false, st)
      | some whitelist =>
        match find_permission p whitelist.array_items with
        | none => some (false, st)
        | some i =>
          let items := whitelist.array_items.eraseIdx i
          some (true, { st with db := (st.db.object_set (path ++ ["/sip"]) "whitelist" (.array items)).2 })
    | some _ => none

/-- The sip object that `ov_vocs_db_add_permission` works on: the pointer `"/sip"` is
    used as a key here, too, but the new object is stored as `sip`. -/
def get_create_sip (path : Path) (db : Db) : Path × Db :=
  match (db.node path).bind (fun loop => loop.object_get "/sip") with
  | some _ => (path ++ ["/sip"], db)
  | none => (path ++ ["sip"], (db.object_set path "sip" (.object [])).2)

def get_create_whitelist (sip : Path) (db : Db) : Db :=
  match (db.node sip).bind (fun sip => sip.object_get "whitelist") with
  | some _ => db
  | none => (db.object_set sip "whitelist" (.array [])).2

def push_permission (p : SipPermission) (sip : Path) (db : Db) : Db :=
  match db.node (sip ++ ["whitelist"]), sip_permission_to_json p with
  | some (.array items), some perm =>
    if (find_permission p items).isSome then db
    else (db.object_set sip "whitelist" (.array (items ++ [perm]))).2
  | _, _ => db

/-- `ov_vocs_db_add_permission`. The lock is not released. -/
def add_permission (p : SipPermission) (st : LockedDb) : Option (Bool × LockedDb) :=
  if st.locked then some (false, st)
  else
    match permission_loop p st.db with
    | none => some (true, { st with locked := true })
    | some (.node path) =>
      let (sip, db) := get_create_sip path st.db
      let db := get_create_whitelist sip db
      some (true, { db := push_permission p sip db, locked := true })
    | some _ => none

/-- The whitelist of the loop at a path. -/
def whitelist_at (path : Path) (db : Db) : List Json :=
  ((db.node (path ++ ["sip", "whitelist"])).map Json.array_items).getD []

/-- What is expected of the permissions of a loop. -/
structure PermissionLaws (p : SipPermission) (path : Path) (st : LockedDb) : Prop where
  /-- An addition keeps the sip object, and the whitelist but for a new entry at its end. -/
  adds : ∃ st', add_permission p st = some (true, st') ∧
    (∀ key, key ≠ "whitelist" → st'.db.node (path ++ ["sip", key]) = st.db.node (path ++ ["sip", key])) ∧
    whitelist_at path st'.db = whitelist_at path st.db ++
      (if (find_permission p (whitelist_at path st.db)).isSome then [] else (sip_permission_to_json p).toList)
  /-- The permission can be removed afterwards. -/
  removes : ∀ st', add_permission p st = some (true, st') →
    ∃ st'', remove_permission p st' = some (true, st'') ∧
      ((find_permission p (whitelist_at path st.db)).isNone → whitelist_at path st''.db = whitelist_at path st.db)
  /-- A second addition changes nothing. -/
  idempotent : ∀ st', add_permission p st = some (true, st') →
    ∃ ok st'', add_permission p st' = some (ok, st'') ∧ st''.db = st'.db

section

variable {p : SipPermission} {st : LockedDb} {path : Path}

theorem add_permission_locks {ok : Bool} {st' : LockedDb} (hfree : st.locked = false)
    (hadd : add_permission p st = some (ok, st')) : ok = true ∧ st'.locked = true := by
  unfold add_permission at hadd
  rw [hfree] at hadd
  simp only [Bool.false_eq_true, if_false] at hadd
  split at hadd
  · cases hadd
    exact ⟨rfl, rfl⟩
  · cases hadd
    exact ⟨rfl, rfl⟩
  · cases hadd

theorem remove_permission_locked (p : SipPermission) (hlocked : st.locked = true) :
    remove_permission p st = some (false, st) := by
  unfold remove_permission
  rw [if_pos hlocked]

theorem node_object_set_self {db : Db} {members : List (String × Json)} (hnode : db.node path = some (.object members))
    (key : String) (value : Json) :
    (db.object_set path key value).2.node path = some ((Json.object members).object_put key value) := by
  have hobject : db.is_object_at path = true := (Db.is_object_at_iff db path).mpr ⟨members, hnode⟩
  rw [Db.object_set_of_object hobject]
  cases hroot : db.domains with
  | none => simp [Db.node, hroot] at hnode
  | some root =>
    simp only [Db.node, hroot, Option.bind_some] at hnode
    have hself := Json.node_at_update_at_append (fun node => node.object_put key value) path [] root
    rw [List.append_nil, hnode] at hself
    simpa [Db.node, Json.node_at] using hself

theorem add_permission_replaces_sip {ok : Bool} {st' : LockedDb} {perm : Json} (hfree : st.locked = false)
    (hindex : permission_loop p st.db = some (.node path)) (hloop : st.db.is_object_at path = true)
    (hkey : ¬ st.db.has (path ++ ["/sip"])) (hperm : sip_permission_to_json p = some perm)
    (hadd : add_permission p st = some (ok, st')) :
    st'.db.node (path ++ ["sip"]) = some (.object [("whitelist", .array [perm])]) := by
  have hpointer : (st.db.node path).bind (fun loop => loop.object_get "/sip") = none := by
    have hnone : st.db.node (path ++ ["/sip"]) = none := by simpa [Db.has] using hkey
    rw [Db.node_append] at hnone
    simpa [Json.node_at_singleton] using hnone
  unfold add_permission at hadd
  simp only [hfree, Bool.false_eq_true, if_false, hindex, get_create_sip, hpointer, Option.some.injEq,
    Prod.mk.injEq] at hadd
  rw [← hadd.2]
  have hsip : (st.db.object_set path "sip" (.object [])).2.node (path ++ ["sip"]) = some (.object []) :=
    Db.node_object_set_below hloop "sip" (.object []) []
  generalize (st.db.object_set path "sip" (.object [])).2 = db at hsip
  -- the new sip object has no whitelist either
  have hcreated : get_create_whitelist (path ++ ["sip"]) db =
      (db.object_set (path ++ ["sip"]) "whitelist" (.array [])).2 := by
    unfold get_create_whitelist
    rw [hsip]
    rfl
  have hempty := node_object_set_self hsip "whitelist" (.array [])
  rw [← hcreated] at hempty
  generalize get_create_whitelist (path ++ ["sip"]) db = db' at hempty
  have hlist : db'.node (path ++ ["sip"] ++ ["whitelist"]) = some (.array []) := by
    rw [Db.node_append, hempty]
    rfl
  have hpushed : push_permission p (path ++ ["sip"]) db' =
      (db'.object_set (path ++ ["sip"]) "whitelist" (.array [perm])).2 := by
    unfold push_permission
    rw [hlist, hperm]
    rfl
  rw [hpushed]
  exact node_object_set_self hempty "whitelist" (.array [perm])

theorem not_permission_laws (p : SipPermission) (path : Path) (db : Db) : ¬ PermissionLaws p path { db } := by
  intro hlaws
  obtain ⟨st', hadd, -, -⟩ := hlaws.adds
  obtain ⟨st'', hremove, -⟩ := hlaws.removes st' hadd
  rw [remove_permission_locked p (add_permission_locks rfl hadd).2] at hremove
  cases hremove

end

/-- The laws fail for every database with the lock free, every indexed loop with a sip
    object and every valid permission for it: nothing can be removed as long as the lock
    is held. Apart from that the sip object loses what was in it, unless the loop has a
    member that is called `/sip`. -/
theorem permission_laws_never (db : Db) (p : SipPermission) (loop : String) (path : Path) (sip : List (String × Json))
    (hloop : p.loop = some loop) (hvalid : (p.caller.isSome || p.callee.isSome) = true)
    (hindex : db.index_get .loop loop = some (.node path)) (hsip : db.node (path ++ ["sip"]) = some (.object sip)) :
    ¬ PermissionLaws p path { db } ∧
      (¬ db.has (path ++ ["/sip"]) → ∃ perm st', sip_permission_to_json p = some perm ∧
        add_permission p { db } = some (true, st') ∧
        st'.db.node (path ++ ["sip"]) = some (.object [("whitelist", .array [perm])])) := by
  have hpermission : permission_loop p db = some (.node path) := by
    rw [permission_loop, hloop]
    exact hindex
  refine ⟨not_permission_laws p path db, fun hkey => ?_⟩
  have hhas : db.has (path ++ ["sip"]) := by
    rw [Db.has, hsip]
    rfl
  obtain ⟨perm, hperm⟩ : ∃ perm, sip_permission_to_json p = some perm := by
    simp [sip_permission_to_json, hvalid, hloop]
  obtain ⟨st', hadd⟩ : ∃ st', add_permission p { db } = some (true, st') := by
    simp [add_permission, hpermission]
  exact ⟨perm, st', hperm, hadd, add_permission_replaces_sip rfl hpermission (Db.is_object_at_of_has "sip" hhas) hkey hperm hadd⟩

def caller_permission : SipPermission := ⟨some "+49", none, some "both", 0, 0⟩

def sip_db : Db where
  domains := some (.object [("d", .object [("loops", .object [("both", .object [("sip",
    .object [("roles", .object []), ("whitelist", .array [.object [("callee", .string "+1"), ("loop", .string "both")]])])])])])])
  index := fun entity => if entity = .loop then [("both", .node ["d", "loops", "both"])] else []

theorem permission_laws_never_called : ¬ PermissionLaws caller_permission ["d", "loops", "both"] { db := sip_db } :=
  (permission_laws_never sip_db caller_permission "both" ["d", "loops", "both"] _ rfl rfl rfl rfl).1

/-- After a permission was added it cannot be removed. -/
theorem added_permission_stays : ¬ ∀ db p path, permission_loop p db = some (.node path) → PermissionLaws p path { db } :=
  fun h => not_permission_laws _ _ _ (h sip_db caller_permission ["d", "loops", "both"] rfl)

end vocs_db

end openvocs
