import Openvocs.Json.GetSet
import Openvocs.Vocs.Basic

open List Option

namespace openvocs.vocs_db

open vocs (permission_from_string)

def permission_to_string : Permission → String
  | .recv => "recv"
  | .send => "send"
  | .none => "none"

def permission_from_json (val : Option Json) : Permission := permission_from_string (val.bind Json.string_get)

def json_number_get : Option Json → Int
  | some (.number n) => n
  | _ => 0

/-- A number as `uint8_t`; `none` where the conversion is not defined. -/
def to_uint8 (n : Int) : Option UInt8 := if 0 ≤ n ∧ n < 256 then some (UInt8.ofNat n.toNat) else none

/-- `data.state`, which is NULL at first. -/
abbrev Dataset := Option Json

namespace Dataset

/-- The state that a call writes to. -/
def root (self : Dataset) : Json := self.getD (.object [])

variable (self : Dataset)

/-- `get_set_loop`, with what is done to the settings of the loop. -/
def get_set_loop (user role loop : String) (f : Json → Bool × Json) : Bool × Dataset :=
  let (ok, root) := Json.get_set f [user, role, loop] self.root
  (ok, some root)

/-- `get_set_user`, with what is done to the object of the user. -/
def get_set_user (user : String) (f : Json → Bool × Json) : Bool × Dataset :=
  let (ok, root) := Json.get_set f [user] self.root
  (ok, some root)

def get_loop_settings (user role loop : String) : Option Json :=
  let u := self.bind fun state => state.object_get user
  let r := u.bind fun u => u.object_get role
  r.bind fun r => r.object_get loop

def set_state (user role loop : String) (state : Permission) : Bool × Dataset :=
  self.get_set_loop user role loop (Json.object_set "state" (.string (permission_to_string state)))

def get_state (user role loop : String) : Permission :=
  match self.get_loop_settings user role loop with
  | none => .none
  | some obj => permission_from_json (obj.object_get "state")

def set_volume (user role loop : String) (volume : UInt8) : Bool × Dataset :=
  if 100 < volume.toNat then (false, self)
  else self.get_set_loop user role loop (Json.object_set "volume" (.number volume.toNat))

def get_volume (user role loop : String) : Option UInt8 :=
  match self.get_loop_settings user role loop with
  | none => some 0
  | some obj => to_uint8 (json_number_get (obj.object_get "volume"))

/-- `ov_vocs_db_get_user_data`, which makes an object for the user as well. -/
def get_user_data (user : String) : Option Json × Dataset :=
  match self.get_set_user user (fun root => (true, root)) with
  | (false, state) => (none, state)
  | (true, state) => (some (((state.root.node_at [user]).bind (fun root => root.object_get "data")).getD (.object [])), state)

def set_user_data (user : String) (data : Json) : Bool × Dataset :=
  self.get_set_user user (Json.object_set "data" data)

/-- What stands at a path of the state. -/
def shown (path : Path) : Option Json := self.root.shown path

end Dataset

theorem permission_from_json_shallow (val : Option Json) :
    permission_from_json (val.map Json.shallow) = permission_from_json val := by
  cases val with
  | none => rfl
  | some j => cases j <;> rfl

theorem json_number_get_shallow (val : Option Json) : json_number_get (val.map Json.shallow) = json_number_get val := by
  cases val with
  | none => rfl
  | some j => cases j <;> rfl

theorem permission_from_json_to_string (state : Permission) :
    permission_from_json (some (.string (permission_to_string state))) = state := by
  cases state <;> rfl

namespace Dataset

variable (self : Dataset)

theorem get_loop_settings_eq (user role loop : String) :
    self.get_loop_settings user role loop = self.root.node_at [user, role, loop] := by
  cases self with
  | none => rfl
  | some state =>
    simp only [get_loop_settings, root, bind_some, getD_some, Json.node_at, bind_assoc]
    simp

theorem get_loop_settings_member (user role loop key : String) :
    ((self.get_loop_settings user role loop).bind fun obj => obj.object_get key) =
      self.root.node_at [user, role, loop, key] := by
  rw [get_loop_settings_eq, show [user, role, loop, key] = [user, role, loop] ++ [key] from rfl, Json.node_at_append]
  simp only [Json.node_at_singleton]

theorem get_state_eq (user role loop : String) :
    self.get_state user role loop = permission_from_json (self.shown [user, role, loop, "state"]) := by
  rw [shown, Json.shown, permission_from_json_shallow, ← get_loop_settings_member, get_state]
  cases self.get_loop_settings user role loop with
  | none => rfl
  | some obj => rfl

theorem get_volume_eq (user role loop : String) :
    self.get_volume user role loop = to_uint8 (json_number_get (self.shown [user, role, loop, "volume"])) := by
  rw [shown, Json.shown, json_number_get_shallow, ← get_loop_settings_member, get_volume]
  cases self.get_loop_settings user role loop with
  | none => rfl
  | some obj => rfl

theorem get_user_data_eq (user : String) : (self.get_user_data user).1 =
      if self.root.is_object then some ((self.root.node_at [user, "data"]).getD (.object [])) else none := by
  unfold get_user_data get_set_user
  cases hobject : self.root.is_object with
  | false => rw [Json.get_set_not_object hobject, if_neg (by decide)]
  | true =>
    have hok : (Json.get_set (fun root => (true, root)) [user] self.root).1 = true := by
      unfold Json.get_set
      cases self.root.object_get user with
      | some child => rfl
      | none => simp [hobject, Json.get_set]
    have hroot := @Json.get_set_cons _ user hobject (fun root => (true, root)) []
    dsimp only
    rw [hok]
    simp only [root, getD_some, if_true, some.injEq]
    simp only [root] at hroot hobject
    rw [hroot]
    simp only [Json.node_at, Json.object_get_object_put hobject, if_true, bind_some, Json.get_set]
    cases (Option.getD self (.object [])).object_get user with
    | none => rfl
    | some child => cases hdata : child.object_get "data" <;> simp [hdata]

end Dataset

/-- What can be asked about the state. -/
inductive Getter where
  | state (user role loop : String)
  | volume (user role loop : String)
  | user_data (user : String)

/-- An answer. The members of an object have no order, so user data are given as what
    they show at each path. -/
inductive Answer where
  | state (permission : Permission)
  | volume (volume : Option UInt8)
  | user_data (data : Option (Path → Option Json))

namespace Getter

def read (self : Dataset) : Getter → Answer
  | state user role loop => .state (self.get_state user role loop)
  | volume user role loop => .volume (self.get_volume user role loop)
  | user_data user => .user_data ((self.get_user_data user).1.map Json.shown)

/-- The paths that the answer depends on. -/
def reads : Getter → Path → Prop
  | state user role loop, path => path = [user, role, loop, "state"]
  | volume user role loop, path => path = [user, role, loop, "volume"]
  | user_data user, path => path = [] ∨ [user, "data"] <+: path

theorem shown_data {j : Json} (user : String) {rest : Path} :
    ((j.node_at [user, "data"]).getD (.object [])).shown rest =
      if (j.shown [user, "data"]).isSome then j.shown (user :: "data" :: rest) else (Json.object []).shown rest := by
  have hpath : j.shown (user :: "data" :: rest) = (j.node_at [user, "data"]).bind (fun data => data.shown rest) := by
    unfold Json.shown
    rw [show user :: "data" :: rest = [user, "data"] ++ rest from rfl, Json.node_at_append]
    cases j.node_at [user, "data"] with
    | none => rfl
    | some data => rfl
  rw [hpath]
  unfold Json.shown
  cases j.node_at [user, "data"] with
  | none => rfl
  | some data => rfl

theorem read_congr {before after : Dataset} (getter : Getter)
    (h : ∀ path, getter.reads path → after.shown path = before.shown path) :
    getter.read after = getter.read before := by
  cases getter with
  | state user role loop =>
    rw [read, read, Dataset.get_state_eq, Dataset.get_state_eq, h _ rfl]
  | volume user role loop =>
    rw [read, read, Dataset.get_volume_eq, Dataset.get_volume_eq, h _ rfl]
  | user_data user =>
    have hroot : after.root.is_object = before.root.is_object := by
      have hnil := h [] (.inl rfl)
      simp only [Dataset.shown, Json.shown_nil, some.injEq] at hnil
      revert hnil
      cases after.root <;> cases before.root <;> simp [Json.shallow, Json.is_object]
    have hdata : ∀ rest, after.root.shown (user :: "data" :: rest) = before.root.shown (user :: "data" :: rest) :=
      fun rest => h (user :: "data" :: rest) (.inr ⟨rest, rfl⟩)
    rw [read, read, Dataset.get_user_data_eq, Dataset.get_user_data_eq, hroot]
    split
    · simp only [map_some, Answer.user_data.injEq, some.injEq]
      funext rest
      rw [shown_data, shown_data, hdata rest, hdata []]
    · rfl

end Getter

inductive StateCall where
  | set_state (user role loop : String) (state : Permission)
  | set_volume (user role loop : String) (volume : UInt8)
  | set_user_data (user : String) (data : Json)
  | get_user_data (user : String)

namespace StateCall

/-- Whether a call succeeds, and the state after it. -/
def apply (self : Dataset) : StateCall → Bool × Dataset
  | set_state user role loop state => self.set_state user role loop state
  | set_volume user role loop volume => self.set_volume user role loop volume
  | set_user_data user data => self.set_user_data user data
  | get_user_data user => ((self.get_user_data user).1.isSome, (self.get_user_data user).2)

/-- The getter that a call sets, with the answer it is meant to have. -/
def written : StateCall → Option (Getter × Answer)
  | set_state user role loop state => some (.state user role loop, .state state)
  | set_volume user role loop volume => some (.volume user role loop, .volume (some volume))
  | set_user_data user data => some (.user_data user, .user_data (some data.shown))
  | get_user_data _ => none

/-- The calls that are not refused: what is on the way to the new value is an object,
    and a volume is at most 100. -/
def accepted (self : Dataset) : StateCall → Bool
  | set_state user role loop _ => Json.settable [user, role, loop] self.root
  | set_volume user role loop volume => decide (volume.toNat ≤ 100) && Json.settable [user, role, loop] self.root
  | set_user_data user _ => Json.settable [user] self.root
  | get_user_data _ => self.root.is_object

/-- The call gives its getter the new answer, and every other one answers as before. -/
structure Independent (before : Dataset) (call : StateCall) : Prop where
  written : (call.apply before).1 = true → ∀ w ∈ call.written, w.1.read (call.apply before).2 = w.2
  others : ∀ getter : Getter, (∀ w ∈ call.written, w.1 ≠ getter) → getter.read (call.apply before).2 = getter.read before
  refused : (call.apply before).1 = false → ∀ getter : Getter, getter.read (call.apply before).2 = getter.read before

/-- The settings of a role are apart from the data of the user: an accepted call for the
    role `data` sets what is there already, and new data of the user say about the
    loops of the role `data` what the old ones say. -/
def Apart (self : Dataset) (call : StateCall) : Prop :=
  match call with
  | set_state user role loop state => role = "data" → call.accepted self = true →
    self.shown [user, "data", loop, "state"] = some (.string (permission_to_string state))
  | set_volume user role loop volume => role = "data" → call.accepted self = true →
    self.shown [user, "data", loop, "volume"] = some (.number volume.toNat)
  | set_user_data user data => call.accepted self = true → ∀ loop,
    permission_from_json (data.shown [loop, "state"]) = self.get_state user "data" loop ∧
      to_uint8 (json_number_get (data.shown [loop, "volume"])) = self.get_volume user "data" loop
  | get_user_data _ => True

end StateCall

section

variable (self : Dataset) (user role loop key : String) (value : Json)

theorem get_set_loop_ok :
    (self.get_set_loop user role loop (Json.object_set key value)).1 = Json.settable [user, role, loop] self.root :=
  Json.get_set_ok key value [user, role, loop] self.root

theorem shown_get_set_loop (h : Json.settable [user, role, loop] self.root = true) :
    (self.get_set_loop user role loop (Json.object_set key value)).2.shown [user, role, loop, key] =
      some value.shallow := by
  have hbelow := Json.get_set_below key value [user, role, loop] h []
  show ((Json.get_set (Json.object_set key value) [user, role, loop] self.root).2.node_at
    ([user, role, loop] ++ [key])).map Json.shallow = _
  rw [hbelow]
  rfl

theorem read_get_set_loop (getter : Getter) (hself : ¬ getter.reads [user, role, loop, key])
    (hdata : getter = .user_data user → role ≠ "data") :
    getter.read (self.get_set_loop user role loop (Json.object_set key value)).2 = getter.read self := by
  apply Getter.read_congr
  intro path hreads
  show (Json.get_set (Json.object_set key value) [user, role, loop] self.root).2.shown path = self.root.shown path
  cases hok : Json.settable [user, role, loop] self.root with
  | false => exact Json.get_set_refused key value [user, role, loop] hok path
  | true =>
    have hobject : self.root.is_object = true := by
      simp only [Json.settable, Bool.and_eq_true] at hok
      exact hok.1
    have hother : ∀ {user' role' loop' key'}, [user', role', loop', key'] ≠ [user, role, loop, key] →
        (Json.get_set (Json.object_set key value) [user, role, loop] self.root).2.shown [user', role', loop', key'] =
          self.root.shown [user', role', loop', key'] := by
      intro user' role' loop' key' hne
      apply Json.get_set_unrelated
      · intro habove
        simpa using habove.length_le
      intro hbelow
      exact hne (hbelow.eq_of_length rfl).symm
    cases getter with
    | state user' role' loop' =>
      obtain rfl : path = [user', role', loop', "state"] := hreads
      exact hother (fun heq => hself heq.symm)
    | volume user' role' loop' =>
      obtain rfl : path = [user', role', loop', "volume"] := hreads
      exact hother (fun heq => hself heq.symm)
    | user_data user' =>
      obtain rfl | ⟨rest, rfl⟩ := hreads
      · rw [Json.get_set_above key value [user, role, loop] hok nil_prefix, Json.shown_nil, Json.shallow_of_is_object hobject]
      apply Json.get_set_unrelated
      · intro habove
        simp only [List.cons_append, nil_append, cons_prefix_cons] at habove
        exact hdata (by rw [habove.1]) habove.2.1.symm
      intro hbelow
      simp only [List.cons_append, nil_append, cons_prefix_cons] at hbelow
      exact hdata (by rw [hbelow.1]) hbelow.2.1

theorem read_get_set_loop_stored (hvalue : value.is_object = false)
    (h : self.shown [user, role, loop, key] = some value) (getter : Getter) :
    getter.read (self.get_set_loop user role loop (Json.object_set key value)).2 = getter.read self := by
  have hnode : self.root.node_at ([user, role, loop] ++ [key]) = some value := Json.node_at_of_shown hvalue h
  apply Getter.read_congr
  intro path _
  exact Json.get_set_stored key value [user, role, loop] hnode path

theorem read_get_set_loop_refused (h : Json.settable [user, role, loop] self.root = false) (getter : Getter) :
    getter.read (self.get_set_loop user role loop (Json.object_set key value)).2 = getter.read self := by
  apply Getter.read_congr
  intro path _
  exact Json.get_set_refused key value [user, role, loop] h path

theorem shown_of_user_data_unchanged (h : Json.settable [user, "data", loop] self.root = true)
    (hread : (Getter.user_data user).read (self.get_set_loop user "data" loop (Json.object_set key value)).2 =
      (Getter.user_data user).read self) : self.shown [user, "data", loop, key] = some value.shallow := by
  have hnew := shown_get_set_loop self user "data" loop key value h
  have habove : (self.get_set_loop user "data" loop (Json.object_set key value)).2.root.shown [user, "data"] =
      some (.object []) := Json.get_set_above key value [user, "data", loop] h ⟨[loop], rfl⟩
  have hroot : (self.get_set_loop user "data" loop (Json.object_set key value)).2.root.shown [] =
      some (.object []) := Json.get_set_above key value [user, "data", loop] h nil_prefix
  generalize (self.get_set_loop user "data" loop (Json.object_set key value)).2 = after at *
  have hobject : self.root.is_object = true := by
    simp only [Json.settable, Bool.and_eq_true] at h
    exact h.1
  have hobject' : after.root.is_object = true := by
    revert hroot
    rw [Json.shown_nil]
    cases after.root <;> simp [Json.shallow, Json.is_object]
  simp only [Getter.read, Dataset.get_user_data_eq, hobject, hobject', if_true, map_some,
    Answer.user_data.injEq, some.injEq] at hread
  have hat := congrFun hread [loop, key]
  rw [Getter.shown_data, Getter.shown_data, habove] at hat
  simp only [isSome_some, if_true] at hat
  split at hat
  · exact hat.symm.trans hnew
  rw [Json.shown_empty_cons] at hat
  exact absurd (hat.symm.trans hnew) (by simp)

end

namespace StateCall

variable (self : Dataset)

theorem apply_ok (call : StateCall) : (call.apply self).1 = call.accepted self := by
  cases call with
  | set_state user role loop state => exact get_set_loop_ok self user role loop _ _
  | set_volume user role loop volume =>
    simp only [apply, accepted, Dataset.set_volume]
    split
    · rename_i hhigh
      simp [Nat.not_le_of_lt hhigh]
    rename_i hlow
    simp only [Nat.le_of_not_lt hlow, decide_true, Bool.true_and]
    exact get_set_loop_ok self user role loop _ _
  | set_user_data user data => exact Json.get_set_ok "data" data [user] self.root
  | get_user_data user =>
    simp only [apply, accepted, Dataset.get_user_data_eq]
    cases self.root.is_object <;> rfl

variable {getter : Getter}

theorem reads_setting {user role loop key : String} (h : getter.reads [user, role, loop, key]) :
    (getter = .state user role loop ∧ key = "state") ∨ (getter = .volume user role loop ∧ key = "volume") ∨
      (getter = .user_data user ∧ role = "data") := by
  cases getter with
  | state user' role' loop' =>
    simp only [Getter.reads, List.cons.injEq] at h
    obtain ⟨rfl, rfl, rfl, rfl, _⟩ := h
    exact .inl ⟨rfl, rfl⟩
  | volume user' role' loop' =>
    simp only [Getter.reads, List.cons.injEq] at h
    obtain ⟨rfl, rfl, rfl, rfl, _⟩ := h
    exact .inr (.inl ⟨rfl, rfl⟩)
  | user_data user' =>
    simp only [Getter.reads, reduceCtorEq, false_or, cons_prefix_cons] at h
    obtain ⟨rfl, rfl, _⟩ := h
    exact .inr (.inr ⟨rfl, rfl⟩)

theorem reads_state {user role loop : String} (h : getter.reads [user, role, loop, "state"]) :
    getter = .state user role loop ∨ getter = .user_data user ∧ role = "data" := by
  obtain ⟨hself, _⟩ | ⟨_, hkey⟩ | hdata := reads_setting h
  · exact .inl hself
  · exact absurd hkey (by decide)
  · exact .inr hdata

theorem reads_volume {user role loop : String} (h : getter.reads [user, role, loop, "volume"]) :
    getter = .volume user role loop ∨ getter = .user_data user ∧ role = "data" := by
  obtain ⟨_, hkey⟩ | ⟨hself, _⟩ | hdata := reads_setting h
  · exact absurd hkey (by decide)
  · exact .inl hself
  · exact .inr hdata

theorem others_of_apart {user role loop key : String} {value : Json} {target : Getter} (hvalue : value.is_object = false)
    (htarget : ∀ getter : Getter, getter.reads [user, role, loop, key] →
      getter = target ∨ getter = .user_data user ∧ role = "data")
    (hapart : role = "data" → Json.settable [user, role, loop] self.root = true →
      self.shown [user, "data", loop, key] = some value) (hne : target ≠ getter) :
    getter.read (self.get_set_loop user role loop (Json.object_set key value)).2 = getter.read self := by
  by_cases hcase : getter = .user_data user ∧ role = "data"
  · obtain ⟨_, rfl⟩ := hcase
    cases hok : Json.settable [user, "data", loop] self.root with
    | true => exact read_get_set_loop_stored self user "data" loop key value hvalue (hapart rfl hok) getter
    | false => exact read_get_set_loop_refused self user "data" loop key value hok getter
  apply read_get_set_loop
  · intro hreads
    obtain rfl | hdata := htarget getter hreads
    · exact hne rfl
    · exact hcase hdata
  intro hgetter hrole
  exact hcase ⟨hgetter, hrole⟩

variable (user : String)

theorem set_state_independent_iff (role loop : String) (state : Permission) :
    Independent self (.set_state user role loop state) ↔ Apart self (.set_state user role loop state) := by
  have happly : (set_state user role loop state).apply self =
      self.get_set_loop user role loop (Json.object_set "state" (.string (permission_to_string state))) := rfl
  constructor
  · rintro h rfl hok
    have hread := h.others (.user_data user) (by simp [StateCall.written])
    rw [happly] at hread
    exact shown_of_user_data_unchanged self user loop "state" _ hok hread
  intro h
  constructor
  · intro hok w hw
    obtain rfl := mem_some.mp hw
    rw [apply_ok] at hok
    rw [happly, Getter.read, Dataset.get_state_eq, shown_get_set_loop self user role loop "state" _ hok]
    exact congrArg Answer.state (permission_from_json_to_string state)
  · intro getter hne
    rw [happly]
    exact others_of_apart self rfl (fun _ => reads_state) h (hne _ rfl)
  intro hrefused getter
  rw [apply_ok] at hrefused
  exact read_get_set_loop_refused self user role loop "state" _ hrefused getter

theorem to_uint8_toNat (volume : UInt8) : to_uint8 volume.toNat = some volume := by
  have hbound := volume.toNat_lt
  unfold to_uint8
  rw [if_pos (by omega), Int.toNat_natCast]
  simp

theorem set_volume_independent_iff (role loop : String) (volume : UInt8) :
    Independent self (.set_volume user role loop volume) ↔ Apart self (.set_volume user role loop volume) := by
  by_cases hhigh : 100 < volume.toNat
  · have happly : (set_volume user role loop volume).apply self = (false, self) := if_pos hhigh
    constructor
    · rintro _ _ hok
      rw [← apply_ok, happly] at hok
      cases hok
    intro _
    constructor
    · intro hok
      rw [happly] at hok
      cases hok
    · intro getter _
      rw [happly]
    intro _ getter
    rw [happly]
  have happly : (set_volume user role loop volume).apply self =
      self.get_set_loop user role loop (Json.object_set "volume" (.number volume.toNat)) := if_neg hhigh
  have haccepted : (set_volume user role loop volume).accepted self =
      Json.settable [user, role, loop] self.root := by
    simp [accepted, Nat.le_of_not_lt hhigh]
  constructor
  · rintro h rfl hok
    rw [haccepted] at hok
    have hread := h.others (.user_data user) (by simp [StateCall.written])
    rw [happly] at hread
    exact shown_of_user_data_unchanged self user loop "volume" _ hok hread
  intro h
  constructor
  · intro hok w hw
    obtain rfl := mem_some.mp hw
    rw [apply_ok, haccepted] at hok
    rw [happly, Getter.read, Dataset.get_volume_eq, shown_get_set_loop self user role loop "volume" _ hok]
    exact congrArg Answer.volume (to_uint8_toNat volume)
  · intro getter hne
    rw [happly]
    refine others_of_apart self rfl (fun _ => reads_volume) (fun hrole hok => ?_) (hne _ rfl)
    exact h hrole (haccepted.trans hok)
  intro hrefused getter
  rw [apply_ok, haccepted] at hrefused
  rw [happly]
  exact read_get_set_loop_refused self user role loop "volume" _ hrefused getter

theorem shown_set_user_data_elsewhere {user user' second : String} (data : Json) (rest : Path)
    (h : ¬ (user' = user ∧ second = "data")) :
    ((set_user_data user data).apply self).2.shown (user' :: second :: rest) = self.shown (user' :: second :: rest) := by
  show (Json.get_set (Json.object_set "data" data) [user] self.root).2.shown (user' :: second :: rest) =
    self.root.shown (user' :: second :: rest)
  apply Json.get_set_unrelated
  · intro habove
    simpa using habove.length_le
  intro hbelow
  simp only [List.cons_append, nil_append, cons_prefix_cons] at hbelow
  exact h ⟨hbelow.1.symm, hbelow.2.1.symm⟩

theorem set_user_data_independent_iff (data : Json) :
    Independent self (.set_user_data user data) ↔ Apart self (.set_user_data user data) := by
  have hstate := fun loop => Dataset.get_state_eq ((set_user_data user data).apply self).2 user "data" loop
  have hvolume := fun loop => Dataset.get_volume_eq ((set_user_data user data).apply self).2 user "data" loop
  have hnew : (set_user_data user data).accepted self = true → ∀ rest : Path,
      ((set_user_data user data).apply self).2.shown (user :: "data" :: rest) = data.shown rest := by
    intro hok rest
    exact congrArg (Option.map Json.shallow) (Json.get_set_below "data" data [user] hok rest)
  constructor
  · intro h hok loop
    have hread := h.others (.state user "data" loop) (by simp [StateCall.written])
    have hread' := h.others (.volume user "data" loop) (by simp [StateCall.written])
    simp only [Getter.read, Answer.state.injEq] at hread
    simp only [Getter.read, Answer.volume.injEq] at hread'
    rw [← hread, ← hread', hstate, hvolume, hnew hok, hnew hok]
    exact ⟨rfl, rfl⟩
  intro h
  constructor
  · intro hok w hw
    obtain rfl := mem_some.mp hw
    rw [apply_ok] at hok
    have hobject : ((set_user_data user data).apply self).2.root.is_object = true := by
      have hroot : ((set_user_data user data).apply self).2.root.shown [] = some (.object []) :=
        Json.get_set_above "data" data [user] hok nil_prefix
      revert hroot
      rw [Json.shown_nil]
      cases ((set_user_data user data).apply self).2.root <;> simp [Json.shallow, Json.is_object]
    have hnode : ((set_user_data user data).apply self).2.root.node_at [user, "data"] = some data :=
      Json.get_set_below "data" data [user] hok []
    rw [Getter.read, Dataset.get_user_data_eq, if_pos hobject, hnode]
    rfl
  · intro getter hne
    cases hok : (set_user_data user data).accepted self with
    | false =>
      apply Getter.read_congr
      intro path _
      exact Json.get_set_refused "data" data [user] hok path
    | true =>
      by_cases hdata : ∃ loop, getter = .state user "data" loop ∨ getter = .volume user "data" loop
      · obtain ⟨loop, rfl | rfl⟩ := hdata
        · rw [Getter.read, hstate, hnew hok]
          exact congrArg Answer.state (h hok loop).1
        rw [Getter.read, hvolume, hnew hok]
        exact congrArg Answer.volume (h hok loop).2
      have hobject : self.root.is_object = true := by
        have hok' : (self.root.is_object && _) = true := hok
        exact (Bool.and_eq_true_iff.mp hok').1
      apply Getter.read_congr
      intro path hreads
      cases getter with
      | state user' role' loop' =>
        obtain rfl : path = [user', role', loop', "state"] := hreads
        apply shown_set_user_data_elsewhere
        rintro ⟨rfl, rfl⟩
        exact hdata ⟨loop', .inl rfl⟩
      | volume user' role' loop' =>
        obtain rfl : path = [user', role', loop', "volume"] := hreads
        apply shown_set_user_data_elsewhere
        rintro ⟨rfl, rfl⟩
        exact hdata ⟨loop', .inr rfl⟩
      | user_data user' =>
        obtain rfl | ⟨rest, rfl⟩ := hreads
        · have habove := Json.get_set_above "data" data [user] hok nil_prefix
          exact habove.trans (by rw [Dataset.shown, Json.shown_nil, Json.shallow_of_is_object hobject])
        apply shown_set_user_data_elsewhere
        rintro ⟨rfl, _⟩
        exact hne _ rfl rfl
  · intro hrefused getter
    rw [apply_ok] at hrefused
    apply Getter.read_congr
    intro path _
    exact Json.get_set_refused "data" data [user] hrefused path

theorem get_user_data_state :
    (self.get_user_data user).2 = some (Json.get_set (fun root => (true, root)) [user] self.root).2 := by
  unfold Dataset.get_user_data Dataset.get_set_user
  cases hgot : Json.get_set (fun root => (true, root)) [user] self.root with
  | mk ok root => cases ok <;> rfl

theorem read_get_user_data (getter : Getter) :
    getter.read ((get_user_data user).apply self).2 = getter.read self := by
  have hstate : ((get_user_data user).apply self).2 = _ := get_user_data_state self user
  rw [hstate]
  apply Getter.read_congr
  intro path hreads
  show (Json.get_set (fun root => (true, root)) [user] self.root).2.shown path = self.root.shown path
  have hlong : ∀ {path : Path}, 1 < path.length →
      (Json.get_set (fun root => (true, root)) [user] self.root).2.shown path = self.root.shown path := by
    intro path hlength
    apply Json.get_set_beside
    · intro habove
      have hle := habove.length_le
      simp only [length_singleton] at hle
      omega
    intro j rest _
    rfl
  cases getter with
  | state user' role' loop' =>
    obtain rfl : path = [user', role', loop', "state"] := hreads
    exact hlong (by simp)
  | volume user' role' loop' =>
    obtain rfl : path = [user', role', loop', "volume"] := hreads
    exact hlong (by simp)
  | user_data user' =>
    obtain rfl | ⟨rest, rfl⟩ := hreads
    · cases hobject : self.root.is_object with
      | false => rw [Json.get_set_not_object hobject]
      | true => rw [Json.get_set_cons hobject, Json.shown_nil, Json.shown_nil, Json.shallow_object_put]
    · exact hlong (by simp)

theorem get_user_data_independent_iff :
    Independent self (.get_user_data user) ↔ Apart self (.get_user_data user) := by
  refine ⟨fun _ => trivial, fun _ => ⟨?_, ?_, ?_⟩⟩
  · intro _ w hw
    exact absurd hw (by simp [StateCall.written])
  · exact fun getter _ => read_get_user_data self user getter
  · exact fun _ getter => read_get_user_data self user getter

end StateCall

/-- As the functions build it: objects down to the settings of the loops, apart from what
    stands under `data` of a user. -/
structure Shaped (state : Dataset) : Prop where
  root : state.shown [] = some (.object [])
  objects : ∀ path v, path.length ≤ 3 → path[1]? ≠ some "data" → state.shown path = some v → v = .object []

theorem Shaped.none : Shaped none := by
  refine ⟨rfl, fun path v _ _ hv => ?_⟩
  cases path with
  | nil => exact (some.inj hv).symm
  | cons key path =>
    have hnone : (Json.object []).shown (key :: path) = some v := hv
    rw [Json.shown_empty_cons] at hnone
    cases hnone

theorem Shaped.get_set {self : Dataset} (h : Shaped self) (path : Path) (key : String) (value : Json)
    (hplace : 3 < (path ++ [key]).length ∨ (path ++ [key])[1]? = some "data") :
    Shaped (some (Json.get_set (Json.object_set key value) path self.root).2) := by
  cases hok : Json.settable path self.root with
  | false =>
    have hsame := Json.get_set_refused key value path hok
    refine ⟨(hsame []).trans h.root, fun other v hlength hdata hv => ?_⟩
    exact h.objects other v hlength hdata ((hsame other).symm.trans hv)
  | true =>
    refine ⟨Json.get_set_above key value path hok nil_prefix, fun other v hlength hdata hv => ?_⟩
    have hshown : (Json.get_set (Json.object_set key value) path self.root).2.shown other = some v := hv
    by_cases habove : other <+: path
    · rw [Json.get_set_above key value path hok habove] at hshown
      exact (some.inj hshown).symm
    by_cases hbelow : path ++ [key] <+: other
    · obtain hlong | hunder := hplace
      · have hle := hbelow.length_le
        omega
      obtain ⟨rest, rfl⟩ := hbelow
      have hwithin : 1 < (path ++ [key]).length := (List.getElem?_eq_some_iff.mp hunder).1
      rw [getElem?_append_left hwithin] at hdata
      exact absurd hunder hdata
    rw [Json.get_set_unrelated key value self.root habove hbelow] at hshown
    exact h.objects other v hlength hdata hshown

theorem Shaped.get_user_data {self : Dataset} (h : Shaped self) (user : String) :
    Shaped (self.get_user_data user).2 := by
  have hobject : self.root.is_object = true := Json.is_object_of_shown_nil h.root
  have hroot : (self.get_user_data user).2 =
      some (self.root.object_put user ((self.root.object_get user).getD (.object []))) := by
    rw [StateCall.get_user_data_state, Json.get_set_cons hobject]
    rfl
  rw [hroot]
  refine ⟨?_, fun path v hlength hdata hv => ?_⟩
  · rw [Dataset.shown, Dataset.root, getD_some, Json.shown_nil, Json.shallow_object_put]
    exact h.root
  have hshown : (self.root.object_put user ((self.root.object_get user).getD (.object []))).shown path = some v := hv
  have hold : self.root.shown path = some v → v = .object [] := h.objects path v hlength hdata
  cases path with
  | nil =>
    rw [Json.shown_nil, Json.shallow_object_put] at hshown
    exact hold hshown
  | cons key path =>
    by_cases hkey : key = user
    · subst hkey
      rw [Json.shown_object_put_self hobject] at hshown
      cases hget : self.root.object_get key with
      | some child =>
        rw [hget, getD_some] at hshown
        apply hold
        rw [Json.shown_cons, hget]
        exact hshown
      | none =>
        rw [hget, getD_none] at hshown
        cases path with
        | nil => exact (some.inj hshown).symm
        | cons next path =>
          rw [Json.shown_empty_cons] at hshown
          cases hshown
    rw [Json.shown_object_put_of_ne _ hkey] at hshown
    exact hold hshown

theorem Shaped.apply {self : Dataset} (h : Shaped self) (call : StateCall) : Shaped (call.apply self).2 := by
  cases call with
  | set_state user role loop state => exact h.get_set [user, role, loop] _ _ (.inl (by simp))
  | set_volume user role loop volume =>
    simp only [StateCall.apply, Dataset.set_volume]
    split
    · exact h
    · exact h.get_set [user, role, loop] _ _ (.inl (by simp))
  | set_user_data user data => exact h.get_set [user] _ _ (.inr rfl)
  | get_user_data user => exact h.get_user_data user

/-- The dataset that a sequence of calls builds. -/
def built (calls : List StateCall) : Dataset := calls.foldl (fun self call => (call.apply self).2) none

theorem shaped_built (calls : List StateCall) : Shaped (built calls) := by
  have hrun : ∀ (calls : List StateCall) (self : Dataset), Shaped self →
      Shaped (calls.foldl (fun self call => (StateCall.apply self call).2) self) := by
    intro calls
    induction calls with
    | nil => exact fun self h => h
    | cons call calls ih => exact fun self h => ih _ (h.apply call)
  exact hrun calls none Shaped.none

/-- Calls for roles with another id than `data`, with a volume up to 100. -/
def StateCall.regular : StateCall → Prop
  | set_state _ role _ _ => role ≠ "data"
  | set_volume _ role _ volume => role ≠ "data" ∧ volume.toNat ≤ 100
  | _ => True

theorem Shaped.settable {self : Dataset} (h : Shaped self) {path : Path} (hlength : path.length ≤ 3)
    (hdata : path[1]? ≠ some "data") : Json.settable path self.root = true := by
  apply Json.settable_of_shown
  intro above habove v hv
  apply h.objects above v (Nat.le_trans habove.length_le hlength) _ hv
  intro hat
  obtain ⟨rest, rfl⟩ := habove
  have hwithin : 1 < above.length := (List.getElem?_eq_some_iff.mp hat).1
  rw [getElem?_append_left hwithin] at hdata
  exact hdata hat

theorem accepted_of_built (calls : List StateCall) {call : StateCall} (h : call.regular) :
    call.accepted (built calls) = true := by
  have hshaped := shaped_built calls
  cases call with
  | set_state user role loop state => exact hshaped.settable (Nat.le_refl 3) (by simpa [StateCall.regular] using h)
  | set_volume user role loop volume =>
    have hsettable : Json.settable [user, role, loop] (built calls).root = true :=
      hshaped.settable (Nat.le_refl 3) (by simpa using h.1)
    simp [StateCall.accepted, h.2, hsettable]
  | set_user_data user data => exact hshaped.settable (by simp) (by simp)
  | get_user_data user => exact Json.is_object_of_shown_nil hshaped.root

/-- For every dataset and every call: the call is accepted or refused as its input says.
    It gives its own getter the new answer if it is accepted, and leaves all the other
    answers as they were, if and only if it keeps the settings of the role `data` and
    the data of the user apart. A dataset that was built by the functions refuses none
    of the regular calls. -/
theorem state_independent_iff (self : Dataset) (call : StateCall) :
    (call.apply self).1 = call.accepted self ∧ (StateCall.Independent self call ↔ call.Apart self) ∧
      ∀ calls, self = built calls → call.regular → call.accepted self = true := by
  refine ⟨StateCall.apply_ok self call, ?_, ?_⟩
  · cases call with
    | set_state user role loop state => exact StateCall.set_state_independent_iff self user role loop state
    | set_volume user role loop volume => exact StateCall.set_volume_independent_iff self user role loop volume
    | set_user_data user data => exact StateCall.set_user_data_independent_iff self user data
    | get_user_data user => exact StateCall.get_user_data_independent_iff self user
  · rintro calls rfl hregular
    exact accepted_of_built calls hregular

/-- The settings of the role `data` show up in the data of the user. -/
theorem role_data_in_user_data : (Dataset.get_user_data (built []) "alice").1 = some (.object []) ∧
      (Dataset.get_user_data (built [.set_state "alice" "data" "loop" .recv]) "alice").1 =
        some (.object [("loop", .object [("state", .string "recv")])]) ∧
      Dataset.get_state (built [.set_state "alice" "data" "loop" .recv, .set_user_data "alice" (.object [])])
        "alice" "data" "loop" = .none :=
  ⟨rfl, rfl, rfl⟩

end openvocs.vocs_db
