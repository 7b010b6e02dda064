import Openvocs.Json.File
import Openvocs.Lib.Dict
import Openvocs.Lib.Machine

namespace openvocs.event_session

open cstring (Str)
open json (Value)

/-- What the store uses of the type `double`: the JSON numbers, and the conversions from and
to times. -/
structure Double (ν : Type) extends json.Double ν where
  of_usec : UInt64 → ν
  to_usec : ν → UInt64

structure Config where
  max_lifetime_usec : UInt64 := 0
  deriving DecidableEq

def default_lifetime : UInt64 := 3600000000

def default_lifetime_check : Nat := 60 * 1000 * 1000

def check_config (config : Config) : Config :=
  if config.max_lifetime_usec = 0 then { config with max_lifetime_usec := default_lifetime } else config

/-- `Session`. A text that could not be copied is missing. -/
structure Session where
  last_update : UInt64 := 0
  id : Str := Str.of []
  client : Option Str := none
  user : Option Str := none

/-- The sessions by client. An entry without a key is never found, walked or saved, and is
left out. -/
abbrev Sessions : Type := Dict Str Session

/-- `struct ov_event_session`, with the time at which its timer is due. -/
structure Store where
  config : Config
  sessions : Sessions
  due : Nat

/-- `ov_string_dup`: texts from `OV_STRING_DEFAULT_SIZE` octets on are not copied. -/
def string_dup (s : Str) : Option Str := if s.1.length < 255 then some s else none

def id_valid (s : Str) : Bool := s.1 ≠ [] && s.1.length < 37

/-- The octet that a pointer into a string points to. -/
def octet (s : List Byte) : Byte := s.headD 0

/-- The loop of `ov_id_match` and the test behind it, with the rounds that are left. -/
def match_octets : Nat → List Byte → List Byte → Bool
  | 0, id1, id2 => octet id1 = 0 && octet id1 = octet id2
  | rounds + 1, id1, id2 =>
    if octet id1 = 0 && octet id2 = 0 then true
    else if octet id1 ≠ octet id2 then false
    else match_octets rounds id1.tail id2.tail

def id_match (id1 id2 : Str) : Bool := match_octets 36 id1.1 id2.1

theorem octet_eq_zero_iff {s : List Byte} (h : 0 ∉ s) : octet s = 0 ↔ s = [] := by
  cases s with
  | nil => simp [octet]
  | cons c s => simpa [octet] using fun hc : c = 0 => h (by simp [hc])

theorem eq_of_match_octets (rounds : Nat) {id1 id2 : List Byte} (h1 : 0 ∉ id1) (h2 : 0 ∉ id2)
    (h : match_octets rounds id1 id2 = true) : id1 = id2 := by
  induction rounds generalizing id1 id2 with
  | zero =>
    rw [match_octets, Bool.and_eq_true, decide_eq_true_eq, decide_eq_true_eq] at h
    rw [(octet_eq_zero_iff h1).mp h.1, (octet_eq_zero_iff h2).mp (h.2 ▸ h.1)]
  | succ rounds ih =>
    rw [match_octets] at h
    split at h
    · rename_i hends
      rw [Bool.and_eq_true, decide_eq_true_eq, decide_eq_true_eq] at hends
      rw [(octet_eq_zero_iff h1).mp hends.1, (octet_eq_zero_iff h2).mp hends.2]
    split at h
    · cases h
    rename_i hsame
    rw [not_not] at hsame
    cases id1 with
    | nil => exact ((octet_eq_zero_iff h2).mp hsame.symm).symm
    | cons a id1 =>
      cases id2 with
      | nil => exact (octet_eq_zero_iff h1).mp hsame
      | cons b id2 =>
        have htail := ih (fun hmem => h1 (List.mem_cons_of_mem a hmem))
          (fun hmem => h2 (List.mem_cons_of_mem b hmem)) h
        rw [htail, show a = b from hsame]

theorem eq_of_id_match {id1 id2 : Str} (h : id_match id1 id2 = true) : id1 = id2 :=
  Subtype.ext (eq_of_match_octets 36 id1.2 id2.2 h)

section

variable {ν : Type} (double : Double ν)

def key_last_update : List Byte := [108, 97, 115, 116, 32, 117, 112, 100, 97, 116, 101]

def key_id : List Byte := [105, 100]

def key_client : List Byte := [99, 108, 105, 101, 110, 116]

def key_user : List Byte := [117, 115, 101, 114]

/-- `ov_json_string`. A string without a text is refused by the encoder, as an empty one is. -/
def json_string (s : Option Str) : Value ν := .string (s.elim [] Subtype.val)

def session_to_json (s : Session) : Value ν :=
  .object
    [(key_last_update, .number (double.of_usec s.last_update)), (key_id, json_string (some s.id)),
      (key_client, json_string s.client), (key_user, json_string s.user)]

/-- A text of an object as a C string. -/
def text_get (item : Value ν) (key : List Byte) : Option Str :=
  ((json.object_get item key).bind json.string_get).map Str.of

/-- `ov_id_set` for an id that is empty. -/
def id_set (s : Option Str) : Str :=
  match s with
  | some s => if id_valid s then s else Str.of []
  | none => Str.of []

def session_from_json (item : Value ν) : Session where
  last_update := ((json.object_get item key_last_update).bind json.number_get).elim 0 double.to_usec
  id := id_set (text_get item key_id)
  client := (text_get item key_client).bind string_dup
  user := (text_get item key_user).bind string_dup

/-- `ov_event_session_save`: the file that is there afterwards. It is the old one where the
sessions cannot be written, or the file cannot be opened. -/
def save (sessions : Sessions) (opened : Bool) (file : Option (List Byte)) : Option (List Byte) :=
  match json.write_file double.toDouble
      (.object (sessions.entries.map fun entry => (entry.1.1, session_to_json double entry.2))) with
  | some content => if opened then some content else file
  | none => file

def add_session_data (sessions : Sessions) (key : Str) (item : Value ν) : Sessions :=
  match string_dup key with
  | some key => sessions.set key (session_from_json double item)
  | none => sessions

/-- `ov_event_session_load` into a store without sessions. -/
def load (file : Option (List Byte)) : Sessions :=
  match file.bind (json.read_file double.toDouble) with
  | some (.object members) =>
    members.foldl (fun sessions member => add_session_data double sessions (Str.of member.1) member.2) .empty
  | _ => .empty

def create (config : Config) (now : UInt64) (file : Option (List Byte)) : Store where
  config := check_config config
  sessions := load double file
  due := now.toNat + default_lifetime_check

end

namespace Store

variable (self : Store)

/-- `ov_event_session_init` up to the saving; `id` is the new uuid. -/
def init (now : UInt64) (client user id : Str) : Store :=
  match string_dup client with
  | some key =>
    { self with
      sessions := self.sessions.set key
        { last_update := now, id, client := string_dup client, user := string_dup user } }
  | none => self

/-- `ov_event_session_delete` up to the saving. -/
def delete (client : Str) : Store := { self with sessions := self.sessions.del client }

/-- `ov_event_session_verify`. A session without a user has no string to compare. -/
def verify (client user id : Str) : Option Bool :=
  match self.sessions.get client with
  | none => some false
  | some s =>
    if id_match id s.id then
      match s.user with
      | none => none
      | some name => some (name = user)
    else some false

/-- `ov_event_session_update` up to the saving, which takes place where it returns true. -/
def update (now : UInt64) (client user id : Str) : Option (Bool × Store) :=
  match self.sessions.get client with
  | none => some (false, self)
  | some s =>
    if id_match id s.id then
      match s.user with
      | none => none
      | some name =>
        if name = user then
          some (true, { self with sessions := self.sessions.set client { s with last_update := now } })
        else some (false, self)
    else some (false, self)

/-- The test of `check_invalid_session`. -/
def expired (config : Config) (now : UInt64) (s : Session) : Bool :=
  config.max_lifetime_usec < now - s.last_update

def invalidate_expired_sessions (now : UInt64) : Store :=
  let old := (self.sessions.entries.filter fun entry => expired self.config now entry.2).map Prod.fst
  { self with
    sessions := old.foldl (fun sessions key => sessions.del key) self.sessions
    due := now.toNat + default_lifetime_check }

end Store

/-- The clock, the store of the running process, and the file. -/
structure World where
  now : UInt64
  self : Store
  file : Option (List Byte)

/-- What happens to a store. The operations that save say whether the file could be opened. -/
inductive Step where
  | tick (now : UInt64)
  | init (client user id : Str) (opened : Bool)
  | update (client user id : Str) (opened : Bool)
  | delete (client : Str) (opened : Bool)
  | invalidate
  | save (opened : Bool)
  | restart (now : UInt64)
  deriving DecidableEq

/-- What the operations did to a session. -/
inductive Event where
  | touched (client user id : Str) (time : UInt64)
  | deleted (client : Str)
  deriving DecidableEq

section

variable {ν : Type} (double : Double ν)

/-- One step. The clock does not go backwards, and while a process runs it does not pass the
time at which the timer calls `invalidate_expired_sessions`. -/
def step (e : Step) (w : World) : Option World :=
  match e with
  | .tick now => if w.now ≤ now ∧ now.toNat ≤ w.self.due then some { w with now } else none
  | .init client user id opened =>
    let self := w.self.init w.now client user id
    some { w with self, file := event_session.save double self.sessions opened w.file }
  | .update client user id opened =>
    (w.self.update w.now client user id).map fun (updated, self) =>
      if updated then { w with self, file := event_session.save double self.sessions opened w.file } else w
  | .delete client opened =>
    let self := w.self.delete client
    some { w with self, file := event_session.save double self.sessions opened w.file }
  | .invalidate => some { w with self := w.self.invalidate_expired_sessions w.now }
  | .save opened => some { w with file := event_session.save double w.self.sessions opened w.file }
  | .restart now =>
    if w.now ≤ now then some { w with now, self := create double w.self.config now w.file } else none

/-- What a step did to a session. -/
def events (e : Step) (w : World) : List Event :=
  match e with
  | .init client user id _ => [.touched client user id w.now]
  | .update client user id _ =>
    match w.self.update w.now client user id with
    | some (true, _) => [.touched client user id w.now]
    | _ => []
  | .delete client _ => [.deleted client]
  | _ => []

/-- The first store, when there is no file. -/
def World.first (config : Config) (now : UInt64) : World where
  now := now
  self := create double config now none
  file := none

/-- A run of a store from the first one on, with the log of what it did. -/
def run (config : Config) (now : UInt64) (steps : List Step) : Option (World × List Event) :=
  machine.run (machine.logged (step double) events) steps (World.first double config now, [])

end

end openvocs.event_session
