import Openvocs.Lib.Dict
import Openvocs.Lib.Machine
import Openvocs.Lib.Pairing

/-!
A user id that its field cannot terminate is `none`.
-/

open List Option
open pairing

namespace openvocs.mixer_registry

/-- `ov_mixer_data`, without the address of the mixer. -/
structure MixerData where
  socket : Nat := 0
  user : String := ""
  deriving DecidableEq

/-- `struct ov_mixer_registry`. -/
structure Registry where
  users : Dict String Nat := Dict.empty
  sockets : Dict Nat MixerData := Dict.empty

def host_name_max : Nat := 255

/-- The slot of a socket in its dictionary, which decides on the order. -/
def hash_slot (socket : Nat) : Nat := socket % 255

structure Count where
  mixers : Nat := 0
  used : Nat := 0

namespace Registry

variable (self : Registry)

def register_mixer (socket : Nat) : Bool × Registry :=
  (true, { self with sockets := self.sockets.set socket { socket } hash_slot })

def unregister_mixer (socket : Nat) : Bool × Registry :=
  match self.sockets.get socket with
  | some data => (true, { users := self.users.del data.user, sockets := self.sockets.del socket })
  | none => (true, { self with sockets := self.sockets.del socket })

/-- The walk with `find_unused_mixer`. -/
def find_unused_mixer : Option Nat :=
  (self.sockets.entries.find? fun entry => decide (entry.1 ≠ 0 ∧ entry.2.user = "")).map Prod.fst

def acquire_user (uuid : String) : Option (MixerData × Registry) :=
  if host_name_max < uuid.utf8ByteSize then some ({}, self)
  else
    match self.find_unused_mixer with
    | none => some ({}, self)
    | some slot =>
      match self.sockets.get slot with
      | none => some ({}, self)
      | some val =>
        if uuid.utf8ByteSize < host_name_max then
          some ({ val with user := uuid },
            { users := self.users.set uuid slot
              sockets := self.sockets.set slot { val with user := uuid } hash_slot })
        else none

def release_user (uuid : String) : Bool × Registry :=
  if 255 < uuid.utf8ByteSize then (false, self)
  else
    let socket := (self.users.get uuid).getD 0
    match self.sockets.get socket with
    | some data =>
      (true, { users := self.users.del uuid, sockets := self.sockets.set socket { data with user := "" } hash_slot })
    | none => (true, { self with users := self.users.del uuid })

def count_mixers : Count :=
  self.sockets.entries.foldl (fun count entry =>
    if entry.1 = 0 then count
    else { mixers := count.mixers + 1, used := if entry.2.user ≠ "" then count.used + 1 else count.used }) {}

end Registry

open Registry

/-- The calls that change the registry. -/
inductive Call where
  | register_mixer (socket : Nat)
  | unregister_mixer (socket : Nat)
  | acquire_user (uuid : String)
  | release_user (uuid : String)

def step (call : Call) (self : Registry) : Option Registry :=
  match call with
  | .register_mixer socket => some (self.register_mixer socket).2
  | .unregister_mixer socket => some (self.unregister_mixer socket).2
  | .acquire_user uuid => (self.acquire_user uuid).map Prod.snd
  | .release_user uuid => some (self.release_user uuid).2

/-- Positive sockets, and user ids that are not empty and fit into their field. -/
def Valid : Call → Prop
  | .register_mixer socket => 0 < socket
  | .unregister_mixer socket => 0 < socket
  | .acquire_user uuid => uuid ≠ "" ∧ uuid.utf8ByteSize < host_name_max
  | .release_user uuid => uuid ≠ "" ∧ uuid.utf8ByteSize < host_name_max

/-- The user of a mixer. -/
def holder (self : Registry) (s : Nat) : Option String :=
  (self.sockets.get s).bind fun data => if data.user = "" then none else some data.user

/-- No mixer in use is registered anew, and nobody who has a mixer takes another one. -/
def Proper (self : Registry) : Call → Prop
  | .register_mixer socket => holder self socket = none
  | .unregister_mixer _ => True
  | .acquire_user uuid => self.find_unused_mixer = none ∨ self.users.get uuid = none
  | .release_user _ => True

/-- Users and mixers are assigned to each other. -/
structure Assigned (registry : Registry) : Prop where
  paired : Paired (fun uuid => registry.users.get uuid) (holder registry)
  own_socket : ∀ s data, registry.sockets.get s = some data → data.socket = s ∧ 0 < s

theorem create_assigned : Assigned {} :=
  ⟨fun _ _ => by simp [holder], fun s data hdata => by simp at hdata⟩

theorem holder_set {self next : Registry} {s : Nat} {data : MixerData}
    (hnext : next.sockets = self.sockets.set s data hash_slot) (t : Nat) :
    holder next t = if t = s then (if data.user = "" then none else some data.user) else holder self t := by
  unfold holder
  rw [hnext, Dict.get_set]
  by_cases ht : t = s <;> simp [ht]

theorem own_socket_set {self next : Registry} (h : Assigned self) {s : Nat} {data : MixerData}
    (hnext : next.sockets = self.sockets.set s data hash_slot) (hdata : data.socket = s ∧ 0 < s) (t : Nat)
    (other : MixerData) (hother : next.sockets.get t = some other) : other.socket = t ∧ 0 < t := by
  rw [hnext, Dict.get_set] at hother
  by_cases ht : t = s
  · rw [if_pos ht] at hother
    rw [← some.inj hother, ht]
    exact hdata
  rw [if_neg ht] at hother
  exact h.own_socket t other hother

variable {self : Registry}

theorem Assigned.holder_eq {s : Nat} {data : MixerData} (hdata : self.sockets.get s = some data) :
    holder self s = if data.user = "" then none else some data.user := by
  simp [holder, hdata]

theorem Assigned.register_mixer (h : Assigned self) {socket : Nat} (hpos : 0 < socket)
    (hfree : holder self socket = none) : Assigned (self.register_mixer socket).2 := by
  refine ⟨h.paired.congr (fun _ => rfl) fun t => ?_, own_socket_set h rfl ⟨rfl, hpos⟩⟩
  rw [holder_set rfl]
  by_cases ht : t = socket
  · simp [ht, hfree]
  · simp [ht]

theorem Assigned.get_empty (h : Assigned self) : self.users.get "" = none := by
  cases hget : self.users.get "" with
  | none => rfl
  | some s =>
    have hholder := (h.paired "" s).mp hget
    unfold holder at hholder
    obtain ⟨data, _, huser⟩ := bind_eq_some_iff.mp hholder
    by_cases hempty : data.user = ""
    · simp [hempty] at huser
    rw [if_neg hempty] at huser
    exact absurd (some.inj huser) hempty

theorem Assigned.unregister_mixer (h : Assigned self) (socket : Nat) :
    Assigned (self.unregister_mixer socket).2 := by
  have hholder : ∀ users t, holder { users, sockets := self.sockets.del socket } t =
      if t = socket then none else holder self t := by
    intro users t
    simp only [holder, Dict.get_del]
    by_cases ht : t = socket <;> simp [ht]
  have hown : ∀ s data, (self.sockets.del socket).get s = some data → data.socket = s ∧ 0 < s := by
    intro s data hdata
    rw [Dict.get_del] at hdata
    by_cases hs : s = socket
    · simp [hs] at hdata
    rw [if_neg hs] at hdata
    exact h.own_socket s data hdata
  unfold Registry.unregister_mixer
  cases hdata : self.sockets.get socket with
  | none =>
    refine ⟨h.paired.congr (fun _ => rfl) fun t => ?_, hown⟩
    rw [hholder]
    by_cases ht : t = socket
    · simp [ht, holder, hdata]
    · simp [ht]
  | some data =>
    have hsocket := Assigned.holder_eq hdata
    by_cases huser : data.user = ""
    · -- the mixer has no user, and there is no entry of an empty one
      rw [if_pos huser] at hsocket
      refine ⟨h.paired.congr (fun uuid => ?_) fun t => ?_, hown⟩
      · show (self.users.del data.user).get uuid = self.users.get uuid
        rw [huser, Dict.get_del]
        by_cases huuid : uuid = ""
        · simp [huuid, h.get_empty]
        · simp [huuid]
      rw [hholder]
      by_cases ht : t = socket
      · simp [ht, hsocket]
      · simp [ht]
    rw [if_neg huser] at hsocket
    exact ⟨h.paired.unpair ((h.paired data.user socket).mpr hsocket) (Dict.get_del _ _) (hholder _), hown⟩

theorem find_unused_mixer_spec {slot : Nat} (h : self.find_unused_mixer = some slot) :
    ∃ data, self.sockets.get slot = some data ∧ data.user = "" := by
  unfold find_unused_mixer at h
  obtain ⟨⟨key, data⟩, hfind, heq⟩ := map_eq_some_iff.mp h
  have hmem := Dict.mem_entries_iff.mp (mem_of_find?_eq_some hfind)
  have hfree := find?_some hfind
  simp only [ne_eq, decide_eq_true_eq] at hfree
  exact ⟨data, heq ▸ hmem, hfree.2⟩

theorem Assigned.acquire_user (h : Assigned self) {uuid : String}
    (hvalid : Valid (.acquire_user uuid)) (hproper : Proper self (.acquire_user uuid)) :
    ∃ data next, self.acquire_user uuid = some (data, next) ∧ Assigned next := by
  unfold Registry.acquire_user
  rw [if_neg (Nat.lt_asymm hvalid.2)]
  cases hslot : self.find_unused_mixer with
  | none => exact ⟨{}, self, rfl, h⟩
  | some slot =>
    obtain ⟨data, hdata, huser⟩ := find_unused_mixer_spec hslot
    have hunknown : self.users.get uuid = none := by
      obtain hnone | hunknown := hproper
      · simp [hslot] at hnone
      · exact hunknown
    have hfree : holder self slot = none := by rw [Assigned.holder_eq hdata, if_pos huser]
    simp only [hdata]
    rw [if_pos hvalid.2]
    refine ⟨_, _, rfl, h.paired.pair hunknown hfree (fun other => ?_) fun t => ?_, ?_⟩
    · rw [Dict.get_set]
    · rw [holder_set rfl]
      simp [hvalid.1]
    · exact own_socket_set h rfl (h.own_socket slot data hdata)

theorem Assigned.release_user (h : Assigned self) (uuid : String) : Assigned (self.release_user uuid).2 := by
  unfold Registry.release_user
  by_cases hsize : 255 < uuid.utf8ByteSize
  · rw [if_pos hsize]
    exact h
  rw [if_neg hsize]
  cases hget : self.users.get uuid with
  | none =>
    -- no mixer is registered at the socket 0
    have hzero : self.sockets.get 0 = none := by
      cases hdata : self.sockets.get 0 with
      | none => rfl
      | some data => exact absurd (h.own_socket 0 data hdata).2 (Nat.lt_irrefl 0)
    simp only [getD_none, hzero]
    refine ⟨h.paired.congr (fun other => ?_) fun _ => rfl, h.own_socket⟩
    rw [Dict.get_del]
    by_cases hother : other = uuid
    · simp [hother, hget]
    · simp [hother]
  | some s =>
    have hholder := (h.paired uuid s).mp hget
    unfold holder at hholder
    obtain ⟨data, hdata, _⟩ := bind_eq_some_iff.mp hholder
    simp only [getD_some, hdata]
    refine ⟨h.paired.unpair hget (Dict.get_del _ _) fun t => ?_, own_socket_set h rfl (h.own_socket s data hdata)⟩
    rw [holder_set rfl]
    simp

theorem Assigned.step (h : Assigned self) {call : Call} (hcall : Valid call ∧ Proper self call) :
    ∃ next, step call self = some next ∧ Assigned next := by
  cases call with
  | register_mixer socket => exact ⟨_, rfl, h.register_mixer hcall.1 hcall.2⟩
  | unregister_mixer socket => exact ⟨_, rfl, h.unregister_mixer socket⟩
  | acquire_user uuid =>
    obtain ⟨data, next, hacquire, hnext⟩ := h.acquire_user hcall.1 hcall.2
    exact ⟨next, by simp only [mixer_registry.step, hacquire, map_some], hnext⟩
  | release_user uuid => exact ⟨_, rfl, h.release_user uuid⟩

theorem count_mixers_used (h : Assigned self) :
    self.count_mixers.used = (self.sockets.entries.filter fun entry => decide (entry.2.user ≠ "")).length := by
  have hloop : ∀ (entries : List (Nat × MixerData)) (count : Count), (∀ entry ∈ entries, entry.1 ≠ 0) →
      (entries.foldl (fun count entry =>
        if entry.1 = 0 then count
        else
          { mixers := count.mixers + 1
            used := if entry.2.user ≠ "" then count.used + 1 else count.used }) count).used =
        count.used + (entries.filter fun entry => decide (entry.2.user ≠ "")).length := by
    intro entries
    induction entries with
    | nil => simp
    | cons entry entries ih =>
      intro count hpos
      rw [foldl_cons, ih _ fun other hother => hpos other (mem_cons_of_mem _ hother)]
      have hentry := hpos entry mem_cons_self
      by_cases huser : entry.2.user = ""
      · simp [hentry, huser]
      simp [hentry, huser]
      omega
  have hcount := hloop self.sockets.entries {} fun entry hentry => by
    have hget := Dict.mem_entries_iff.mp (show (entry.1, entry.2) ∈ self.sockets.entries from hentry)
    have := (h.own_socket entry.1 entry.2 hget).2
    omega
  simpa [count_mixers] using hcount

theorem Assigned.size_users (h : Assigned self) : self.users.size = self.count_mixers.used := by
  have husers : (self.users.entries.map Prod.snd).Nodup := by
    refine List.Nodup.map_on (fun entry hentry other hother heq => ?_) (self.users.nodup.of_map Prod.fst)
    have hget := Dict.mem_entries_iff.mp (show (entry.1, entry.2) ∈ self.users.entries from hentry)
    have hget' := Dict.mem_entries_iff.mp (show (other.1, other.2) ∈ self.users.entries from hother)
    rw [← heq] at hget'
    exact Prod.ext (h.paired.left_injective hget hget') heq
  have hsockets : ((self.sockets.entries.filter fun entry => decide (entry.2.user ≠ "")).map Prod.fst).Nodup :=
    self.sockets.nodup.sublist (filter_sublist.map Prod.fst)
  have hperm : (self.users.entries.map Prod.snd).Perm
      ((self.sockets.entries.filter fun entry => decide (entry.2.user ≠ "")).map Prod.fst) := by
    refine (perm_ext_iff_of_nodup husers hsockets).mpr fun s => ?_
    simp only [List.mem_map, mem_filter, Prod.exists, Dict.mem_entries_iff, exists_eq_right, decide_eq_true_eq]
    constructor
    · rintro ⟨uuid, hget⟩
      have hholder := (h.paired uuid s).mp hget
      unfold holder at hholder
      obtain ⟨data, hdata, huser⟩ := bind_eq_some_iff.mp hholder
      exact ⟨s, data, ⟨hdata, fun hempty => by simp [hempty] at huser⟩, rfl⟩
    rintro ⟨_, data, ⟨hdata, huser⟩, rfl⟩
    refine ⟨data.user, (h.paired data.user _).mpr ?_⟩
    rw [Assigned.holder_eq hdata, if_neg huser]
  rw [count_mixers_used h, Dict.size]
  simpa using hperm.length_eq

theorem Assigned.acquired_empty {self next : Registry} (h : Assigned self) {uuid : String}
    (hvalid : Valid (.acquire_user uuid)) (hacquire : self.acquire_user uuid = some ({}, next)) :
    ∀ s data, self.sockets.get s = some data → data.user ≠ "" := by
  intro s data hdata hempty
  unfold Registry.acquire_user at hacquire
  rw [if_neg (Nat.lt_asymm hvalid.2)] at hacquire
  cases hslot : self.find_unused_mixer with
  | none =>
    unfold find_unused_mixer at hslot
    rw [map_eq_none_iff, find?_eq_none] at hslot
    have hpos := (h.own_socket s data hdata).2
    have hnot := hslot (s, data) (Dict.mem_entries_iff.mpr hdata)
    simp only [ne_eq, decide_eq_true_eq, not_and] at hnot
    exact hnot (by omega) hempty
  | some slot =>
    obtain ⟨val, hval, _⟩ := find_unused_mixer_spec hslot
    simp only [hslot, hval] at hacquire
    rw [if_pos hvalid.2] at hacquire
    simp only [some.injEq, Prod.mk.injEq, MixerData.mk.injEq] at hacquire
    exact hvalid.1 hacquire.1.2

/-- In every run of valid and proper calls the two dictionaries agree, the mixers in
    use are counted right, and an empty record says that all mixers are in use. -/
theorem run_mixer_assignment (calls : List Call)
    (h : machine.along step (fun self call => Valid call ∧ Proper self call) calls {}) :
    ∃ self, machine.run step calls {} = some self ∧
      (∀ uuid s, self.users.get uuid = some s ↔ holder self s = some uuid) ∧
      self.count_mixers.used = self.users.size ∧
      ∀ uuid next, Valid (.acquire_user uuid) → self.acquire_user uuid = some ({}, next) →
        ∀ s data, self.sockets.get s = some data → data.user ≠ "" := by
  obtain ⟨self, hrun, hassigned⟩ := machine.run_defined Assigned _ (fun _ _ hs hcall => hs.step hcall) calls
    create_assigned h
  exact ⟨self, hrun, hassigned.paired, hassigned.size_users.symm, fun _ _ => hassigned.acquired_empty⟩

instance : (call : Call) → Decidable (Valid call)
  | .register_mixer _ => inferInstanceAs (Decidable (_ < _))
  | .unregister_mixer _ => inferInstanceAs (Decidable (_ < _))
  | .acquire_user _ => inferInstanceAs (Decidable (_ ∧ _))
  | .release_user _ => inferInstanceAs (Decidable (_ ∧ _))

instance (self : Registry) : (call : Call) → Decidable (Proper self call)
  | .register_mixer _ => inferInstanceAs (Decidable (_ = _))
  | .unregister_mixer _ => inferInstanceAs (Decidable True)
  | .acquire_user _ => inferInstanceAs (Decidable (_ ∨ _))
  | .release_user _ => inferInstanceAs (Decidable True)

def proper_calls : List Call :=
  [.register_mixer 1, .register_mixer 256, .acquire_user "alice", .acquire_user "bob", .unregister_mixer 1,
    .register_mixer 1, .release_user "bob", .acquire_user "alice"]

theorem run_mixer_assignment_proper_calls :
    machine.along step (fun self call => Valid call ∧ Proper self call) proper_calls {} ∧
      ∃ self, machine.run step proper_calls {} = some self ∧ self.count_mixers.used = self.users.size := by
  have hproper : machine.along step (fun self call => Valid call ∧ Proper self call) proper_calls {} := by
    decide +kernel
  obtain ⟨self, hrun, _, hcount, _⟩ := run_mixer_assignment proper_calls hproper
  exact ⟨hproper, self, hrun, hcount⟩

/-- A mixer registers again on its socket while it has a user. -/
theorem mixer_registered_anew :
    ∃ self, machine.run step [.register_mixer 1, .acquire_user "alice", .register_mixer 1] {} = some self ∧
      self.users.get "alice" = some 1 ∧ self.sockets.get 1 = some { socket := 1 } ∧
      self.count_mixers.used = 0 ∧ self.users.size = 1 := by
  refine ⟨_, rfl, ?_⟩
  decide +kernel

end openvocs.mixer_registry
