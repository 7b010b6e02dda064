import Openvocs.Lib.Assoc
import Openvocs.Lib.Machine
import Openvocs.Lib.Pairing

/-!
An access behind the array of the mixers is `none`. The lock is free whenever it is taken.
-/

open List Option
open pairing

namespace openvocs.backend_registry

/-- `ov_mc_mixer_data`, without the address of the mixer. -/
structure MixerData where
  socket : Int := 0
  uuid : String := ""
  user : String := ""
  deriving DecidableEq

/-- `struct ov_mc_backend_registry`; `sockets` is the length of the array. -/
structure Registry where
  users : List (String × Nat) := []
  socket : List MixerData
  deriving DecidableEq

/-- `sizeof(ov_id)`. -/
def id_size : Nat := 37

namespace Registry

def create (max_sockets : Nat) : Registry where
  socket := List.replicate max_sockets { socket := -1 }

variable (self : Registry)

def sockets : Nat := self.socket.length

/-- `(int)self->sockets`. -/
def int_sockets : Int :=
  if self.sockets % 4294967296 < 2147483648 then self.sockets % 4294967296
  else self.sockets % 4294967296 - 4294967296

/-- An assignment to the slot of a socket, behind the checks of the caller. The
    slot behind the last one passes them. -/
def set_slot (socket : Int) (data : MixerData) : Option (Bool × Registry) :=
  if self.int_sockets < socket then some (false, self)
  else if socket < 1 then some (false, self)
  else if socket.toNat < self.sockets then
    some (true, { self with socket := self.socket.set socket.toNat data })
  else none

def register_mixer (data : MixerData) : Option (Bool × Registry) :=
  self.set_slot data.socket { data with user := "" }

def unregister_mixer (socket : Int) : Option (Bool × Registry) :=
  self.set_slot socket { socket := -1 }

def get_socket (socket : Int) : Option MixerData :=
  if self.int_sockets < socket then some {}
  else if socket < 1 then some {}
  else self.socket[socket.toNat]?

/-- The first mixer without a user. -/
def free_slot : Option Nat := self.socket.findIdx? fun data => decide (data.socket ≠ -1 ∧ data.user = "")

def acquire_user (uuid : String) : Option (MixerData × Registry) :=
  match self.free_slot with
  | none => some ({}, self)
  | some slot =>
    match self.socket[slot]? with
    | none => none
    | some data =>
      if uuid.utf8ByteSize < id_size then
        some ({ data with user := uuid },
          { users := assoc.erase uuid self.users ++ [(uuid, data.socket.toNat)]
            socket := self.socket.set slot { data with user := uuid } })
      else none

/-- The slot of a user, which is 0 for an unknown one. -/
def slot_of (uuid : String) : Nat := (self.users.lookup uuid).getD 0

def get_user (uuid : String) : Option MixerData := self.socket[self.slot_of uuid]?

def release_user (uuid : String) : Option (Bool × Registry) :=
  match self.socket[self.slot_of uuid]? with
  | none => none
  | some data =>
    some (true,
      { users := assoc.erase uuid self.users
        socket := self.socket.set (self.slot_of uuid) { data with user := "" } })

end Registry

open Registry

/-- The calls that change the registry. -/
inductive Call where
  | register_mixer (data : MixerData)
  | unregister_mixer (socket : Int)
  | acquire_user (uuid : String)
  | release_user (uuid : String)

def step (call : Call) (self : Registry) : Option Registry :=
  match call with
  | .register_mixer data => (self.register_mixer data).map Prod.snd
  | .unregister_mixer socket => (self.unregister_mixer socket).map Prod.snd
  | .acquire_user uuid => (self.acquire_user uuid).map Prod.snd
  | .release_user uuid => (self.release_user uuid).map Prod.snd

/-- The user of a mixer that is registered. -/
def holder (self : Registry) (s : Nat) : Option String :=
  (self.socket[s]?).bind fun data => if data.socket = s ∧ data.user ≠ "" then some data.user else none

/-- Users and mixers are assigned to each other, and every slot is empty or holds
    the mixer of its socket. -/
structure Assigned (registry : Registry) : Prop where
  paired : Paired (fun uuid => registry.users.lookup uuid) (holder registry)
  own_socket : ∀ (s : Nat) (data : MixerData), registry.socket[s]? = some data →
    data.socket = (s : Int) ∧ 0 < s ∨ data.socket = -1 ∧ data.user = ""

/-- The call leaves no entry of a user behind: mixers come and go only while they
    have no user, and nobody who has a mixer takes another one. -/
def Proper (self : Registry) : Call → Prop
  | .register_mixer data => data.socket ≠ self.sockets ∧ holder self data.socket.toNat = none
  | .unregister_mixer socket => socket ≠ self.sockets ∧ holder self socket.toNat = none
  | .acquire_user uuid =>
    self.free_slot = none ∨ uuid ≠ "" ∧ uuid.utf8ByteSize < id_size ∧ self.users.lookup uuid = none
  | .release_user _ => 0 < self.sockets

instance (self : Registry) : (call : Call) → Decidable (Proper self call)
  | .register_mixer _ => inferInstanceAs (Decidable (_ ∧ _))
  | .unregister_mixer _ => inferInstanceAs (Decidable (_ ∧ _))
  | .acquire_user _ => inferInstanceAs (Decidable (_ ∨ _))
  | .release_user _ => inferInstanceAs (Decidable (_ < _))

theorem create_assigned (max_sockets : Nat) : Assigned (create max_sockets) := by
  have hslot : ∀ (s : Nat) (data : MixerData), (create max_sockets).socket[s]? = some data → data = { socket := -1 } := by
    intro s data hdata
    have hmem := mem_of_getElem? hdata
    exact eq_of_mem_replicate hmem
  refine ⟨fun uuid s => ?_, fun s data hdata => Or.inr ?_⟩
  · have hholder : holder (create max_sockets) s = none := by
      unfold holder
      cases hdata : (create max_sockets).socket[s]? with
      | none => rfl
      | some data => simp [hslot s data hdata]
    rw [hholder]
    simp [create]
  · simp [hslot s data hdata]

variable {s : Nat} {self : Registry}

theorem Assigned.holder_eq (h : Assigned self) {data : MixerData}
    (hdata : self.socket[s]? = some data) : holder self s = if data.user = "" then none else some data.user := by
  unfold holder
  rw [hdata]
  obtain ⟨hsocket, _⟩ | ⟨_, huser⟩ := h.own_socket s data hdata
  · by_cases huser : data.user = "" <;> simp [hsocket, huser]
  · simp [huser]

theorem holder_set {self next : Registry} {data : MixerData} (hs : s < self.sockets)
    (hnext : next.socket = self.socket.set s data) (t : Nat) :
    holder next t =
      if t = s then (if data.socket = (s : Int) ∧ data.user ≠ "" then some data.user else none) else holder self t := by
  unfold holder
  rw [hnext, getElem?_set]
  by_cases hts : s = t
  · have hlt : s < self.socket.length := hs
    subst hts
    simp [hlt]
  · simp [hts, Ne.symm hts]

theorem own_socket_set {self next : Registry} (h : Assigned self) {data : MixerData}
    (hnext : next.socket = self.socket.set s data)
    (hdata : data.socket = (s : Int) ∧ 0 < s ∨ data.socket = -1 ∧ data.user = "") (t : Nat) (other : MixerData)
    (hother : next.socket[t]? = some other) :
    other.socket = (t : Int) ∧ 0 < t ∨ other.socket = -1 ∧ other.user = "" := by
  rw [hnext, getElem?_set] at hother
  by_cases hts : s = t
  · by_cases hlt : s < self.socket.length
    · simp only [hts, if_true] at hother
      rw [if_pos (hts ▸ hlt)] at hother
      rw [← some.inj hother, ← hts]
      exact hdata
    · simp [hts, hts ▸ hlt] at hother
  rw [if_neg hts] at hother
  exact h.own_socket t other hother

theorem int_sockets_le (self : Registry) : self.int_sockets ≤ self.sockets := by
  rw [int_sockets]
  split <;> omega

theorem Assigned.set_slot (h : Assigned self) {socket : Int} (data : MixerData)
    (hbound : socket ≠ self.sockets) (hfree : holder self socket.toNat = none) (huser : data.user = "")
    (hsocket : data.socket = socket ∨ data.socket = -1) :
    ∃ ok next, self.set_slot socket data = some (ok, next) ∧ Assigned next := by
  unfold Registry.set_slot
  by_cases habove : self.int_sockets < socket
  · rw [if_pos habove]
    exact ⟨false, self, rfl, h⟩
  by_cases hbelow : socket < 1
  · rw [if_neg habove, if_pos hbelow]
    exact ⟨false, self, rfl, h⟩
  have hcast := int_sockets_le self
  have hs : socket.toNat < self.sockets := by omega
  have hown : data.socket = (socket.toNat : Int) ∧ 0 < socket.toNat ∨ data.socket = -1 ∧ data.user = "" := by
    obtain heq | heq := hsocket
    · exact Or.inl ⟨by omega, by omega⟩
    · exact Or.inr ⟨heq, huser⟩
  rw [if_neg habove, if_neg hbelow, if_pos hs]
  refine ⟨true, _, rfl, ?_, own_socket_set h rfl hown⟩
  refine h.paired.congr (fun _ => rfl) fun t => ?_
  rw [holder_set hs rfl]
  by_cases ht : t = socket.toNat
  · simp [ht, huser, hfree]
  · simp [ht]

theorem free_slot_spec {slot : Nat} (h : self.free_slot = some slot) :
    ∃ data, self.socket[slot]? = some data ∧ data.socket ≠ -1 ∧ data.user = "" := by
  unfold free_slot at h
  rw [findIdx?_eq_some_iff_getElem] at h
  obtain ⟨hlt, hfree, _⟩ := h
  simp only [ne_eq, decide_eq_true_eq] at hfree
  exact ⟨self.socket[slot], getElem?_eq_getElem hlt, hfree.1, hfree.2⟩

theorem Assigned.acquire_user (h : Assigned self) {uuid : String}
    (hproper : Proper self (.acquire_user uuid)) :
    ∃ data next, self.acquire_user uuid = some (data, next) ∧ Assigned next := by
  unfold Registry.acquire_user
  cases hslot : self.free_slot with
  | none => exact ⟨{}, self, rfl, h⟩
  | some slot =>
    obtain ⟨data, hdata, hsocket, huser⟩ := free_slot_spec hslot
    obtain hnone | ⟨huuid, hsize, hunknown⟩ := hproper
    · simp [hslot] at hnone
    have hlt : slot < self.sockets := (List.getElem?_eq_some_iff.mp hdata).1
    have hfree : holder self slot = none := by rw [h.holder_eq hdata, if_pos huser]
    have hown : data.socket = (slot : Int) ∧ 0 < slot :=
      (h.own_socket slot data hdata).resolve_right fun hempty => hsocket hempty.1
    simp only [hdata]
    rw [if_pos hsize]
    refine ⟨_, _, rfl, ?_, own_socket_set h rfl (Or.inl hown)⟩
    refine h.paired.pair hunknown hfree (fun other => ?_) fun t => ?_
    · rw [assoc.lookup_erase_append, hown.1, Int.toNat_natCast]
    rw [holder_set hlt rfl]
    simp [hown.1, huuid]

theorem Assigned.release_user (h : Assigned self) (uuid : String) (hsockets : 0 < self.sockets) :
    ∃ ok next, self.release_user uuid = some (ok, next) ∧ Assigned next := by
  have hslot : ∃ data, self.socket[self.slot_of uuid]? = some data := by
    cases hlookup : self.users.lookup uuid with
    | none => exact ⟨_, by rw [slot_of, hlookup]; exact getElem?_eq_getElem hsockets⟩
    | some s =>
      have hholder := (h.paired uuid s).mp hlookup
      unfold holder at hholder
      obtain ⟨data, hdata, _⟩ := bind_eq_some_iff.mp hholder
      exact ⟨data, by rw [slot_of, hlookup]; exact hdata⟩
  obtain ⟨data, hdata⟩ := hslot
  have hlt : self.slot_of uuid < self.sockets := (List.getElem?_eq_some_iff.mp hdata).1
  have hown : data.socket = (self.slot_of uuid : Int) ∧ 0 < self.slot_of uuid ∨ data.socket = -1 ∧ "" = "" := by
    obtain hregistered | hempty := h.own_socket _ data hdata
    · exact Or.inl hregistered
    · exact Or.inr ⟨hempty.1, rfl⟩
  unfold Registry.release_user
  simp only [hdata]
  refine ⟨true, _, rfl, ?_, own_socket_set h rfl hown⟩
  cases hlookup : self.users.lookup uuid with
  | none =>
    -- the slot 0 is cleared, where no mixer is ever registered
    refine h.paired.congr (fun other => ?_) fun t => ?_
    · simp only [assoc.lookup_erase]
      by_cases hother : other = uuid
      · simp [hother, hlookup]
      · simp [hother]
    rw [holder_set hlt rfl]
    by_cases ht : t = self.slot_of uuid
    · have hzero : self.slot_of uuid = 0 := by rw [slot_of, hlookup]; rfl
      have huser : data.user = "" := by
        obtain ⟨_, hpos⟩ | ⟨_, huser⟩ := h.own_socket _ data hdata
        · omega
        · exact huser
      rw [ht, h.holder_eq hdata]
      simp [huser]
    · simp [ht]
  | some s =>
    have hs : self.slot_of uuid = s := by rw [slot_of, hlookup]; rfl
    refine h.paired.unpair hlookup (fun other => by rw [assoc.lookup_erase]) fun t => ?_
    rw [holder_set hlt rfl, hs]
    simp

theorem Assigned.step (h : Assigned self) {call : Call} (hproper : Proper self call) :
    ∃ next, step call self = some next ∧ Assigned next := by
  cases call with
  | register_mixer data =>
    obtain ⟨ok, next, hset, hnext⟩ := h.set_slot { data with user := "" } hproper.1 hproper.2 rfl (Or.inl rfl)
    exact ⟨next, by simp only [backend_registry.step, register_mixer, hset, map_some], hnext⟩
  | unregister_mixer socket =>
    obtain ⟨ok, next, hset, hnext⟩ := h.set_slot { socket := -1 } hproper.1 hproper.2 rfl (Or.inr rfl)
    exact ⟨next, by simp only [backend_registry.step, unregister_mixer, hset, map_some], hnext⟩
  | acquire_user uuid =>
    obtain ⟨data, next, hacquire, hnext⟩ := h.acquire_user hproper
    exact ⟨next, by simp only [backend_registry.step, hacquire, map_some], hnext⟩
  | release_user uuid =>
    obtain ⟨ok, next, hrelease, hnext⟩ := h.release_user uuid hproper
    exact ⟨next, by simp only [backend_registry.step, hrelease, map_some], hnext⟩

theorem Assigned.holder_zero (h : Assigned self) : holder self 0 = none := by
  cases hdata : self.socket[0]? with
  | none => simp [holder, hdata]
  | some data =>
    obtain ⟨_, hpos⟩ | ⟨_, huser⟩ := h.own_socket 0 data hdata
    · omega
    · rw [h.holder_eq hdata, if_pos huser]

theorem Assigned.get_user (h : Assigned self) {uuid : String} {data : MixerData}
    (hget : self.get_user uuid = some data) : data.socket = -1 ∨ data.user = uuid := by
  unfold Registry.get_user slot_of at hget
  cases hlookup : self.users.lookup uuid with
  | none =>
    rw [hlookup] at hget
    obtain ⟨_, hpos⟩ | ⟨hempty, _⟩ := h.own_socket 0 data hget
    · omega
    · exact Or.inl hempty
  | some s =>
    rw [hlookup, getD_some] at hget
    have hholder := (h.paired uuid s).mp hlookup
    rw [h.holder_eq hget] at hholder
    by_cases huser : data.user = ""
    · simp [huser] at hholder
    rw [if_neg huser] at hholder
    exact Or.inr (some.inj hholder)

theorem Assigned.release_frame {self next : Registry} (h : Assigned self) {uuid other : String} {ok : Bool}
    (hrelease : self.release_user uuid = some (ok, next)) (hholder : holder self s = some other)
    (hother : other ≠ uuid) : next.socket[s]? = self.socket[s]? := by
  have hslot : self.slot_of uuid ≠ s := by
    intro hs
    cases hlookup : self.users.lookup uuid with
    | none =>
      have hzero : s = 0 := by rw [← hs, slot_of, hlookup]; rfl
      simp [hzero, h.holder_zero] at hholder
    | some t =>
      have hts : t = s := by rw [← hs, slot_of, hlookup]; rfl
      have hown := (h.paired uuid t).mp hlookup
      rw [hts, hholder] at hown
      exact hother (some.inj hown)
  unfold Registry.release_user at hrelease
  cases hdata : self.socket[self.slot_of uuid]? with
  | none => simp [hdata] at hrelease
  | some data =>
    simp only [hdata, some.injEq, Prod.mk.injEq] at hrelease
    rw [← hrelease.2]
    exact getElem?_set_ne hslot

/-- In every run of proper calls the two views of the assignment agree. Hence every
    mixer that is reported works for the user, no mixer is shared, nobody has two,
    and a release leaves the other users alone. -/
theorem run_assignment (max_sockets : Nat) (calls : List Call)
    (h : machine.along step Proper calls (create max_sockets)) :
    ∃ self, machine.run step calls (create max_sockets) = some self ∧
      (∀ uuid s, self.users.lookup uuid = some s ↔ holder self s = some uuid) ∧
      (∀ uuid data, self.get_user uuid = some data → data.socket = -1 ∨ data.user = uuid) ∧
      (∀ uuid other s, self.users.lookup uuid = some s → self.users.lookup other = some s → uuid = other) ∧
      (∀ uuid s t, holder self s = some uuid → holder self t = some uuid → s = t) ∧
      ∀ uuid ok next, self.release_user uuid = some (ok, next) →
        ∀ s other, holder self s = some other → other ≠ uuid → next.socket[s]? = self.socket[s]? := by
  obtain ⟨self, hrun, hassigned⟩ := machine.run_defined Assigned Proper (fun _ _ hs hproper => hs.step hproper)
    calls (create_assigned max_sockets) h
  refine ⟨self, hrun, hassigned.paired, fun _ _ => hassigned.get_user, ?_, ?_, ?_⟩
  · exact fun _ _ _ => hassigned.paired.left_injective
  · exact fun _ _ _ => hassigned.paired.right_injective
  · exact fun _ _ _ hrelease _ _ => hassigned.release_frame hrelease

def proper_calls : List Call :=
  [.register_mixer { socket := 1 }, .register_mixer { socket := 2 }, .acquire_user "alice", .acquire_user "bob",
    .release_user "alice", .unregister_mixer 1, .register_mixer { socket := 1 }, .acquire_user "alice"]

theorem run_assignment_proper_calls : machine.along step Proper proper_calls (create 4) ∧
      ∃ self, machine.run step proper_calls (create 4) = some self ∧
        ∀ uuid s, self.users.lookup uuid = some s ↔ holder self s = some uuid := by
  have hproper : machine.along step Proper proper_calls (create 4) := by decide +kernel
  obtain ⟨self, hrun, hpaired, _⟩ := run_assignment 4 proper_calls hproper
  exact ⟨hproper, self, hrun, hpaired⟩

/-- A mixer is lost while it has a user, and its socket is reused. -/
theorem lost_mixer_reported :
    ∃ self, machine.run step [.register_mixer { socket := 1 }, .acquire_user "alice", .unregister_mixer 1,
      .register_mixer { socket := 1 }, .acquire_user "bob"] (create 4) = some self ∧
      self.users.lookup "alice" = some 1 ∧ holder self 1 = some "bob" ∧
      self.get_user "alice" = some { socket := 1, user := "bob" } := by
  refine ⟨_, rfl, ?_⟩
  decide +kernel

end openvocs.backend_registry
