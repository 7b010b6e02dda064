import Openvocs.Lib.Dict
import Openvocs.Lib.Machine

/-!
An access behind the array of the proxies and a failed assertion are `none`. The callback for a dropped
session does not use the registry.
-/

open List Option

namespace openvocs.frontend_registry

/-- `IceProxyConnection`. A session is stored with its socket. -/
structure IceProxyConnection where
  socket : Int := -1
  load : Nat := 0
  sessions : Option (Dict String Int) := none

/-- `struct ov_mc_frontend_registry`; `sockets` is the length of the array. -/
structure Registry where
  sessions : Dict String Nat := Dict.empty
  socket : List IceProxyConnection

def uint64_max : Nat := 2 ^ 64 - 1

namespace Registry

def create (max_sockets : Nat) : Registry where
  socket := List.replicate max_sockets {}

variable (self : Registry)

def sockets : Nat := self.socket.length

/-- What is done with the slot of a socket, behind the checks of the caller. The
    slot behind the last one passes them. -/
def at_socket (socket : Int) (f : Nat → IceProxyConnection → Option (Bool × Registry)) : Option (Bool × Registry) :=
  if socket < 1 ∨ (self.sockets : Int) < socket then some (false, self)
  else (self.socket[socket.toNat]?).bind (f socket.toNat)

def set_slot (slot : Nat) (connection : IceProxyConnection) : Registry :=
  { self with socket := self.socket.set slot connection }

/-- `ov_mc_frontend_registry_register_proxy`. The load stays as it was. -/
def register_proxy (socket : Int) : Option (Bool × Registry) :=
  self.at_socket socket fun slot connection =>
    if connection.sessions.isSome then some (false, self)
    else some (true, self.set_slot slot { connection with sessions := some Dict.empty, socket })

/-- `ov_mc_frontend_registry_unregister_proxy`. The load stays as it was. -/
def unregister_proxy (socket : Int) : Option (Bool × Registry) :=
  self.at_socket socket fun slot connection =>
    some (true, self.set_slot slot { connection with sessions := none, socket := -1 })

def register_session (socket : Int) (session_uuid : String) : Option (Bool × Registry) :=
  self.at_socket socket fun slot connection =>
    if connection.socket ≠ socket then some (false, self)
    else
      connection.sessions.map fun sessions =>
        (true,
          { self.set_slot slot
              { connection with sessions := some (sessions.set session_uuid socket), load := connection.load + 1 } with
            sessions := self.sessions.set session_uuid slot })

/-- `ov_mc_frontend_registry_get_session_socket`, which is 0 for an unknown session. -/
def get_session_socket (session_uuid : String) : Nat := (self.sessions.get session_uuid).getD 0

def unregister_session (session_uuid : String) : Option (Bool × Registry) :=
  (self.socket[self.get_session_socket session_uuid]?).map fun connection =>
    (true,
      { self.set_slot (self.get_session_socket session_uuid)
          { connection with
            sessions := connection.sessions.map fun sessions => sessions.del session_uuid
            load := connection.load - 1 } with
        sessions := self.sessions.del session_uuid })

/-- The loop of `ov_mc_frontend_registry_get_proxy_socket`. -/
def least_load : List IceProxyConnection → Nat → Nat → Int → Int
  | [], _, _, socket => socket
  | connection :: connections, i, load, socket =>
    if connection.socket = -1 then least_load connections (i + 1) load socket
    else if connection.load < load then least_load connections (i + 1) connection.load i
    else least_load connections (i + 1) load socket

def get_proxy_socket : Int := least_load self.socket 0 uint64_max (-1)

end Registry

open Registry

/-- The calls that change the registry. -/
inductive Call where
  | register_proxy (socket : Int)
  | unregister_proxy (socket : Int)
  | register_session (socket : Int) (session_uuid : String)
  | unregister_session (session_uuid : String)

def step (call : Call) (self : Registry) : Option Registry :=
  match call with
  | .register_proxy socket => (self.register_proxy socket).map Prod.snd
  | .unregister_proxy socket => (self.unregister_proxy socket).map Prod.snd
  | .register_session socket session_uuid => (self.register_session socket session_uuid).map Prod.snd
  | .unregister_session session_uuid => (self.unregister_session session_uuid).map Prod.snd

/-- The proxy of the socket is registered. -/
def registered (self : Registry) (s : Nat) : Bool :=
  (self.socket[s]?).any fun connection => decide (connection.socket = (s : Int))

/-- The sessions that are mapped to a socket. -/
def live (self : Registry) (s : Nat) : Nat := (self.sessions.entries.filter fun entry => decide (entry.2 = s)).length

/-- The number of sessions that are stored at a proxy. -/
def IceProxyConnection.stored (connection : IceProxyConnection) : Nat :=
  (connection.sessions.getD Dict.empty).size

/-- No proxy with sessions is unregistered, and no session is registered twice. -/
def Proper (self : Registry) : Call → Prop
  | .register_proxy socket => socket ≠ self.sockets
  | .unregister_proxy socket => socket ≠ self.sockets ∧ live self socket.toNat = 0
  | .register_session socket session_uuid =>
    socket ≠ self.sockets ∧ (self.sessions.get session_uuid = none ∨ registered self socket.toNat = false)
  | .unregister_session _ => 0 < self.sockets

/-- A slot is empty, or its proxy has exactly the sessions that are mapped to it. -/
def SlotBooked (sessions : Dict String Nat) (s : Nat) (connection : IceProxyConnection) : Prop :=
  match connection.sessions with
  | none => connection.socket = -1 ∧ connection.load = 0
  | some stored =>
    connection.socket = (s : Int) ∧ 0 < s ∧ connection.load = stored.size ∧
      ∀ id, stored.get id ≠ none ↔ sessions.get id = some s

/-- The three places of a session agree. -/
structure Booked (registry : Registry) : Prop where
  slots : ∀ (s : Nat) (connection : IceProxyConnection), registry.socket[s]? = some connection →
    SlotBooked registry.sessions s connection
  known : ∀ id s, registry.sessions.get id = some s → registered registry s = true

theorem create_booked (max_sockets : Nat) : Booked (create max_sockets) := by
  refine ⟨fun s connection hslot => ?_, fun id s hget => by simp [create] at hget⟩
  rw [eq_of_mem_replicate (mem_of_getElem? hslot)]
  exact ⟨rfl, rfl⟩

variable {s : Nat} {self : Registry}

theorem registered_iff {connection : IceProxyConnection}
    (hslot : self.socket[s]? = some connection) : registered self s = true ↔ connection.socket = (s : Int) := by
  simp [registered, hslot]

theorem Booked.stored (h : Booked self) {connection : IceProxyConnection}
    (hslot : self.socket[s]? = some connection) (hsocket : connection.socket = (s : Int)) :
    ∃ stored, connection.sessions = some stored ∧ 0 < s ∧ connection.load = stored.size ∧
      ∀ id, stored.get id ≠ none ↔ self.sessions.get id = some s := by
  have hbooked := h.slots s connection hslot
  unfold SlotBooked at hbooked
  cases hsessions : connection.sessions with
  | none =>
    rw [hsessions] at hbooked
    omega
  | some stored =>
    rw [hsessions] at hbooked
    exact ⟨stored, rfl, hbooked.2⟩

theorem Booked.empty (h : Booked self) {connection : IceProxyConnection}
    (hslot : self.socket[s]? = some connection) (hsocket : connection.socket ≠ (s : Int)) :
    connection.sessions = none ∧ connection.socket = -1 ∧ connection.load = 0 := by
  have hbooked := h.slots s connection hslot
  unfold SlotBooked at hbooked
  cases hsessions : connection.sessions with
  | none =>
    rw [hsessions] at hbooked
    exact ⟨rfl, hbooked⟩
  | some stored =>
    rw [hsessions] at hbooked
    exact absurd hbooked.1 hsocket

theorem Booked.write {self next : Registry} (h : Booked self) (connection : IceProxyConnection)
    (hs : s < self.sockets) (hnext : next.socket = self.socket.set s connection)
    (hslot : SlotBooked next.sessions s connection)
    (hothers : ∀ id t, t ≠ s → (next.sessions.get id = some t ↔ self.sessions.get id = some t))
    (hknown : ∀ id, next.sessions.get id = some s → connection.socket = (s : Int)) : Booked next := by
  have hself : next.socket[s]? = some connection := by rw [hnext, getElem?_set_self hs]
  have hother : ∀ t, t ≠ s → next.socket[t]? = self.socket[t]? := by
    intro t ht
    rw [hnext, getElem?_set_ne (Ne.symm ht)]
  refine ⟨fun t other hget => ?_, fun id t hget => ?_⟩
  · by_cases ht : t = s
    · rw [ht, hself] at hget
      rw [ht, ← some.inj hget]
      exact hslot
    rw [hother t ht] at hget
    have hbooked := h.slots t other hget
    unfold SlotBooked at hbooked ⊢
    cases hsessions : other.sessions with
    | none =>
      rw [hsessions] at hbooked
      exact hbooked
    | some stored =>
      rw [hsessions] at hbooked
      obtain ⟨hsocket, hpos, hload, hstored⟩ := hbooked
      exact ⟨hsocket, hpos, hload, fun id => (hstored id).trans (hothers id t ht).symm⟩
  by_cases ht : t = s
  · rw [ht] at hget ⊢
    exact (registered_iff hself).mpr (hknown id hget)
  have hold := h.known id t ((hothers id t ht).mp hget)
  unfold registered at hold ⊢
  rw [hother t ht]
  exact hold

theorem at_socket_cases {socket : Int} (hbound : socket ≠ self.sockets)
    (f : Nat → IceProxyConnection → Option (Bool × Registry)) :
    self.at_socket socket f = some (false, self) ∨
      ∃ connection, self.socket[socket.toNat]? = some connection ∧ 0 < socket ∧ (socket.toNat : Int) = socket ∧
        socket.toNat < self.sockets ∧ self.at_socket socket f = f socket.toNat connection := by
  unfold at_socket
  by_cases hcheck : socket < 1 ∨ (self.sockets : Int) < socket
  · exact Or.inl (if_pos hcheck)
  have hlt : socket.toNat < self.sockets := by omega
  have hslot : self.socket[socket.toNat]? = some self.socket[socket.toNat] := getElem?_eq_getElem hlt
  refine Or.inr ⟨_, hslot, by omega, by omega, hlt, ?_⟩
  rw [if_neg hcheck, hslot, bind_some]

theorem Booked.register_proxy (h : Booked self) {socket : Int} (hbound : socket ≠ self.sockets) :
    ∃ ok next, self.register_proxy socket = some (ok, next) ∧ Booked next := by
  unfold Registry.register_proxy
  obtain hrefused | ⟨connection, hslot, hpos, hnat, hlt, heq⟩ := at_socket_cases hbound _
  · exact ⟨false, self, hrefused, h⟩
  rw [heq]
  cases hsessions : connection.sessions with
  | some stored => exact ⟨false, self, by simp, h⟩
  | none =>
    have hbooked := h.slots _ connection hslot
    simp only [SlotBooked, hsessions] at hbooked
    -- nobody is mapped to a proxy that is not registered
    have hnobody : ∀ id, self.sessions.get id ≠ some socket.toNat := by
      intro id hget
      have hregistered := (registered_iff hslot).mp (h.known id _ hget)
      omega
    rw [if_neg (by simp)]
    refine ⟨true, _, rfl, h.write { connection with sessions := some Dict.empty, socket } hlt rfl ?_
      (fun _ _ _ => Iff.rfl) fun _ _ => hnat.symm⟩
    refine ⟨hnat.symm, by omega, hbooked.2, fun id => ?_⟩
    simpa [set_slot] using hnobody id

theorem live_eq_zero (h : live self s = 0) (id : String) : self.sessions.get id ≠ some s := by
  intro hget
  have hmem := Dict.mem_entries_iff.mpr hget
  have hempty := length_eq_zero_iff.mp h
  rw [filter_eq_nil_iff] at hempty
  exact hempty (id, s) hmem (by simp)

theorem Booked.unregister_proxy (h : Booked self) {socket : Int} (hbound : socket ≠ self.sockets)
    (hlive : live self socket.toNat = 0) :
    ∃ ok next, self.unregister_proxy socket = some (ok, next) ∧ Booked next := by
  unfold Registry.unregister_proxy
  obtain hrefused | ⟨connection, hslot, hpos, hnat, hlt, heq⟩ := at_socket_cases hbound _
  · exact ⟨false, self, hrefused, h⟩
  rw [heq]
  have hload : connection.load = 0 := by
    by_cases hsocket : connection.socket = (socket.toNat : Int)
    · obtain ⟨stored, _, _, hload, hstored⟩ := h.stored hslot hsocket
      have hempty : stored.entries = [] := by
        refine eq_nil_iff_forall_not_mem.mpr fun ⟨id, s⟩ hmem => ?_
        have hget := Dict.mem_entries_iff.mp hmem
        exact live_eq_zero hlive id ((hstored id).mp (by simp [hget]))
      rw [hload, Dict.size, hempty, length_nil]
    · exact (h.empty hslot hsocket).2.2
  refine ⟨true, _, rfl, h.write { connection with sessions := none, socket := -1 } hlt rfl ⟨rfl, hload⟩
    (fun _ _ _ => Iff.rfl) fun id hget => ?_⟩
  exact absurd hget (live_eq_zero hlive id)

theorem Booked.register_session (h : Booked self) {socket : Int} {session_uuid : String}
    (hproper : Proper self (.register_session socket session_uuid)) :
    ∃ ok next, self.register_session socket session_uuid = some (ok, next) ∧ Booked next := by
  unfold Registry.register_session
  obtain hrefused | ⟨connection, hslot, hpos, hnat, hlt, heq⟩ := at_socket_cases hproper.1 _
  · exact ⟨false, self, hrefused, h⟩
  rw [heq]
  by_cases hsocket : connection.socket = socket
  · have hregistered : connection.socket = (socket.toNat : Int) := by omega
    have hnew : self.sessions.get session_uuid = none := by
      obtain hnew | hrefused := hproper.2
      · exact hnew
      rw [(registered_iff hslot).mpr hregistered] at hrefused
      simp at hrefused
    obtain ⟨stored, hsessions, hspos, hload, hstored⟩ := h.stored hslot hregistered
    have hnew' : stored.get session_uuid = none := by
      by_contra hknown
      have hget := (hstored session_uuid).mp hknown
      simp [hnew] at hget
    rw [if_neg (not_not.mpr hsocket), hsessions, map_some]
    refine ⟨true, _, rfl, h.write { connection with
      sessions := some (stored.set session_uuid socket), load := connection.load + 1 } hlt rfl ?_
      (fun id t ht => ?_) fun _ _ => hregistered⟩
    · refine ⟨hregistered, hspos, ?_, fun id => ?_⟩
      · show connection.load + 1 = _
        rw [hload, Dict.size_set_of_new hnew']
      rw [Dict.get_set, Dict.get_set]
      by_cases hid : id = session_uuid
      · simp [hid]
      · simpa [hid] using hstored id
    rw [Dict.get_set]
    by_cases hid : id = session_uuid
    · simp [hid, hnew, Ne.symm ht]
    · simp [hid]
  · exact ⟨false, self, by simp [hsocket], h⟩

theorem Booked.unregister_session (h : Booked self) (session_uuid : String) (hsockets : 0 < self.sockets) :
    ∃ ok next, self.unregister_session session_uuid = some (ok, next) ∧ Booked next := by
  have hslot : ∃ connection, self.socket[self.get_session_socket session_uuid]? = some connection := by
    unfold get_session_socket
    cases hget : self.sessions.get session_uuid with
    | none => exact ⟨_, getElem?_eq_getElem hsockets⟩
    | some s =>
      have hknown := h.known session_uuid s hget
      unfold registered at hknown
      obtain ⟨connection, hconnection, _⟩ := (Option.any_eq_true _ _).mp hknown
      exact ⟨connection, hconnection⟩
  obtain ⟨connection, hslot⟩ := hslot
  have hlt := (List.getElem?_eq_some_iff.mp hslot).1
  unfold Registry.unregister_session
  rw [hslot, map_some]
  refine ⟨true, _, rfl, h.write { connection with
    sessions := connection.sessions.map fun sessions => sessions.del session_uuid
    load := connection.load - 1 } hlt rfl ?_ (fun id t ht => ?_) fun id hget => ?_⟩
  · by_cases hsocket : connection.socket = (self.get_session_socket session_uuid : Int)
    · obtain ⟨stored, hsessions, hpos, hload, hstored⟩ := h.stored hslot hsocket
      -- the slot 0 is never registered, so the session is known
      have hget : self.sessions.get session_uuid = some (self.get_session_socket session_uuid) := by
        unfold get_session_socket at hpos ⊢
        cases hget : self.sessions.get session_uuid with
        | none => simp [hget] at hpos
        | some s => rfl
      obtain ⟨value, hvalue⟩ := ne_none_iff_exists'.mp ((hstored session_uuid).mpr hget)
      simp only [SlotBooked, hsessions, map_some]
      refine ⟨hsocket, hpos, ?_, fun id => ?_⟩
      · have hsize := Dict.size_del hvalue
        omega
      rw [Dict.get_del, Dict.get_del]
      by_cases hid : id = session_uuid
      · simp [hid]
      · simpa [hid] using hstored id
    obtain ⟨hsessions, hempty, hload⟩ := h.empty hslot hsocket
    simp only [SlotBooked, hsessions, map_none]
    exact ⟨hempty, by omega⟩
  · show (self.sessions.del session_uuid).get id = some t ↔ _
    rw [Dict.get_del]
    by_cases hid : id = session_uuid
    · have hother : self.sessions.get session_uuid ≠ some t := by
        intro hget
        exact ht (by rw [get_session_socket, hget]; rfl)
      simp [hid, hother]
    · simp [hid]
  have hget' : self.sessions.get id = some (self.get_session_socket session_uuid) := by
    have hget := hget
    rw [show Registry.sessions _ = self.sessions.del session_uuid from rfl, Dict.get_del] at hget
    by_cases hid : id = session_uuid
    · simp [hid] at hget
    · rwa [if_neg hid] at hget
  exact (registered_iff hslot).mp (h.known id _ hget')

theorem Booked.step (h : Booked self) {call : Call} (hproper : Proper self call) :
    ∃ next, step call self = some next ∧ Booked next := by
  have hsecond : ∀ result : Option (Bool × Registry), (∃ ok next, result = some (ok, next) ∧ Booked next) →
      ∃ next, result.map Prod.snd = some next ∧ Booked next := by
    rintro result ⟨ok, next, hresult, hnext⟩
    exact ⟨next, by rw [hresult]; rfl, hnext⟩
  cases call with
  | register_proxy socket => exact hsecond _ (h.register_proxy hproper)
  | unregister_proxy socket => exact hsecond _ (h.unregister_proxy hproper.1 hproper.2)
  | register_session socket session_uuid => exact hsecond _ (h.register_session hproper)
  | unregister_session session_uuid => exact hsecond _ (h.unregister_session session_uuid hproper)

theorem live_eq_size {stored : Dict String Int}
    (h : ∀ id, stored.get id ≠ none ↔ self.sessions.get id = some s) : live self s = stored.size := by
  have hnodup : ((self.sessions.entries.filter fun entry => decide (entry.2 = s)).map Prod.fst).Nodup :=
    self.sessions.nodup.sublist (filter_sublist.map Prod.fst)
  have hperm : ((self.sessions.entries.filter fun entry => decide (entry.2 = s)).map Prod.fst).Perm stored.keys := by
    refine (perm_ext_iff_of_nodup hnodup stored.nodup).mpr fun id => ?_
    show _ ↔ id ∈ stored.keys
    rw [Dict.mem_keys_iff, h]
    simp [Dict.mem_entries_iff]
  have hlength := hperm.length_eq
  simpa [live, Dict.size, Dict.keys] using hlength

theorem Booked.load_eq (h : Booked self) {connection : IceProxyConnection}
    (hslot : self.socket[s]? = some connection) (hsocket : connection.socket = (s : Int)) :
    connection.load = live self s ∧ connection.load = connection.stored := by
  obtain ⟨stored, hsessions, _, hload, hstored⟩ := h.stored hslot hsocket
  constructor
  · rw [hload, live_eq_size hstored]
  · rw [hload, IceProxyConnection.stored, hsessions, getD_some]

theorem least_load_spec (connections : List IceProxyConnection) (i load : Nat) (socket : Int) :
    (least_load connections i load socket = socket ∧
        ∀ connection ∈ connections, connection.socket ≠ -1 → load ≤ connection.load) ∨
      ∃ j connection, connections[j]? = some connection ∧ connection.socket ≠ -1 ∧ connection.load < load ∧
        least_load connections i load socket = ((i + j : Nat) : Int) ∧
        ∀ other ∈ connections, other.socket ≠ -1 → connection.load ≤ other.load := by
  induction connections generalizing i load socket with
  | nil => exact Or.inl ⟨rfl, by simp⟩
  | cons first connections ih =>
    rw [least_load]
    by_cases hempty : first.socket = -1
    · rw [if_pos hempty]
      obtain ⟨heq, hload⟩ | ⟨j, connection, hj, hsocket, hless, heq, hleast⟩ := ih (i + 1) load socket
      · refine Or.inl ⟨heq, forall_mem_cons.mpr ⟨fun hregistered => absurd hempty hregistered, hload⟩⟩
      refine Or.inr ⟨j + 1, connection, by simpa using hj, hsocket, hless, by rw [heq]; congr 1; omega, ?_⟩
      exact forall_mem_cons.mpr ⟨fun hregistered => absurd hempty hregistered, hleast⟩
    rw [if_neg hempty]
    by_cases hfirst : first.load < load
    · rw [if_pos hfirst]
      obtain ⟨heq, hload⟩ | ⟨j, connection, hj, hsocket, hless, heq, hleast⟩ := ih (i + 1) first.load i
      · refine Or.inr ⟨0, first, rfl, hempty, hfirst, by rw [heq]; rfl, ?_⟩
        exact forall_mem_cons.mpr ⟨fun _ => Nat.le_refl _, hload⟩
      refine Or.inr ⟨j + 1, connection, by simpa using hj, hsocket, by omega, by rw [heq]; congr 1; omega, ?_⟩
      exact forall_mem_cons.mpr ⟨fun _ => by omega, hleast⟩
    rw [if_neg hfirst]
    obtain ⟨heq, hload⟩ | ⟨j, connection, hj, hsocket, hless, heq, hleast⟩ := ih (i + 1) load socket
    · exact Or.inl ⟨heq, forall_mem_cons.mpr ⟨fun _ => by omega, hload⟩⟩
    refine Or.inr ⟨j + 1, connection, by simpa using hj, hsocket, hless, by rw [heq]; congr 1; omega, ?_⟩
    exact forall_mem_cons.mpr ⟨fun _ => by omega, hleast⟩

theorem Booked.get_proxy_socket (h : Booked self) (hs : registered self s = true)
    (hlive : live self s < uint64_max) :
    ∃ t : Nat, self.get_proxy_socket = t ∧ registered self t = true ∧
      ∀ u, registered self u = true → live self t ≤ live self u := by
  have hslot : ∀ u, registered self u = true → ∃ connection, self.socket[u]? = some connection ∧
      connection.socket = (u : Int) := by
    intro u hu
    unfold registered at hu
    obtain ⟨connection, hconnection, hsocket⟩ := (Option.any_eq_true _ _).mp hu
    exact ⟨connection, hconnection, by simpa using hsocket⟩
  unfold Registry.get_proxy_socket
  obtain ⟨_, hload⟩ | ⟨j, connection, hj, hsocket, _, heq, hleast⟩ := least_load_spec self.socket 0 uint64_max (-1)
  · obtain ⟨connection, hconnection, hsocket⟩ := hslot s hs
    have hmax := hload connection (mem_of_getElem? hconnection) (by omega)
    have hlive' := (h.load_eq hconnection hsocket).1
    omega
  have hown : connection.socket = (j : Int) := by
    by_contra hother
    exact hsocket (h.empty hj hother).2.1
  refine ⟨j, by rw [heq, Nat.zero_add], (registered_iff hj).mpr hown, fun u hu => ?_⟩
  obtain ⟨other, hother, hsocket'⟩ := hslot u hu
  have hle := hleast other (mem_of_getElem? hother) (by omega)
  rw [← (h.load_eq hj hown).1, ← (h.load_eq hother hsocket').1]
  exact hle

theorem Booked.get_session_socket (h : Booked self) {id : String}
    (hsocket : self.get_session_socket id ≠ 0) : registered self (self.get_session_socket id) = true := by
  unfold Registry.get_session_socket at hsocket ⊢
  cases hget : self.sessions.get id with
  | none => simp [hget] at hsocket
  | some s => exact h.known id s hget

/-- In every run of proper calls the load of every registered proxy is the number of
    the sessions that are mapped to it and the number of those that are stored at it,
    sessions are mapped to registered proxies only, and a proxy with the fewest
    sessions is chosen. -/
theorem run_session_books (max_sockets : Nat) (calls : List Call)
    (h : machine.along step Proper calls (create max_sockets)) :
    ∃ self, machine.run step calls (create max_sockets) = some self ∧
      (∀ (s : Nat) (connection : IceProxyConnection), self.socket[s]? = some connection →
        connection.socket = (s : Int) → connection.load = live self s ∧ connection.load = connection.stored) ∧
      (∀ id, self.get_session_socket id ≠ 0 → registered self (self.get_session_socket id) = true) ∧
      ∀ s, registered self s = true → live self s < uint64_max →
        ∃ t : Nat, self.get_proxy_socket = t ∧ registered self t = true ∧
          ∀ u, registered self u = true → live self t ≤ live self u := by
  obtain ⟨self, hrun, hbooked⟩ := machine.run_defined Booked Proper (fun _ _ hs hproper => hs.step hproper)
    calls (create_booked max_sockets) h
  refine ⟨self, hrun, fun _ _ => hbooked.load_eq, fun _ => hbooked.get_session_socket, fun _ => hbooked.get_proxy_socket⟩

instance (self : Registry) : (call : Call) → Decidable (Proper self call)
  | .register_proxy _ => inferInstanceAs (Decidable (_ ≠ _))
  | .unregister_proxy _ => inferInstanceAs (Decidable (_ ∧ _))
  | .register_session _ _ => inferInstanceAs (Decidable (_ ∧ _))
  | .unregister_session _ => inferInstanceAs (Decidable (_ < _))

def proper_calls : List Call :=
  [.register_proxy 1, .register_proxy 2, .register_session 1 "a", .register_session 2 "b", .register_session 2 "c",
    .unregister_session "a", .unregister_proxy 1, .register_proxy 1]

theorem run_session_books_proper_calls : machine.along step Proper proper_calls (create 4) ∧
      ∃ self, machine.run step proper_calls (create 4) = some self ∧
        ∀ id, self.get_session_socket id ≠ 0 → registered self (self.get_session_socket id) = true := by
  have hproper : machine.along step Proper proper_calls (create 4) := by decide +kernel
  obtain ⟨self, hrun, _, hsessions, _⟩ := run_session_books 4 proper_calls hproper
  exact ⟨hproper, self, hrun, hsessions⟩

/-- A proxy is lost with its session and comes back on the same socket. -/
theorem lost_proxy_keeps_load :
    ∃ self connection, machine.run step [.register_proxy 1, .register_session 1 "a", .unregister_proxy 1,
      .register_proxy 1] (create 4) = some self ∧ self.socket[1]? = some connection ∧ connection.socket = 1 ∧
      connection.load = 1 ∧ connection.stored = 0 ∧ self.get_session_socket "a" = 1 := by
  refine ⟨_, _, rfl, rfl, ?_⟩
  decide +kernel

end openvocs.frontend_registry
