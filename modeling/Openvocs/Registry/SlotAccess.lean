import Openvocs.Registry.BackendRegistry
import Openvocs.Registry.EventBroadcast
import Openvocs.Registry.FrontendRegistry

/-!
An `int` is a `BitVec 32`.
-/

open List Option

namespace openvocs

namespace event_broadcast

open Broadcast

variable {σ : Type}

theorem set_connection_isSome_iff (self : Broadcast σ) (socket : Int) (type : UInt8) (send : Option σ → Option σ) :
    (self.set_connection socket type send).isSome ↔ socket ≠ self.max_sockets := by
  by_cases hbehind : socket = self.max_sockets
  · rw [set_connection_behind hbehind]
    simp [hbehind]
  refine iff_of_true ?_ hbehind
  by_cases hout : socket < 0 ∨ (self.max_sockets : Int) < socket
  · rw [set_connection_refused hout]
    rfl
  have hslot : socket.toNat < self.connections.length := by
    have hlt : socket.toNat < self.max_sockets := by omega
    exact hlt
  rw [Broadcast.set_connection, if_neg (by omega), if_neg (by omega), getElem?_eq_getElem hslot]
  rfl

end event_broadcast

namespace backend_registry

open Registry

/-- The slot of a socket is there unless it is the one behind the last slot. An empty
    table refuses all sockets. -/
def InTable (sockets : Nat) (socket : Int) : Prop := socket ≠ sockets ∨ sockets = 0

theorem int_sockets_eq {self : Registry} {socket : BitVec 32} (h : socket.toInt = self.sockets) :
    self.int_sockets = self.sockets := by
  have hlt := BitVec.toInt_lt (x := socket)
  rw [int_sockets, if_pos (by omega)]
  omega

theorem slot_lt_iff (self : Registry) (socket : BitVec 32) :
    (¬ self.int_sockets < socket.toInt → ¬ socket.toInt < 1 → socket.toInt.toNat < self.sockets) ↔
      InTable self.sockets socket.toInt := by
  have hcast := int_sockets_le self
  constructor
  · intro h
    by_contra hout
    rw [InTable, not_or, not_not] at hout
    have heq := int_sockets_eq hout.1
    have hlt := h (by omega) (by omega)
    omega
  · rintro (hne | hempty) habove hbelow <;> omega

theorem set_slot_isSome_iff (self : Registry) (socket : BitVec 32) (data : MixerData) :
    (self.set_slot socket.toInt data).isSome ↔ InTable self.sockets socket.toInt := by
  rw [← slot_lt_iff, set_slot]
  by_cases habove : self.int_sockets < socket.toInt
  · simp [habove]
  by_cases hbelow : socket.toInt < 1
  · simp [hbelow, habove]
  · by_cases hslot : socket.toInt.toNat < self.sockets <;> simp [hslot, hbelow, habove]

theorem get_socket_isSome_iff (self : Registry) (socket : BitVec 32) :
    (self.get_socket socket.toInt).isSome ↔ InTable self.sockets socket.toInt := by
  rw [← slot_lt_iff, get_socket]
  by_cases habove : self.int_sockets < socket.toInt
  · simp [habove]
  by_cases hbelow : socket.toInt < 1
  · simp [hbelow, habove]
  rw [if_neg habove, if_neg hbelow, isSome_getElem?]
  simp [habove, hbelow, sockets]

end backend_registry

namespace frontend_registry

open Registry
open backend_registry (InTable)

theorem at_socket_isSome_iff (self : Registry) (socket : Int) (f : Nat → IceProxyConnection → Option (Bool × Registry))
    (hf : 0 < socket → ∀ slot connection, self.socket[slot]? = some connection → (f slot connection).isSome) :
    (self.at_socket socket f).isSome ↔ InTable self.sockets socket := by
  by_cases hbehind : socket = self.sockets
  · by_cases hempty : self.sockets = 0
    · refine iff_of_true ?_ (Or.inr hempty)
      rw [at_socket, if_pos (Or.inl (by omega))]
      rfl
    refine iff_of_false ?_ (fun h => h.elim (fun hne => hne hbehind) hempty)
    rw [at_socket, if_neg (by omega), getElem?_eq_none (by rw [hbehind, Int.toNat_natCast]; exact Nat.le_refl _)]
    simp
  refine iff_of_true ?_ (Or.inl hbehind)
  obtain hrefused | ⟨connection, hslot, hpos, _, _, heq⟩ := at_socket_cases hbehind f
  · rw [hrefused]
    rfl
  rw [heq]
  exact hf hpos _ _ hslot

/-- A slot with a socket has a dictionary. -/
def Equipped (self : Registry) : Prop :=
  ∀ (slot : Nat) (connection : IceProxyConnection), self.socket[slot]? = some connection →
    connection.socket ≠ -1 → connection.sessions.isSome

theorem Equipped.write {self next : Registry} (h : Equipped self) {slot : Nat} {connection : IceProxyConnection}
    (hnext : next.socket = self.socket.set slot connection)
    (hconnection : connection.socket ≠ -1 → connection.sessions.isSome) : Equipped next := by
  intro other found hfound hsocket
  rw [hnext, getElem?_set] at hfound
  by_cases hslot : slot = other
  · rw [if_pos hslot] at hfound
    split at hfound
    · cases hfound
      exact hconnection hsocket
    · cases hfound
  rw [if_neg hslot] at hfound
  exact h other found hfound hsocket

theorem Equipped.at_socket {self : Registry} (h : Equipped self) {socket : Int}
    {f : Nat → IceProxyConnection → Option (Bool × Registry)} {ok : Bool} {next : Registry}
    (hat : self.at_socket socket f = some (ok, next))
    (hf : ∀ slot connection, self.socket[slot]? = some connection → f slot connection = some (ok, next) → Equipped next) :
    Equipped next := by
  rw [Registry.at_socket] at hat
  split at hat
  · cases hat
    exact h
  obtain ⟨connection, hslot, hresult⟩ := bind_eq_some_iff.mp hat
  exact hf _ connection hslot hresult

theorem Equipped.step {self next : Registry} (h : Equipped self) {call : Call} (hstep : step call self = some next) :
    Equipped next := by
  cases call with
  | register_proxy socket =>
    obtain ⟨⟨ok, after⟩, hcall, rfl⟩ := map_eq_some_iff.mp hstep
    refine h.at_socket hcall fun slot connection _ hresult => ?_
    split at hresult <;> cases hresult
    · exact h
    · exact h.write rfl (fun _ => rfl)
  | unregister_proxy socket =>
    obtain ⟨⟨ok, after⟩, hcall, rfl⟩ := map_eq_some_iff.mp hstep
    refine h.at_socket hcall fun slot connection _ hresult => ?_
    cases hresult
    exact h.write rfl (fun hne => absurd rfl hne)
  | register_session socket session_uuid =>
    obtain ⟨⟨ok, after⟩, hcall, rfl⟩ := map_eq_some_iff.mp hstep
    refine h.at_socket hcall fun slot connection _ hresult => ?_
    split at hresult
    · cases hresult
      exact h
    obtain ⟨sessions, _, hset⟩ := map_eq_some_iff.mp hresult
    cases hset
    exact h.write rfl (fun _ => rfl)
  | unregister_session session_uuid =>
    obtain ⟨⟨ok, after⟩, hcall, rfl⟩ := map_eq_some_iff.mp hstep
    obtain ⟨connection, hslot, hset⟩ := map_eq_some_iff.mp hcall
    cases hset
    refine h.write rfl fun hsocket => ?_
    rw [isSome_map]
    exact h _ connection hslot hsocket

theorem run_equipped {max_sockets : Nat} {calls : List Call} {self : Registry}
    (hrun : machine.run step calls (create max_sockets) = some self) : Equipped self := by
  apply machine.run_invariant Equipped (fun _ _ => True) (fun _ _ _ h _ hstep => h.step hstep) calls ?_ ?_ hrun
  · intro slot connection hslot hsocket
    rw [eq_of_mem_replicate (mem_of_getElem? hslot)] at hsocket
    exact absurd rfl hsocket
  · exact machine.along_of_forall calls (fun _ _ _ => trivial) _

theorem register_proxy_isSome_iff (self : Registry) (socket : Int) :
    (self.register_proxy socket).isSome ↔ InTable self.sockets socket := by
  apply at_socket_isSome_iff
  intro _ slot connection _
  split <;> rfl

theorem Equipped.register_session_isSome_iff {self : Registry} (h : Equipped self) (socket : Int)
    (session_uuid : String) : (self.register_session socket session_uuid).isSome ↔ InTable self.sockets socket := by
  apply at_socket_isSome_iff
  intro hpos slot connection hslot
  by_cases hother : connection.socket = socket
  · have hsessions := h slot connection hslot (by omega)
    rw [if_neg (not_not.mpr hother), isSome_map]
    exact hsessions
  rw [if_pos hother]
  rfl

end frontend_registry

open backend_registry (InTable MixerData)

/-- The slot that a socket leads to is in the table if and only if the socket is not
    the number of the slots. The two registries with slots from 1 on have no such slot
    to use when they are empty. -/
theorem slots_in_table_iff {σ : Type} (socket : BitVec 32) :
    (∀ (self : event_broadcast.Broadcast σ) (type : UInt8),
      (self.set socket.toInt type).isSome ↔ socket.toInt ≠ self.max_sockets) ∧
    (∀ (self : event_broadcast.Broadcast σ) (type : UInt8) (send : σ),
      (self.set_send socket.toInt type send).isSome ↔ socket.toInt ≠ self.max_sockets) ∧
    (∀ (self : backend_registry.Registry) (data : MixerData),
      (self.register_mixer { data with socket := socket.toInt }).isSome ↔ InTable self.sockets socket.toInt) ∧
    (∀ self : backend_registry.Registry, (self.unregister_mixer socket.toInt).isSome ↔ InTable self.sockets socket.toInt) ∧
    (∀ self : backend_registry.Registry, (self.get_socket socket.toInt).isSome ↔ InTable self.sockets socket.toInt) ∧
    (∀ self : frontend_registry.Registry, (self.register_proxy socket.toInt).isSome ↔ InTable self.sockets socket.toInt) ∧
    (∀ max_sockets calls self,
      machine.run frontend_registry.step calls (frontend_registry.Registry.create max_sockets) = some self →
      ∀ session_uuid, (self.register_session socket.toInt session_uuid).isSome ↔ InTable self.sockets socket.toInt) := by
  refine ⟨?_, ?_, ?_, ?_, ?_, ?_, ?_⟩
  · intro self type
    exact event_broadcast.set_connection_isSome_iff self socket.toInt type id
  · intro self type send
    exact event_broadcast.set_connection_isSome_iff self socket.toInt type fun _ => some send
  · intro self data
    exact backend_registry.set_slot_isSome_iff self socket _
  · intro self
    exact backend_registry.set_slot_isSome_iff self socket _
  · intro self
    exact backend_registry.get_socket_isSome_iff self socket
  · intro self
    exact frontend_registry.register_proxy_isSome_iff self socket.toInt
  · intro max_sockets calls self hrun session_uuid
    exact (frontend_registry.run_equipped hrun).register_session_isSome_iff socket.toInt session_uuid

/-- The checks let the socket pass that is the number of the slots. -/
theorem slot_behind_table : ¬ ∀ (n : Nat) (socket : BitVec 32) (data : MixerData),
      ((backend_registry.Registry.create n).register_mixer { data with socket := socket.toInt }).isSome := by
  intro h
  have hsome := h 4 4 {}
  have hnone : (backend_registry.Registry.create 4).register_mixer { ({} : MixerData) with socket := (4 : BitVec 32).toInt } =
      none := rfl
  rw [hnone] at hsome
  cases hsome

end openvocs
