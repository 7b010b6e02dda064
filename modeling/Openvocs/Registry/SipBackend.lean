import Mathlib.Logic.Function.Basic
import Openvocs.Lib.Dict
import Openvocs.Lib.Machine

/-!
Beside the three dictionaries of the source the state has their history: the time, how often each
socket was closed, and the mixers that were acquired and not released since.
-/

open List Option

namespace openvocs.backend_sip

/-- A connection is one use of a socket. -/
structure Connection where
  socket : Nat
  number : Nat
  deriving DecidableEq

structure Proxy where
  uuid : Option String
  -- when the gateway registered first on its connection
  since : Nat

structure CallRecord where
  socket : Nat
  loop_id : Option String
  peer_id : Option String
  -- when the call was registered
  time : Nat

/-- The mixer of a user, and the connection it was acquired through. -/
structure Acquisition where
  user : String
  connection : Connection
  deriving DecidableEq

/-- `struct ov_mc_backend_sip`. -/
structure State where
  proxys : Dict Nat Proxy := Dict.empty
  calls : Dict String CallRecord := Dict.empty
  -- `resources.mixer`
  mixer : Dict Nat (Dict String Unit) := Dict.empty
  clock : Nat := 0
  closed : Nat → Nat := fun _ => 0
  acquired : List Acquisition := []

namespace State

variable (st : State)

/-- The connection that a socket belongs to. -/
def connection (socket : Nat) : Connection := ⟨socket, st.closed socket⟩

def register_proxy (socket : Nat) (uuid : Option String) : State :=
  if socket < 1 then st
  else
    let since := ((st.proxys.get socket).map Proxy.since).getD st.clock
    { st with proxys := st.proxys.set socket { uuid, since } }

def unregister_proxy (socket : Nat) : State :=
  if socket < 1 then st else { st with proxys := st.proxys.del socket }

def register_call (socket : Nat) (call_id : String) (loop_id peer_id : Option String) : State :=
  { st with calls := st.calls.set call_id { socket, loop_id, peer_id, time := st.clock } }

def unregister_call (call_id : String) : State :=
  { st with calls := st.calls.del call_id }

def get_call_proxy (call_id : String) : Option Nat := (st.calls.get call_id).map CallRecord.socket

def asign_sip_mixer (socket : Nat) (name : String) : State :=
  { st with mixer := st.mixer.set socket (((st.mixer.get socket).getD Dict.empty).set name ()) }

def drop_sip_mixer_assignment (socket : Nat) (name : String) : State :=
  match st.mixer.get socket with
  | none => st
  | some res => { st with mixer := st.mixer.set socket (res.del name) }

/-- The users whose mixers `drop_mixer_resources` releases. -/
def mixer_resources (socket : Nat) : List String := ((st.mixer.get socket).getD Dict.empty).keys

/-- The backend has acquired a mixer. -/
def acquire_mixer (socket : Nat) (user : String) : State :=
  { st with acquired := { user, connection := st.connection socket } :: st.acquired }

/-- `ov_mc_backend_release_mixer` for some users. -/
def release_mixers (users : List String) : State :=
  { st with acquired := st.acquired.filter fun acquisition => decide (acquisition.user ∉ users) }

/-- `cb_close`. The next connection of the socket is a new one. -/
def cb_close (socket : Nat) : State :=
  let st := (st.release_mixers (st.mixer_resources socket)).unregister_proxy socket
  { st with closed := Function.update st.closed socket (st.closed socket + 1) }

end State

open State

/-- How the backend answers when it is asked for a mixer: it fails, it has no mixer
    left, of which it informs its callback, or it sends the request to a mixer. -/
inductive Answer where
  | failed
  | no_resource
  | sent
  deriving DecidableEq

inductive Event where
  | register (socket : Nat) (uuid : Option String)
  | acquire (socket : Nat) (user : String) (answer : Answer)
  -- the mixer answers, and the request may have timed out
  | acquired (user : String) (error pending : Bool)
  | release (socket : Nat) (user : String) (ok : Bool)
  | new_call (socket : Nat) (call_id : String) (loop_id peer_id : Option String)
  | call_terminated (call_id : String)
  | close (socket : Nat)

/-- What an event does, apart from the time. -/
def handle (event : Event) (st : State) : State :=
  match event with
  | .register socket uuid => st.register_proxy socket uuid
  | .acquire _ _ .failed => st
  | .acquire socket user .no_resource => st.asign_sip_mixer socket user
  | .acquire socket user .sent => (st.acquire_mixer socket user).asign_sip_mixer socket user
  -- `cb_mixer_aquired`; with an error the backend has taken the mixer back already
  | .acquired user error pending => if error ∨ ¬ pending then st.release_mixers [user] else st
  | .release _ _ false => st
  | .release socket user true => (st.release_mixers [user]).drop_sip_mixer_assignment socket user
  | .new_call socket call_id loop_id peer_id => st.register_call socket call_id loop_id peer_id
  | .call_terminated call_id => st.unregister_call call_id
  | .close socket => st.cb_close socket

def step (event : Event) (st : State) : Option State :=
  some { handle event st with clock := st.clock + 1 }

/-- The user is recorded for the socket. -/
def recorded (st : State) (socket : Nat) (user : String) : Bool :=
  (((st.mixer.get socket).getD Dict.empty).get user).isSome

/-- No other socket has the user. -/
def only_at (st : State) (socket : Nat) (user : String) : Bool :=
  st.mixer.entries.all fun entry => decide (entry.1 = socket ∨ (entry.2.get user).isNone)

/-- The event leaves no call and no mixer behind: calls come from gateways that are
    registered, a gateway goes when it has no call and no mixer, nobody asks for a
    mixer or releases one that another connection has, and no request fails after
    the mixer was recorded. -/
def Proper (st : State) : Event → Prop
  | .register _ _ => True
  | .acquire socket user answer =>
    answer = .failed ∨ answer = .no_resource ∧ recorded st socket user = true ∨
      answer = .sent ∧ only_at st socket user = true
  | .acquired user error pending =>
    (error = false ∧ pending = true) ∨ st.mixer.entries.all (fun entry => (entry.2.get user).isNone) = true
  | .release socket user ok => ok = false ∨ only_at st socket user = true
  | .new_call socket _ _ _ => (st.proxys.get socket).isSome = true
  | .call_terminated _ => True
  | .close socket =>
    st.calls.entries.all (fun entry => decide (entry.2.socket ≠ socket)) = true ∧ st.mixer_resources socket = []

/-- Calls belong to gateways that were registered before them. -/
structure CallsLive (st : State) : Prop where
  calls : ∀ id call, st.calls.get id = some call →
    ∃ proxy, st.proxys.get call.socket = some proxy ∧ proxy.since < call.time
  clock : ∀ s proxy, st.proxys.get s = some proxy → proxy.since < st.clock

/-- The mixers that are recorded for a socket are those its connection has acquired,
    and no mixer is recorded twice. -/
structure MixersOwned (st : State) : Prop where
  mixers : ∀ s user, recorded st s user = true ↔ { user, connection := st.connection s } ∈ st.acquired
  current : ∀ acquisition ∈ st.acquired, acquisition.connection = st.connection acquisition.connection.socket
  unique : ∀ s t user, recorded st s user = true → recorded st t user = true → s = t

theorem recorded_asign_sip_mixer (st : State) (s : Nat) (name : String) (t : Nat) (user : String) :
    recorded (st.asign_sip_mixer s name) t user = true ↔ (t = s ∧ user = name) ∨ recorded st t user = true := by
  unfold recorded asign_sip_mixer
  rw [Dict.get_set]
  by_cases ht : t = s
  · subst ht
    rw [if_pos rfl, getD_some, Dict.get_set]
    by_cases huser : user = name <;> simp [huser]
  · simp [ht]

theorem recorded_drop_sip_mixer_assignment (st : State) (s : Nat) (name : String) (t : Nat) (user : String) :
    recorded (st.drop_sip_mixer_assignment s name) t user = true ↔
      ¬ (t = s ∧ user = name) ∧ recorded st t user = true := by
  unfold recorded drop_sip_mixer_assignment
  cases hres : st.mixer.get s with
  | none =>
    by_cases ht : t = s
    · simp [ht, hres]
    · simp [ht]
  | some res =>
    simp only [Dict.get_set]
    by_cases ht : t = s
    · subst ht
      rw [if_pos rfl, getD_some, Dict.get_del, hres, getD_some]
      by_cases huser : user = name <;> simp [huser]
    · simp [ht]

variable {st : State} {user : String}

theorem recorded_of_only_at {s : Nat} (h : only_at st s user = true) {t : Nat}
    (ht : recorded st t user = true) : t = s := by
  unfold recorded at ht
  cases hres : st.mixer.get t with
  | none => simp [hres] at ht
  | some res =>
    rw [hres, getD_some] at ht
    have hentry := List.all_eq_true.mp h (t, res) (Dict.mem_entries_iff.mpr hres)
    simp only [decide_eq_true_eq] at hentry
    obtain heq | hnone := hentry
    · exact heq
    rw [isNone_iff_eq_none.mp hnone] at ht
    simp at ht

theorem mem_release_mixers {users : List String} {acquisition : Acquisition} :
    acquisition ∈ (st.release_mixers users).acquired ↔ acquisition ∈ st.acquired ∧ acquisition.user ∉ users := by
  simp [release_mixers]

theorem MixersOwned.frame {st next : State} (h : MixersOwned st) (hmixer : next.mixer = st.mixer)
    (hclosed : next.closed = st.closed) (hacquired : next.acquired = st.acquired) : MixersOwned next := by
  have hrecorded : ∀ s user, recorded next s user = recorded st s user := by
    intro s user
    rw [recorded, recorded, hmixer]
  have hconnection : ∀ s, next.connection s = st.connection s := by
    intro s
    rw [connection, connection, hclosed]
  refine ⟨fun s user => ?_, fun acquisition hmem => ?_, fun s t user => ?_⟩
  · rw [hrecorded, hconnection, hacquired]
    exact h.mixers s user
  · rw [hconnection]
    exact h.current acquisition (hacquired ▸ hmem)
  rw [hrecorded, hrecorded]
  exact h.unique s t user

theorem CallsLive.frame {st next : State} (h : CallsLive st) (hproxys : next.proxys = st.proxys)
    (hcalls : next.calls = st.calls) (hclock : st.clock ≤ next.clock) : CallsLive next := by
  refine ⟨?_, fun s proxy hproxy => ?_⟩
  · rw [hproxys, hcalls]
    exact h.calls
  rw [hproxys] at hproxy
  exact Nat.lt_of_lt_of_le (h.clock s proxy hproxy) hclock

theorem CallsLive.register (h : CallsLive st) (socket : Nat) (uuid : Option String) :
    CallsLive { st.register_proxy socket uuid with clock := st.clock + 1 } := by
  unfold register_proxy
  by_cases hsocket : socket < 1
  · rw [if_pos hsocket]
    exact h.frame rfl rfl (Nat.le_succ _)
  rw [if_neg hsocket]
  refine ⟨fun id call hcall => ?_, fun s proxy hproxy => ?_⟩
  · obtain ⟨proxy, hproxy, hsince⟩ := h.calls id call hcall
    by_cases hs : call.socket = socket
    · rw [hs] at hproxy
      exact ⟨{ uuid, since := proxy.since }, by simp [hs, Dict.get_set, hproxy], hsince⟩
    · exact ⟨proxy, by simp [Dict.get_set, hs, hproxy], hsince⟩
  simp only [Dict.get_set] at hproxy
  by_cases hs : s = socket
  · rw [if_pos hs] at hproxy
    rw [← some.inj hproxy]
    cases hold : st.proxys.get socket with
    | none => exact Nat.lt_succ_self _
    | some old => exact Nat.lt_succ_of_lt (h.clock socket old hold)
  rw [if_neg hs] at hproxy
  exact Nat.lt_succ_of_lt (h.clock s proxy hproxy)

theorem CallsLive.new_call (h : CallsLive st) {socket : Nat} (call_id : String)
    (loop_id peer_id : Option String) (hsocket : (st.proxys.get socket).isSome = true) :
    CallsLive { st.register_call socket call_id loop_id peer_id with clock := st.clock + 1 } := by
  refine ⟨fun id call hcall => ?_, fun s proxy hproxy => Nat.lt_succ_of_lt (h.clock s proxy hproxy)⟩
  simp only [register_call, Dict.get_set] at hcall ⊢
  by_cases hid : id = call_id
  · rw [if_pos hid] at hcall
    rw [← some.inj hcall]
    obtain ⟨proxy, hproxy⟩ := isSome_iff_exists.mp hsocket
    exact ⟨proxy, hproxy, h.clock socket proxy hproxy⟩
  rw [if_neg hid] at hcall
  exact h.calls id call hcall

theorem CallsLive.call_terminated (h : CallsLive st) (call_id : String) :
    CallsLive { st.unregister_call call_id with clock := st.clock + 1 } := by
  refine ⟨fun id call hcall => ?_, fun s proxy hproxy => Nat.lt_succ_of_lt (h.clock s proxy hproxy)⟩
  simp only [unregister_call, Dict.get_del] at hcall ⊢
  by_cases hid : id = call_id
  · simp [hid] at hcall
  rw [if_neg hid] at hcall
  exact h.calls id call hcall

theorem cb_close_eq (st : State) (socket : Nat) : st.cb_close socket =
      { st with
        proxys := if socket < 1 then st.proxys else st.proxys.del socket
        acquired := st.acquired.filter fun acquisition => decide (acquisition.user ∉ st.mixer_resources socket)
        closed := Function.update st.closed socket (st.closed socket + 1) } := by
  unfold cb_close unregister_proxy release_mixers
  by_cases hsocket : socket < 1 <;> simp [hsocket]

theorem CallsLive.close (h : CallsLive st) {socket : Nat}
    (hcalls : st.calls.entries.all (fun entry => decide (entry.2.socket ≠ socket)) = true) :
    CallsLive { st.cb_close socket with clock := st.clock + 1 } := by
  have hother : ∀ id call, st.calls.get id = some call → call.socket ≠ socket := by
    intro id call hcall
    have hentry := List.all_eq_true.mp hcalls (id, call) (Dict.mem_entries_iff.mpr hcall)
    simpa using hentry
  rw [cb_close_eq]
  refine ⟨fun id call hcall => ?_, fun s proxy hproxy => ?_⟩
  · obtain ⟨proxy, hproxy, hsince⟩ := h.calls id call hcall
    refine ⟨proxy, ?_, hsince⟩
    by_cases hsocket : socket < 1
    · simpa [hsocket] using hproxy
    · simpa [hsocket, hother id call hcall] using hproxy
  have hold : st.proxys.get s = some proxy := by
    by_cases hsocket : socket < 1
    · simpa [hsocket] using hproxy
    by_cases hs : s = socket
    · simp [hsocket, hs] at hproxy
    · simpa [hsocket, hs] using hproxy
  exact Nat.lt_succ_of_lt (h.clock s proxy hold)

theorem MixersOwned.acquire (h : MixersOwned st) {socket : Nat} (honly : only_at st socket user = true) :
    MixersOwned ((st.acquire_mixer socket user).asign_sip_mixer socket user) := by
  have hrecorded : ∀ s other, recorded ((st.acquire_mixer socket user).asign_sip_mixer socket user) s other = true ↔
      (s = socket ∧ other = user) ∨ recorded st s other = true :=
    recorded_asign_sip_mixer (st.acquire_mixer socket user) socket user
  refine ⟨fun s other => ?_, fun acquisition hmem => ?_, fun s t other hs ht => ?_⟩
  · rw [hrecorded, h.mixers s other]
    simp only [asign_sip_mixer, acquire_mixer, mem_cons, Acquisition.mk.injEq]
    constructor
    · rintro (⟨rfl, rfl⟩ | hmem)
      · exact Or.inl ⟨rfl, rfl⟩
      · exact Or.inr hmem
    rintro (⟨hother, hconnection⟩ | hmem)
    · exact Or.inl ⟨congrArg Connection.socket hconnection, hother⟩
    · exact Or.inr hmem
  · simp only [asign_sip_mixer, acquire_mixer, mem_cons] at hmem
    obtain heq | hmem := hmem
    · rw [heq]
      rfl
    · exact h.current acquisition hmem
  have hlast : ∀ r, recorded ((st.acquire_mixer socket user).asign_sip_mixer socket user) r user = true →
      r = socket := by
    intro r hr
    obtain ⟨hr, _⟩ | hr := (hrecorded r user).mp hr
    · exact hr
    · exact recorded_of_only_at honly hr
  by_cases hother : other = user
  · rw [hother] at hs ht
    rw [hlast s hs, hlast t ht]
  simp only [hrecorded, hother, and_false, false_or] at hs ht
  exact h.unique s t other hs ht

theorem MixersOwned.release (h : MixersOwned st) {socket : Nat} (honly : only_at st socket user = true) :
    MixersOwned ((st.release_mixers [user]).drop_sip_mixer_assignment socket user) := by
  have hrecorded : ∀ s other, recorded ((st.release_mixers [user]).drop_sip_mixer_assignment socket user) s other =
      true ↔ other ≠ user ∧ recorded st s other = true := by
    intro s other
    rw [recorded_drop_sip_mixer_assignment]
    show ¬ (s = socket ∧ other = user) ∧ recorded st s other = true ↔ _
    constructor
    · rintro ⟨hnot, hs⟩
      refine ⟨fun hother => hnot ⟨?_, hother⟩, hs⟩
      rw [hother] at hs
      exact recorded_of_only_at honly hs
    rintro ⟨hother, hs⟩
    exact ⟨fun hboth => hother hboth.2, hs⟩
  have hacquired : ((st.release_mixers [user]).drop_sip_mixer_assignment socket user).acquired =
      (st.release_mixers [user]).acquired := by
    unfold drop_sip_mixer_assignment
    cases (st.release_mixers [user]).mixer.get socket <;> rfl
  have hconnection : ∀ s, ((st.release_mixers [user]).drop_sip_mixer_assignment socket user).connection s =
      st.connection s := by
    intro s
    unfold drop_sip_mixer_assignment
    cases (st.release_mixers [user]).mixer.get socket <;> rfl
  refine ⟨fun s other => ?_, fun acquisition hmem => ?_, fun s t other hs ht => ?_⟩
  · rw [hrecorded, hacquired, hconnection, mem_release_mixers, h.mixers s other, and_comm]
    simp
  · rw [hacquired, mem_release_mixers] at hmem
    rw [hconnection]
    exact h.current acquisition hmem.1
  · exact h.unique s t other ((hrecorded s other).mp hs).2 ((hrecorded t other).mp ht).2

theorem MixersOwned.close (h : MixersOwned st) {socket : Nat} (hnone : st.mixer_resources socket = []) :
    MixersOwned (st.cb_close socket) := by
  have hsame : (st.cb_close socket).acquired = st.acquired := by
    rw [cb_close_eq]
    simp [hnone]
  have hfree : ∀ user, recorded st socket user = false := by
    intro user
    have hnot : user ∉ ((st.mixer.get socket).getD Dict.empty).keys := by
      show user ∉ st.mixer_resources socket
      rw [hnone]
      simp
    rw [recorded, Dict.not_mem_keys_iff.mp hnot]
    rfl
  -- no acquisition is left of the old connection
  have hothers : ∀ acquisition ∈ st.acquired, acquisition.connection.socket ≠ socket := by
    intro acquisition hmem heq
    have hrecorded := (h.mixers socket acquisition.user).mpr (by
      rw [← heq, ← h.current acquisition hmem]
      exact hmem)
    rw [hfree] at hrecorded
    simp at hrecorded
  have hconnection : ∀ s, s ≠ socket → (st.cb_close socket).connection s = st.connection s := by
    intro s hs
    rw [cb_close_eq]
    simp [connection, Function.update_of_ne hs]
  have hrecorded : ∀ s user, recorded (st.cb_close socket) s user = recorded st s user := by
    intro s user
    rw [cb_close_eq]
    rfl
  refine ⟨fun s user => ?_, fun acquisition hmem => ?_, fun s t user => ?_⟩
  · rw [hrecorded, hsame]
    by_cases hs : s = socket
    · rw [hs, hfree]
      constructor
      · simp
      intro hmem
      exact absurd rfl (hothers _ hmem)
    rw [hconnection s hs]
    exact h.mixers s user
  · rw [hsame] at hmem
    rw [hconnection _ (hothers acquisition hmem)]
    exact h.current acquisition hmem
  rw [hrecorded, hrecorded]
  exact h.unique s t user

instance (st : State) : (event : Event) → Decidable (Proper st event)
  | .register _ _ => inferInstanceAs (Decidable True)
  | .acquire _ _ _ => inferInstanceAs (Decidable (_ ∨ _))
  | .acquired _ _ _ => inferInstanceAs (Decidable (_ ∨ _))
  | .release _ _ _ => inferInstanceAs (Decidable (_ ∨ _))
  | .new_call _ _ _ _ => inferInstanceAs (Decidable (_ = _))
  | .call_terminated _ => inferInstanceAs (Decidable True)
  | .close _ => inferInstanceAs (Decidable (_ ∧ _))

end openvocs.backend_sip
