import Openvocs.Lib.Dict
import Openvocs.Lib.Machine

/-!
The calls come from the thread of the event loop, so a call and the handling of an answer never
overlap. The locks of the queues are free whenever they are taken, and the trigger socket takes all
that is written.
-/

open List

namespace openvocs.ldap

/-- The octets of a C string. -/
abbrev Text := List UInt8

/-- The settings of `ov_ldap_config` that are used, as they are given. -/
structure Config where
  user_dn_tree : Text
  message_queue_capacity : Nat
  num_threads : Nat
  disable_to_loop_queue : Bool

def default_thread_queue_capacity : Nat := 1000

def default_threads : Nat := 4

def impl_dn_length : Nat := 1280

def error_code : Nat := 42

namespace Config

variable (config : Config)

def capacity : Nat :=
  if config.message_queue_capacity = 0 then default_thread_queue_capacity else config.message_queue_capacity

def threads : Nat := if config.num_threads = 0 then default_threads else config.num_threads

/-- `uid=`, the user, a comma and the tree. -/
def full_dn (user : Text) : Text := [117, 105, 100, 61] ++ user ++ 44 :: config.user_dn_tree

/-- `dn` of `handle_thread_authenticate_request`, cut off by `snprintf`. -/
def dn (user : Text) : Text := (config.full_dn user).take (impl_dn_length - 1)

end Config

/-- `ov_ldap_auth_callback`: two addresses. -/
structure Callback where
  userdata : Nat
  callback : Nat
  deriving DecidableEq

/-- What a call was given. -/
structure Call where
  user : Text
  password : Text
  uuid : Text
  callback : Callback

/-- The message of a request. The number of the call it comes from is only kept to tell
    the requests apart; nothing reads it. -/
structure Request where
  call : Nat
  uuid : Text
  name : Text
  password : Text

/-- A bind of a thread. -/
structure Bind where
  dn : Text
  password : Text
  granted : Bool
  deriving DecidableEq

/-- The answer of a thread: the request is a part of it, and so is the uuid. -/
structure Answer where
  request : Request
  error_code : Nat
  bind : Bind

/-- An invocation of the callback that a call has left. -/
structure Invocation where
  call : Nat
  callback : Callback
  uuid : Text
  granted : Bool
  bind : Bind
  deriving DecidableEq

structure Ldap where
  calls : List Call := []
  to_threads : List Request := []
  busy : List Request := []
  to_loop : List Answer := []
  store : Dict Text (Nat × Callback) := Dict.empty
  invoked : List Invocation := []

/-- `ov_ringbuffer_insert`: the oldest element is dropped when there is no room. -/
def ringbuffer_insert {α : Type} (capacity : Nat) (queue : List α) (element : α) : List α :=
  if queue.length < capacity then queue ++ [element] else (queue ++ [element]).tail

/-- What happens: a call, a thread that takes a message, a thread that has its result,
    and the event loop that is told of an answer. -/
inductive Event where
  | authenticate_password (call : Call)
  | take
  | finish (thread : Nat) (granted : Bool)
  | handle

section

variable (config : Config) (self : Ldap)

def authenticate_password (call : Call) : Ldap :=
  let number := self.calls.length
  let msg := { call := number, uuid := call.uuid, name := call.user, password := call.password }
  { self with
    calls := self.calls ++ [call]
    to_threads := ringbuffer_insert config.capacity self.to_threads msg
    store := self.store.set call.uuid (number, call.callback) }

/-- A free thread gets the first message. -/
def take : Ldap :=
  match self.to_threads with
  | [] => self
  | msg :: rest =>
    if self.busy.length < config.threads then { self with to_threads := rest, busy := self.busy ++ [msg] } else self

def handle_thread_authenticate_request (msg : Request) (granted : Bool) : Answer where
  request := msg
  error_code := if granted then 0 else error_code
  bind := { dn := config.dn msg.name, password := msg.password, granted }

def finish (thread : Nat) (granted : Bool) : Ldap :=
  match self.busy[thread]? with
  | none => self
  | some msg =>
    let out := handle_thread_authenticate_request config msg granted
    { self with
      busy := self.busy.eraseIdx thread
      to_loop :=
        if config.disable_to_loop_queue then self.to_loop ++ [out]
        else ringbuffer_insert config.capacity self.to_loop out }

/-- `handle_loop_authenticate_request`. It is `none` when the callback is missing, as
    it is read through a null pointer. -/
def handle_loop_authenticate_request : Option Ldap :=
  match self.to_loop with
  | [] => some self
  | msg :: rest =>
    match self.store.get msg.request.uuid with
    | none => none
    | some (number, cb) =>
      let after := { self with to_loop := rest, store := self.store.del msg.request.uuid }
      if cb.userdata = 0 ∨ cb.callback = 0 then some after
      else
        some { after with
          invoked := self.invoked ++
            [{ call := number, callback := cb, uuid := msg.request.uuid, granted := decide (msg.error_code = 0),
               bind := msg.bind }] }

def step (event : Event) (self : Ldap) : Option Ldap :=
  match event with
  | .authenticate_password call => some (authenticate_password config self call)
  | .take => some (take config self)
  | .finish thread granted => some (finish config self thread granted)
  | .handle => handle_loop_authenticate_request self

/-- The requests that are under way. -/
def pending : List Request := self.to_threads ++ (self.busy ++ self.to_loop.map Answer.request)

/-- The calls that can be kept apart and answered: no request with the uuid is under
    way, there is room for one more, the callback is complete, and the distinguished
    name fits. -/
def proper (self : Ldap) : Event → Prop
  | .authenticate_password call =>
    (∀ msg ∈ pending self, msg.uuid ≠ call.uuid) ∧ (pending self).length < config.capacity ∧
      (call.callback.userdata ≠ 0 ∧ call.callback.callback ≠ 0) ∧ (config.full_dn call.user).length < impl_dn_length
  | _ => True

/-- The callback of the call was given the result of a bind with the user and the
    password of the call. -/
structure Answers (call : Call) (invocation : Invocation) : Prop where
  callback : invocation.callback = call.callback
  uuid : invocation.uuid = call.uuid
  dn : invocation.bind.dn = config.full_dn call.user
  password : invocation.bind.password = call.password
  granted : invocation.granted = invocation.bind.granted

/-- Each call is under way, or its callback was invoked, and that once and with its own
    result. -/
structure Delivered (config : Config) (ldap : Ldap) : Prop where
  once : ((pending ldap).map Request.call ++ ldap.invoked.map Invocation.call).Perm (List.range ldap.calls.length)
  own : ∀ invocation ∈ ldap.invoked, ∃ call, ldap.calls[invocation.call]? = some call ∧ Answers config call invocation

end

/-- Every request that is under way comes from a call and has its callback in the
    dictionary, and every answer is that of its own request. -/
structure Sound (config : Config) (ldap : Ldap) : Prop where
  delivered : Delivered config ldap
  known : ∀ msg ∈ pending ldap, ∃ call, ldap.calls[msg.call]? = some call ∧ msg.uuid = call.uuid ∧
    msg.name = call.user ∧ msg.password = call.password ∧ ldap.store.get msg.uuid = some (msg.call, call.callback)
  bound : ∀ answer ∈ ldap.to_loop, ∃ granted, answer = handle_thread_authenticate_request config answer.request granted
  room : (pending ldap).length ≤ config.capacity
  complete : ∀ call ∈ ldap.calls, (call.callback.userdata ≠ 0 ∧ call.callback.callback ≠ 0) ∧
    (config.full_dn call.user).length < impl_dn_length

section

variable {config : Config} {self : Ldap}

theorem ringbuffer_insert_of_room {α : Type} {capacity : Nat} {queue : List α} (h : queue.length < capacity)
    (element : α) : ringbuffer_insert capacity queue element = queue ++ [element] :=
  if_pos h

theorem Sound.empty : Sound config {} := by
  refine ⟨⟨.refl _, fun invocation hmem => ?_⟩, fun msg hmem => ?_, fun answer hmem => ?_, Nat.zero_le _,
    fun call hmem => ?_⟩
  all_goals exact absurd hmem not_mem_nil

theorem Sound.moved (h : Sound config self) {ldap : Ldap} (hpending : (pending ldap).Perm (pending self))
    (hcalls : ldap.calls = self.calls) (hstore : ldap.store = self.store) (hinvoked : ldap.invoked = self.invoked)
    (hbound : ∀ answer ∈ ldap.to_loop,
      ∃ granted, answer = handle_thread_authenticate_request config answer.request granted) :
    Sound config ldap := by
  refine ⟨⟨?_, ?_⟩, fun msg hmem => ?_, hbound, ?_, ?_⟩
  · rw [hcalls, hinvoked]
    exact ((hpending.map _).append_right _).trans h.delivered.once
  · rw [hcalls, hinvoked]
    exact h.delivered.own
  · rw [hcalls, hstore]
    exact h.known msg (hpending.mem_iff.mp hmem)
  · rw [hpending.length_eq]
    exact h.room
  rw [hcalls]
  exact h.complete

theorem Sound.take (h : Sound config self) : Sound config (take config self) := by
  unfold ldap.take
  split
  · exact h
  rename_i msg rest hqueue
  split
  · refine h.moved ?_ rfl rfl rfl h.bound
    unfold pending
    rw [hqueue]
    calc rest ++ (self.busy ++ [msg] ++ self.to_loop.map Answer.request)
      List.Perm _ (rest ++ (msg :: self.busy ++ self.to_loop.map Answer.request)) :=
        ((perm_append_singleton msg self.busy).append_right _).append_left rest
      List.Perm _ (msg :: (rest ++ (self.busy ++ self.to_loop.map Answer.request))) := perm_middle
  · exact h

theorem Sound.finish (h : Sound config self) (thread : Nat) (granted : Bool) :
    Sound config (finish config self thread granted) := by
  unfold ldap.finish
  split
  · exact h
  rename_i msg hmsg
  obtain ⟨hlt, hget⟩ := List.getElem?_eq_some_iff.mp hmsg
  have hbusy : (msg :: self.busy.eraseIdx thread).Perm self.busy := hget ▸ getElem_cons_eraseIdx_perm hlt
  have hroom : self.to_loop.length < config.capacity := by
    have hbound := h.room
    simp only [pending, length_append, length_map] at hbound
    omega
  have hqueue : (if config.disable_to_loop_queue then
        self.to_loop ++ [handle_thread_authenticate_request config msg granted]
      else ringbuffer_insert config.capacity self.to_loop (handle_thread_authenticate_request config msg granted)) =
      self.to_loop ++ [handle_thread_authenticate_request config msg granted] := by
    split
    · rfl
    · exact ringbuffer_insert_of_room hroom _
  dsimp only
  rw [hqueue]
  refine h.moved ?_ rfl rfl rfl (fun answer hmem => ?_)
  · unfold pending
    rw [map_append, map_singleton]
    refine List.Perm.append_left self.to_threads ?_
    calc self.busy.eraseIdx thread ++ (self.to_loop.map Answer.request ++ [msg])
      List.Perm _ (self.busy.eraseIdx thread ++ msg :: self.to_loop.map Answer.request) :=
        (perm_append_singleton msg _).append_left _
      List.Perm _ (msg :: (self.busy.eraseIdx thread ++ self.to_loop.map Answer.request)) := perm_middle
      List.Perm _ (self.busy ++ self.to_loop.map Answer.request) := hbusy.append_right _
  obtain hold | hnew := mem_append.mp hmem
  · exact h.bound answer hold
  rw [mem_singleton.mp hnew]
  exact ⟨granted, rfl⟩

theorem Sound.authenticate_password (h : Sound config self) {call : Call}
    (hproper : proper config self (.authenticate_password call)) :
    Sound config (authenticate_password config self call) := by
  obtain ⟨hnew, hroom, hcomplete⟩ := hproper
  have hqueue : self.to_threads.length < config.capacity := by
    simp only [pending, length_append] at hroom
    omega
  unfold ldap.authenticate_password
  dsimp only
  rw [ringbuffer_insert_of_room hqueue]
  generalize hmsg : Request.mk self.calls.length call.uuid call.user call.password = msg
  have hpending : (self.to_threads ++ [msg] ++ (self.busy ++ self.to_loop.map Answer.request)).Perm
      (msg :: pending self) :=
    (perm_append_singleton msg self.to_threads).append_right _
  refine ⟨⟨?_, fun invocation hmem => ?_⟩, fun other hmem => ?_, h.bound, ?_, fun other hmem => ?_⟩
  · calc (self.to_threads ++ [msg] ++ (self.busy ++ self.to_loop.map Answer.request)).map Request.call ++
          self.invoked.map Invocation.call
      List.Perm _ ((msg :: pending self).map Request.call ++ self.invoked.map Invocation.call) :=
        (hpending.map _).append_right _
      List.Perm _ (msg.call :: List.range self.calls.length) := h.delivered.once.cons msg.call
      List.Perm _ (List.range self.calls.length ++ [msg.call]) := (perm_append_singleton _ _).symm
      _ = List.range (self.calls ++ [call]).length := by rw [← hmsg, length_append, length_singleton, range_succ]
  · obtain ⟨made, hmade, hanswers⟩ := h.delivered.own invocation hmem
    refine ⟨made, ?_, hanswers⟩
    exact (getElem?_append_left (List.getElem?_eq_some_iff.mp hmade).1).trans hmade
  · obtain rfl | hold := mem_cons.mp (hpending.mem_iff.mp hmem)
    · subst hmsg
      refine ⟨call, getElem?_concat_length, rfl, rfl, rfl, ?_⟩
      rw [Dict.get_set, if_pos rfl]
    obtain ⟨made, hmade, huuid, hname, hpassword, hstored⟩ := h.known other hold
    refine ⟨made, ?_, huuid, hname, hpassword, ?_⟩
    · exact (getElem?_append_left (List.getElem?_eq_some_iff.mp hmade).1).trans hmade
    rw [Dict.get_set, if_neg (hnew other hold)]
    exact hstored
  · have hlength := hpending.length_eq
    rw [length_cons] at hlength
    show (self.to_threads ++ [msg] ++ (self.busy ++ self.to_loop.map Answer.request)).length ≤ config.capacity
    omega
  obtain hold | hnew' := mem_append.mp hmem
  · exact h.complete other hold
  rw [mem_singleton.mp hnew']
  exact hcomplete

end

section

variable {config : Config} {self : Ldap}

theorem Sound.uuid_ne (h : Sound config self) {msg other : Request} {rest : List Request}
    (hpending : (pending self).Perm (msg :: rest)) (hother : other ∈ rest) : other.uuid ≠ msg.uuid := by
  intro huuid
  obtain ⟨call, _, _, _, _, hstored⟩ := h.known msg (hpending.mem_iff.mpr mem_cons_self)
  obtain ⟨call', _, _, _, _, hstored'⟩ := h.known other (hpending.mem_iff.mpr (mem_cons_of_mem msg hother))
  rw [huuid, hstored] at hstored'
  have hcall : msg.call = other.call := by
    simp only [Option.some.injEq, Prod.mk.injEq] at hstored'
    exact hstored'.1
  have hnodup : ((pending self).map Request.call).Nodup := by
    have hall := h.delivered.once.nodup_iff.mpr nodup_range
    exact (nodup_append.mp hall).1
  have hcons : (msg.call :: rest.map Request.call).Nodup := (hpending.map Request.call).nodup_iff.mp hnodup
  apply (nodup_cons.mp hcons).1
  rw [hcall]
  exact List.mem_map_of_mem hother

theorem answers_of_bound {call : Call} {msg : Request} (granted : Bool) (hname : msg.name = call.user) (hpassword : msg.password = call.password) (huuid : msg.uuid = call.uuid)
    (hfits : (config.full_dn call.user).length < impl_dn_length) :
    Answers config call
      { call := msg.call, callback := call.callback, uuid := msg.uuid,
        granted := decide ((handle_thread_authenticate_request config msg granted).error_code = 0),
        bind := (handle_thread_authenticate_request config msg granted).bind } := by
  refine ⟨rfl, huuid, ?_, hpassword, ?_⟩
  · show (config.full_dn msg.name).take (impl_dn_length - 1) = config.full_dn call.user
    rw [hname]
    apply take_of_length_le
    unfold impl_dn_length at hfits ⊢
    omega
  · cases granted <;> rfl

theorem Sound.handle (h : Sound config self) :
    ∃ after, handle_loop_authenticate_request self = some after ∧ Sound config after := by
  unfold handle_loop_authenticate_request
  cases hqueue : self.to_loop with
  | nil => exact ⟨self, rfl, h⟩
  | cons msg rest =>
    have hpending : (pending self).Perm
        (msg.request :: (self.to_threads ++ (self.busy ++ rest.map Answer.request))) := by
      unfold pending
      rw [hqueue, map_cons]
      calc self.to_threads ++ (self.busy ++ msg.request :: rest.map Answer.request)
        List.Perm _ (self.to_threads ++ msg.request :: (self.busy ++ rest.map Answer.request)) :=
          perm_middle.append_left self.to_threads
        List.Perm _ (msg.request :: (self.to_threads ++ (self.busy ++ rest.map Answer.request))) := perm_middle
    obtain ⟨call, hcall, huuid, hname, hpassword, hstored⟩ :=
      h.known msg.request (hpending.mem_iff.mpr mem_cons_self)
    obtain ⟨⟨huserdata, hcallback⟩, hfits⟩ := h.complete call (mem_of_getElem? hcall)
    obtain ⟨granted, hanswer⟩ := h.bound msg (by rw [hqueue]; exact mem_cons_self)
    have hset : ¬ (call.callback.userdata = 0 ∨ call.callback.callback = 0) := by
      rintro (hzero | hzero)
      · exact huserdata hzero
      · exact hcallback hzero
    dsimp only
    rw [hstored]
    dsimp only
    rw [if_neg hset]
    refine ⟨_, rfl, ⟨?_, fun invocation hmem => ?_⟩, fun other hmem => ?_, fun answer hmem => ?_, ?_, h.complete⟩
    · rw [map_append, map_singleton, ← append_assoc]
      calc (self.to_threads ++ (self.busy ++ rest.map Answer.request)).map Request.call ++
            self.invoked.map Invocation.call ++ [msg.request.call]
        List.Perm _ (msg.request.call :: ((self.to_threads ++ (self.busy ++ rest.map Answer.request)).map Request.call ++
            self.invoked.map Invocation.call)) := perm_append_singleton _ _
        List.Perm _ ((pending self).map Request.call ++ self.invoked.map Invocation.call) :=
          ((hpending.map Request.call).append_right _).symm
        List.Perm _ (List.range self.calls.length) := h.delivered.once
    · obtain hold | hnew := mem_append.mp hmem
      · exact h.delivered.own invocation hold
      rw [mem_singleton.mp hnew]
      refine ⟨call, hcall, ?_⟩
      have hanswers := answers_of_bound granted hname hpassword huuid hfits
      rw [← hanswer] at hanswers
      exact hanswers
    · obtain ⟨made, hmade, huuid', hname', hpassword', hstored'⟩ :=
        h.known other (hpending.mem_iff.mpr (mem_cons_of_mem _ hmem))
      refine ⟨made, hmade, huuid', hname', hpassword', ?_⟩
      rw [Dict.get_del, if_neg (h.uuid_ne hpending hmem)]
      exact hstored'
    · apply h.bound answer
      rw [hqueue]
      exact mem_cons_of_mem msg hmem
    have hlength := hpending.length_eq
    have hroom := h.room
    rw [length_cons] at hlength
    show (self.to_threads ++ (self.busy ++ rest.map Answer.request)).length ≤ config.capacity
    omega

theorem Sound.step (h : Sound config self) {event : Event} (hproper : proper config self event) :
    ∃ after, step config event self = some after ∧ Sound config after := by
  cases event with
  | authenticate_password call => exact ⟨_, rfl, h.authenticate_password hproper⟩
  | take => exact ⟨_, rfl, h.take⟩
  | finish thread granted => exact ⟨_, rfl, h.finish thread granted⟩
  | handle => exact h.handle

/-- The work that is left for the threads and the event loop. -/
def work (self : Ldap) : Nat := 3 * self.to_threads.length + (2 * self.busy.length + self.to_loop.length)

theorem threads_pos (config : Config) : 0 < config.threads := by
  unfold Config.threads default_threads
  split <;> omega

theorem Sound.progress (h : Sound config self) (hpending : pending self ≠ []) :
    ∃ event after, (∀ call, event ≠ .authenticate_password call) ∧ ldap.step config event self = some after ∧
      Sound config after ∧ after.calls = self.calls ∧ work after < work self := by
  cases hloop : self.to_loop with
  | cons answer rest =>
    obtain ⟨after, hstep, hsound⟩ := h.handle
    refine ⟨.handle, after, by simp, hstep, hsound, ?_⟩
    simp only [handle_loop_authenticate_request, hloop] at hstep
    split at hstep
    · cases hstep
    split at hstep
    · cases hstep
      exact ⟨rfl, by simp [work, hloop]⟩
    cases hstep
    exact ⟨rfl, by simp [work, hloop]⟩
  | nil =>
    cases hbusy : self.busy with
    | cons msg rest =>
      refine ⟨.finish 0 true, _, by simp, rfl, h.finish 0 true, ?_⟩
      simp only [ldap.finish, hbusy, getElem?_cons_zero, eraseIdx_cons_zero]
      refine ⟨trivial, ?_⟩
      have hone : (if config.disable_to_loop_queue then
            self.to_loop ++ [handle_thread_authenticate_request config msg true]
          else ringbuffer_insert config.capacity self.to_loop
            (handle_thread_authenticate_request config msg true)).length ≤ 1 := by
        rw [hloop]
        split
        · exact Nat.le_refl 1
        unfold ringbuffer_insert
        split <;> simp
      simp only [work, hbusy, hloop, length_cons, length_nil] at hone ⊢
      omega
    | nil =>
      cases hthreads : self.to_threads with
      | nil => exact absurd (by simp [pending, hthreads, hbusy, hloop]) hpending
      | cons msg rest =>
        refine ⟨.take, _, by simp, rfl, h.take, ?_⟩
        simp only [ldap.take, hthreads, hbusy, length_nil, threads_pos config, if_true]
        refine ⟨trivial, ?_⟩
        simp [work, hthreads, hbusy, hloop]
        omega

end

def small_config : Config where
  user_dn_tree := [111]
  message_queue_capacity := 0
  num_threads := 2
  disable_to_loop_queue := false

end openvocs.ldap
