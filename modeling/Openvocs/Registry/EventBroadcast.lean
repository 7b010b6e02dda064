import Mathlib.Data.Nat.Find
import Openvocs.Lib.Machine

/-!
An access behind the array is `none`.
-/

open List Option

namespace openvocs.event_broadcast

def unset : UInt8 := 0

/-- `struct connection`, with the send parameter of a type `σ`. -/
structure Connection (σ : Type) where
  type : UInt8 := unset
  send : Option σ := none

/-- `struct ov_event_broadcast`; `max_sockets` is the length of the array. -/
structure Broadcast (σ : Type) where
  last : Nat := 0
  connections : List (Connection σ)

/-- The size of the allocation, with the structures of a 64 bit system. -/
def struct_size (max_sockets : Nat) : Nat := 144 + max_sockets * 24

def int_max : Nat := 2 ^ 31 - 1

variable {σ : Type}

namespace Broadcast

/-- `ov_event_broadcast_create`; `runtime_sockets` is the limit of the system, which
    is used when the configuration has none. -/
def create (runtime_sockets max_sockets : Nat) : Option (Broadcast σ) :=
  let sockets := if max_sockets = 0 then runtime_sockets else max_sockets
  if int_max ≤ struct_size sockets then none else some { connections := List.replicate sockets {} }

/-- The loop that moves `last` down. -/
def last_set (connections : List (Connection σ)) : Nat → Nat
  | 0 => 0
  | i + 1 =>
    match connections[i + 1]? with
    | some connection => if connection.type = unset then last_set connections i else i + 1
    | none => last_set connections i

variable (self : Broadcast σ)

def max_sockets : Nat := self.connections.length

/-- The common body of `ov_event_broadcast_set` and `ov_event_broadcast_set_send`. The
    slot behind the last one passes the checks. -/
def set_connection (socket : Int) (type : UInt8) (send : Option σ → Option σ) : Option (Bool × Broadcast σ) :=
  if socket < 0 then some (false, self)
  else if self.max_sockets < socket.toNat then some (false, self)
  else
    (self.connections[socket.toNat]?).map fun connection =>
      let connections := self.connections.set socket.toNat { type, send := send connection.send }
      let last :=
        if type = unset then if self.last = socket.toNat then last_set connections socket.toNat else self.last
        else if self.last < socket.toNat then socket.toNat
        else self.last
      (true, { last, connections })

def set (socket : Int) (type : UInt8) : Option (Bool × Broadcast σ) := self.set_connection socket type id

def set_send (socket : Int) (type : UInt8) (send : σ) : Option (Bool × Broadcast σ) :=
  self.set_connection socket type fun _ => some send

def get (socket : Int) : Option UInt8 :=
  if socket < 0 then some 0
  else if self.max_sockets < socket.toNat then some 0
  else (self.connections[socket.toNat]?).map Connection.type

/-- The loops over the connections from the first one to `last`. -/
def scan {α : Type} (f : α → Nat → Connection σ → α) (start : α) : Option α :=
  (List.range (self.last + 1)).foldlM (fun acc i => (self.connections[i]?).map (f acc i)) start

/-- `ov_event_broadcast_get_sockets`, which is NULL for the mask without a type. -/
def get_sockets (type : UInt8) : Option (Option (List Nat)) :=
  if unset = type then some none
  else
    (self.scan (fun list i connection => if type &&& connection.type ≠ 0 then list ++ [i] else list) []).map some

def is_empty : Option Bool := (self.connections[self.last]?).map fun connection => decide (unset = connection.type)

def count (type : UInt8) : Option Nat :=
  self.scan (fun count _ connection => if type &&& connection.type ≠ 0 then count + 1 else count) 0

/-- The stored type of a socket. -/
def type_at (socket : Nat) : UInt8 := ((self.connections[socket]?).map Connection.type).getD unset

/-- The sockets with a type of the mask, in order. -/
def receivers (type : UInt8) : List Nat :=
  (List.range self.max_sockets).filter fun socket => decide (type &&& self.type_at socket ≠ 0)

end Broadcast

open Broadcast

/-- The calls that change the broadcasts. -/
inductive Call (σ : Type) where
  | set (socket : Int) (type : UInt8)
  | set_send (socket : Int) (type : UInt8) (send : σ)

def Call.socket : Call σ → Int
  | .set socket _ => socket
  | .set_send socket _ _ => socket

def step : Call σ → Broadcast σ → Option (Broadcast σ)
  | .set socket type, self => (self.set socket type).map Prod.snd
  | .set_send socket type send, self => (self.set_send socket type send).map Prod.snd

/-- `last` is the largest socket with a type, or 0. -/
structure Cursor (broadcast : Broadcast σ) : Prop where
  attained : broadcast.last ≠ 0 → broadcast.type_at broadcast.last ≠ unset
  greatest : ∀ socket, broadcast.type_at socket ≠ unset → socket ≤ broadcast.last

variable {self : Broadcast σ}

theorem type_at_eq {socket : Nat} {connection : Connection σ} (h : self.connections[socket]? = some connection) :
    self.type_at socket = connection.type := by
  rw [type_at, h]
  rfl

theorem lt_max_sockets {socket : Nat} (h : self.type_at socket ≠ unset) : socket < self.max_sockets := by
  by_contra hnot
  apply h
  rw [type_at, getElem?_eq_none (Nat.le_of_not_lt hnot)]
  rfl

theorem Cursor.last_eq (h : Cursor self) :
    self.last = Nat.findGreatest (fun socket => self.type_at socket ≠ unset) self.max_sockets := by
  symm
  rw [Nat.findGreatest_eq_iff]
  refine ⟨?_, h.attained, fun socket hlt _ htype => ?_⟩
  · by_cases hzero : self.last = 0
    · rw [hzero]
      exact Nat.zero_le _
    · exact Nat.le_of_lt (lt_max_sockets (h.attained hzero))
  have hle := h.greatest socket htype
  omega

theorem Cursor.last_lt (h : Cursor self) (hpos : 0 < self.max_sockets) : self.last < self.max_sockets := by
  by_cases hzero : self.last = 0
  · rw [hzero]
    exact hpos
  · exact lt_max_sockets (h.attained hzero)

theorem last_set_eq (self : Broadcast σ) (n : Nat) :
    last_set self.connections n = Nat.findGreatest (fun socket => self.type_at socket ≠ unset) n := by
  induction n with
  | zero => rfl
  | succ n ih =>
    rw [last_set, Nat.findGreatest_succ, ih]
    cases hget : self.connections[n + 1]? with
    | none =>
      have htype : self.type_at (n + 1) = unset := by rw [type_at, hget]; rfl
      rw [if_neg (fun hne => hne htype)]
    | some connection =>
      rw [type_at_eq hget]
      by_cases htype : connection.type = unset
      · simp [htype]
      · simp [htype]

theorem create_eq {runtime_sockets max_sockets : Nat} (h : create runtime_sockets max_sockets = some self) :
    self = { connections := List.replicate (if max_sockets = 0 then runtime_sockets else max_sockets) {} } := by
  rw [create] at h
  generalize (if max_sockets = 0 then runtime_sockets else max_sockets) = sockets at h
  by_cases hsize : int_max ≤ struct_size sockets
  · simp [hsize] at h
  simp only [hsize, if_false, some.injEq] at h
  exact h.symm

theorem create_type_at {runtime_sockets max_sockets : Nat} (h : create runtime_sockets max_sockets = some self)
    (socket : Nat) : self.type_at socket = unset := by
  rw [create_eq h, type_at]
  generalize (if max_sockets = 0 then runtime_sockets else max_sockets) = sockets
  rw [getElem?_replicate]
  split <;> rfl

theorem create_cursor {runtime_sockets max_sockets : Nat} (h : create runtime_sockets max_sockets = some self) :
    Cursor self := by
  constructor
  · intro hlast
    rw [create_eq h] at hlast
    exact absurd rfl hlast
  intro socket htype
  exact absurd (create_type_at h socket) htype

theorem set_connection_refused {socket : Int} (h : socket < 0 ∨ (self.max_sockets : Int) < socket) (type : UInt8)
    (send : Option σ → Option σ) : self.set_connection socket type send = some (false, self) := by
  rw [set_connection]
  by_cases hneg : socket < 0
  · rw [if_pos hneg]
  · rw [if_neg hneg, if_pos (by omega)]

theorem set_connection_behind {socket : Int} (h : socket = self.max_sockets) (type : UInt8)
    (send : Option σ → Option σ) : self.set_connection socket type send = none := by
  rw [set_connection, if_neg (by omega), if_neg (by omega), getElem?_eq_none]
  · rfl
  show self.max_sockets ≤ socket.toNat
  omega

theorem Cursor.set_connection (h : Cursor self) {socket : Int} (hnonneg : 0 ≤ socket) (hlt : socket < self.max_sockets)
    (type : UInt8) (send : Option σ → Option σ) :
    ∃ next, self.set_connection socket type send = some (true, next) ∧ Cursor next ∧
      next.max_sockets = self.max_sockets ∧
      ∀ s, next.type_at s = if s = socket.toNat then type else self.type_at s := by
  have hslot : socket.toNat < self.connections.length := by
    have : socket.toNat < self.max_sockets := by omega
    exact this
  rw [Broadcast.set_connection, if_neg (by omega), if_neg (by omega), getElem?_eq_getElem hslot, map_some]
  dsimp only
  generalize socket.toNat = slot at hslot ⊢
  generalize hconnection : { type, send := send self.connections[slot].send : Connection σ } = connection
  generalize hlast : (if type = unset then
      if self.last = slot then last_set (self.connections.set slot connection) slot else self.last
    else if self.last < slot then slot else self.last) = last
  have htype : ∀ s, Broadcast.type_at { last, connections := self.connections.set slot connection } s =
      if s = slot then type else self.type_at s := by
    intro s
    rw [type_at, getElem?_set]
    by_cases hs : slot = s
    · subst hs
      rw [if_pos rfl, if_pos rfl, if_pos hslot, ← hconnection]
      rfl
    rw [if_neg hs, if_neg (Ne.symm hs)]
    rfl
  refine ⟨_, rfl, ?_, length_set, htype⟩
  by_cases hunset : type = unset
  · rw [if_pos hunset] at hlast
    by_cases hcursor : self.last = slot
    · -- the cursor goes down to the next socket that has a type
      rw [if_pos hcursor] at hlast
      have hfound := last_set_eq { last, connections := self.connections.set slot connection } slot
      rw [hlast] at hfound
      constructor
      · intro hzero
        exact Nat.findGreatest_of_ne_zero hfound.symm hzero
      intro s hs
      have hle : s ≤ slot := by
        rw [htype] at hs
        by_cases hself : s = slot
        · exact Nat.le_of_eq hself
        rw [if_neg hself] at hs
        exact hcursor ▸ h.greatest s hs
      rw [hfound]
      exact Nat.le_findGreatest hle hs
    rw [if_neg hcursor] at hlast
    subst hlast
    constructor
    · intro hzero
      rw [htype, if_neg hcursor]
      exact h.attained hzero
    intro s hs
    rw [htype] at hs
    by_cases hself : s = slot
    · rw [if_pos hself] at hs
      exact absurd hunset hs
    rw [if_neg hself] at hs
    exact h.greatest s hs
  · rw [if_neg hunset] at hlast
    have hbounds : self.last ≤ last ∧ slot ≤ last ∧ (last = slot ∨ last = self.last) := by
      by_cases hbelow : self.last < slot
      · rw [if_pos hbelow] at hlast
        omega
      rw [if_neg hbelow] at hlast
      omega
    obtain ⟨hold, hnew, hcases⟩ := hbounds
    constructor
    · intro hzero
      rw [htype]
      by_cases hself : last = slot
      · rw [if_pos hself]
        exact hunset
      rw [if_neg hself, hcases.resolve_left hself]
      exact h.attained (hcases.resolve_left hself ▸ hzero)
    intro s hs
    rw [htype] at hs
    by_cases hself : s = slot
    · exact hself ▸ hnew
    rw [if_neg hself] at hs
    exact Nat.le_trans (h.greatest s hs) hold

theorem foldlM_eq {α : Type} {f : α → Nat → Connection σ → α} {g : α → Nat → α}
    (hf : ∀ acc i connection, self.connections[i]? = some connection → f acc i connection = g acc i)
    (sockets : List Nat) (hin : ∀ i ∈ sockets, i < self.max_sockets) (acc : α) :
    sockets.foldlM (fun acc i => (self.connections[i]?).map (f acc i)) acc = some (sockets.foldl g acc) := by
  induction sockets generalizing acc with
  | nil => rfl
  | cons i sockets ih =>
    have hconnection := getElem?_eq_getElem (hin i mem_cons_self)
    rw [foldlM_cons, hconnection, map_some, hf acc i _ hconnection, foldl_cons]
    exact ih (fun j hmem => hin j (mem_cons_of_mem _ hmem)) (g acc i)

theorem Cursor.scan_eq (h : Cursor self) (hpos : 0 < self.max_sockets) {α : Type} {f : α → Nat → Connection σ → α}
    {g : α → Nat → α}
    (hf : ∀ acc i connection, self.connections[i]? = some connection → f acc i connection = g acc i) (start : α) :
    self.scan f start = some ((List.range (self.last + 1)).foldl g start) := by
  apply foldlM_eq hf
  intro i hmem
  have hlast := h.last_lt hpos
  have hle := mem_range.mp hmem
  omega

theorem Cursor.filter_range (h : Cursor self) (hpos : 0 < self.max_sockets) (type : UInt8) :
    (List.range (self.last + 1)).filter (fun socket => decide (type &&& self.type_at socket ≠ 0)) =
      self.receivers type := by
  have hlast := h.last_lt hpos
  obtain ⟨rest, hrest⟩ := Nat.exists_eq_add_of_le hlast
  have hsplit : List.range self.max_sockets =
      List.range (self.last + 1) ++ (List.range rest).map (self.last + 1 + ·) := by
    rw [hrest]
    exact range_add
  rw [receivers, hsplit, filter_append]
  have hnone : ((List.range rest).map (self.last + 1 + ·)).filter
      (fun socket => decide (type &&& self.type_at socket ≠ 0)) = [] := by
    rw [filter_eq_nil_iff]
    intro socket hmem hoverlap
    obtain ⟨i, _, rfl⟩ := List.mem_map.mp hmem
    have htype : self.type_at (self.last + 1 + i) = unset := by
      by_contra htype
      have hle := h.greatest _ htype
      omega
    rw [htype] at hoverlap
    simp [unset] at hoverlap
  rw [hnone, List.append_nil]

theorem foldl_push (p : Nat → Bool) (sockets acc : List Nat) :
    sockets.foldl (fun list i => if p i then list ++ [i] else list) acc = acc ++ sockets.filter p := by
  induction sockets generalizing acc with
  | nil => simp
  | cons i sockets ih => cases hp : p i <;> simp [hp, ih]

theorem foldl_count (p : Nat → Bool) (sockets : List Nat) (acc : Nat) :
    sockets.foldl (fun count i => if p i then count + 1 else count) acc = acc + (sockets.filter p).length := by
  induction sockets generalizing acc with
  | nil => rfl
  | cons i sockets ih =>
    cases hp : p i
    · simp [hp, ih]
    simp only [foldl_cons, hp, if_true, ih, filter_cons_of_pos, length_cons]
    omega

theorem Cursor.get_sockets (h : Cursor self) (hpos : 0 < self.max_sockets) {type : UInt8} (htype : type ≠ unset) :
    self.get_sockets type = some (some (self.receivers type)) := by
  rw [Broadcast.get_sockets, if_neg (Ne.symm htype),
    h.scan_eq (g := fun list i => if decide (type &&& self.type_at i ≠ 0) = true then list ++ [i] else list) hpos ?_ [],
    foldl_push, nil_append, h.filter_range hpos, map_some]
  intro list i connection hconnection
  simp [type_at_eq hconnection]

theorem Cursor.count (h : Cursor self) (hpos : 0 < self.max_sockets) (type : UInt8) :
    self.count type = some (self.receivers type).length := by
  rw [Broadcast.count,
    h.scan_eq (g := fun count i => if decide (type &&& self.type_at i ≠ 0) = true then count + 1 else count) hpos ?_ 0,
    foldl_count, Nat.zero_add, h.filter_range hpos]
  intro count i connection hconnection
  simp [type_at_eq hconnection]

theorem Cursor.is_empty (h : Cursor self) (hpos : 0 < self.max_sockets) :
    ∃ empty, self.is_empty = some empty ∧ (empty = true ↔ ∀ socket, self.type_at socket = unset) := by
  have hlast := getElem?_eq_getElem (h.last_lt hpos)
  refine ⟨decide (unset = self.type_at self.last), ?_, ?_⟩
  · rw [Broadcast.is_empty, hlast, map_some, type_at_eq hlast]
  rw [decide_eq_true_eq]
  constructor
  · intro hunset socket
    by_contra htype
    have hle := h.greatest socket htype
    by_cases hzero : self.last = 0
    · have hsocket : socket = self.last := by omega
      exact htype (hsocket ▸ hunset.symm)
    · exact h.attained hzero hunset.symm
  intro hall
  exact (hall self.last).symm

def Call.type : Call σ → UInt8
  | .set _ type => type
  | .set_send _ type _ => type

/-- What a call does to the stored types. -/
def assign (types : Nat → UInt8) (call : Call σ) (socket : Nat) : UInt8 :=
  if (socket : Int) = call.socket then call.type else types socket

theorem Cursor.step (h : Cursor self) {call : Call σ} (hbelow : call.socket < self.max_sockets) :
    ∃ next, step call self = some next ∧ Cursor next ∧ next.max_sockets = self.max_sockets ∧
      next.type_at = assign self.type_at call := by
  have hconnection : ∀ send, ∃ ok next, self.set_connection call.socket call.type send = some (ok, next) ∧
      Cursor next ∧ next.max_sockets = self.max_sockets ∧ next.type_at = assign self.type_at call := by
    intro send
    by_cases hneg : call.socket < 0
    · refine ⟨false, self, set_connection_refused (Or.inl hneg) _ _, h, rfl, ?_⟩
      funext s
      rw [assign, if_neg (by omega)]
    obtain ⟨next, hset, hcursor, hsize, htype⟩ := h.set_connection (by omega) hbelow call.type send
    refine ⟨true, next, hset, hcursor, hsize, ?_⟩
    funext s
    rw [htype, assign]
    by_cases hs : s = call.socket.toNat
    · rw [if_pos hs, if_pos (by omega)]
    · rw [if_neg hs, if_neg (by omega)]
  cases call with
  | set socket type =>
    obtain ⟨ok, next, hset, hnext⟩ := hconnection id
    refine ⟨next, ?_, hnext⟩
    rw [event_broadcast.step, Broadcast.set]
    exact congrArg (Option.map Prod.snd) hset
  | set_send socket type send =>
    obtain ⟨ok, next, hset, hnext⟩ := hconnection (fun _ => some send)
    refine ⟨next, ?_, hnext⟩
    rw [event_broadcast.step, Broadcast.set_send]
    exact congrArg (Option.map Prod.snd) hset

theorem Cursor.run (h : Cursor self) (calls : List (Call σ)) (hbelow : ∀ call ∈ calls, call.socket < self.max_sockets) :
    ∃ last, machine.run event_broadcast.step calls self = some last ∧ Cursor last ∧
      last.max_sockets = self.max_sockets ∧ last.type_at = calls.foldl assign self.type_at := by
  induction calls generalizing self with
  | nil => exact ⟨self, rfl, h, rfl, rfl⟩
  | cons call calls ih =>
    obtain ⟨next, hstep, hcursor, hsize, htype⟩ := h.step (hbelow call mem_cons_self)
    obtain ⟨last, hrun, hlast, hsizes, htypes⟩ := ih hcursor (fun other hmem => by
      rw [hsize]
      exact hbelow other (mem_cons_of_mem _ hmem))
    refine ⟨last, ?_, hlast, hsizes.trans hsize, ?_⟩
    · rw [machine.run, hstep]
      exact hrun
    · rw [htypes, htype, foldl_cons]

/-- After every run the stored types are those of the last calls, the cursor is at the
    largest socket with a type, and the readers see all sockets: for a mask the list
    of the sockets that overlap it and their number, and whether there is any type. For
    the mask without a type there is no list. -/
theorem broadcast_membership {runtime_sockets max_sockets : Nat} {self : Broadcast σ}
    (hcreate : create runtime_sockets max_sockets = some self) (hpos : 0 < self.max_sockets)
    (calls : List (Call σ)) (hbelow : ∀ call ∈ calls, call.socket < self.max_sockets) :
    ∃ last, machine.run step calls self = some last ∧
      last.type_at = calls.foldl assign (fun _ => unset) ∧
      last.last = Nat.findGreatest (fun socket => last.type_at socket ≠ unset) last.max_sockets ∧
      (∀ type, last.get_sockets type = some (if type = unset then none else some (last.receivers type))) ∧
      (∀ type, last.count type = some (last.receivers type).length) ∧
      ∃ empty, last.is_empty = some empty ∧ (empty = true ↔ ∀ socket, last.type_at socket = unset) := by
  obtain ⟨last, hrun, hcursor, hsize, htypes⟩ := (create_cursor hcreate).run calls hbelow
  have hlast : 0 < last.max_sockets := hsize ▸ hpos
  have hnew : self.type_at = fun _ => unset := funext (create_type_at hcreate)
  refine ⟨last, hrun, hnew ▸ htypes, hcursor.last_eq, fun type => ?_, hcursor.count hlast, hcursor.is_empty hlast⟩
  by_cases htype : type = unset
  · rw [if_pos htype, get_sockets, if_pos htype.symm]
  · rw [if_neg htype]
    exact hcursor.get_sockets hlast htype

def gap_calls : List (Call Unit) := [.set 1 4, .set_send 5 2 (), .set 3 1, .set 5 0, .set 3 0, .set 1 0]

theorem broadcast_membership_gap_calls :
    ∃ last, machine.run step gap_calls { connections := List.replicate 8 {} } = some last ∧
      last.last = Nat.findGreatest (fun socket => last.type_at socket ≠ unset) last.max_sockets := by
  obtain ⟨last, hrun, _, hlast, _⟩ := @broadcast_membership Unit 0 8 _ rfl (by decide : 0 < (8 : Nat)) gap_calls
    (by decide)
  exact ⟨last, hrun, hlast⟩

/-- For the mask without a type NULL is reported and not an empty list. -/
theorem no_list_for_unset :
    ¬ ∀ (self : Broadcast Unit), create 0 8 = some self → 0 < self.max_sockets → ∀ calls : List (Call Unit),
      (∀ call ∈ calls, call.socket < self.max_sockets) → ∀ last, machine.run step calls self = some last →
        ∀ type, last.get_sockets type = some (some (last.receivers type)) := by
  intro h
  have hnull := h _ rfl (by decide : 0 < (8 : Nat)) [] (fun call hmem => absurd hmem not_mem_nil) _ rfl unset
  cases hnull

end openvocs.event_broadcast
