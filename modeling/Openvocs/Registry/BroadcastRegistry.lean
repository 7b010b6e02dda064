import Openvocs.Json.Value
import Openvocs.Registry.EventBroadcast

/-!
An access behind the array of a broadcast is `none`.
-/

open List Option
open openvocs.event_broadcast (Broadcast Cursor)

namespace openvocs.broadcast_registry

open assoc event_broadcast

/-- `struct ov_broadcast_registry` without its lock. -/
structure Registry (σ : Type) where
  max_sockets : Nat
  dict : List (String × Broadcast σ) := []

variable {σ : Type}

/-- The slot of a name in the dict. -/
def slot : String → Nat := dict_slot 255

namespace Registry

def create (runtime_sockets max_sockets : Nat) : Registry σ where
  max_sockets := if max_sockets = 0 then runtime_sockets else max_sockets

variable (self : Registry σ)

def del (name : String) : Registry σ := { self with dict := assoc.erase name self.dict }

/-- The broadcast of a name, which is created when there is none. Without a limit in
    the configuration the one of the system has been 0. -/
def get_create (name : String) : Option (Broadcast σ) :=
  match self.dict.lookup name with
  | some bcast => some bcast
  | none => Broadcast.create self.max_sockets self.max_sockets

def set (name : String) (socket : Int) (type : UInt8) : Option (Bool × Registry σ) :=
  match self.get_create name with
  | none => some (false, self)
  | some bcast =>
    match bcast.set socket type with
    | none => none
    | some (false, _) => some (false, self.del name)
    | some (true, bcast) =>
      bcast.is_empty.map fun empty =>
        (true, if empty then self.del name else { self with dict := assoc.put slot name bcast self.dict })

def get (name : String) (socket : Int) : Option UInt8 :=
  match self.dict.lookup name with
  | some bcast => bcast.get socket
  | none => some event_broadcast.unset

/-- `unset_socket` with the list of the names to delete. -/
def unset_socket (socket : Int) (name : String) (bcast : Broadcast σ) (c : Registry σ × List String) :
    Option (Bool × (Registry σ × List String)) :=
  match bcast.set socket event_broadcast.unset with
  | none => none
  | some (false, _) => some (false, c)
  | some (true, bcast) =>
    bcast.is_empty.map fun empty =>
      (true, { c.1 with dict := assoc.put slot name bcast c.1.dict }, if empty then c.2 ++ [name] else c.2)

def unset (socket : Int) : Option (Bool × Registry σ) :=
  if socket < 0 then some (false, self)
  else
    (walk (unset_socket socket) (assoc.entries self.dict) (self, [])).map fun r =>
      (r.1, r.2.2.foldl del r.2.1)

/-- The stored type of a socket under a name. -/
def type_at (name : String) (socket : Nat) : UInt8 :=
  match self.dict.lookup name with
  | some bcast => bcast.type_at socket
  | none => event_broadcast.unset

end Registry

open Registry

/-- The calls that change the registry. -/
inductive Call where
  | set (name : String) (socket : Int) (type : UInt8)
  | del (name : String)
  | unset (socket : Int)

def step : Call → Registry σ → Option (Registry σ)
  | .set name socket type, self => (self.set name socket type).map Prod.snd
  | .del name, self => some (self.del name)
  | .unset socket, self => (self.unset socket).map Prod.snd

/-- A broadcast of a name: it has a slot for every socket and somebody is subscribed. -/
structure Live (max_sockets : Nat) (bcast : Broadcast σ) : Prop where
  cursor : Cursor bcast
  size : bcast.max_sockets = max_sockets
  member : ∃ socket, bcast.type_at socket ≠ event_broadcast.unset

/-- Every name that is kept has a subscriber. -/
def Subscribed (self : Registry σ) : Prop :=
  ∀ name bcast, self.dict.lookup name = some bcast → Live self.max_sockets bcast

/-- What is reported for a socket stays the same, as far as it is read from a table. -/
def SameAt (self next : Registry σ) (name : String) (socket : Int) : Prop :=
  ∀ type ∈ self.get name socket, ∀ other ∈ next.get name socket, other = type

/-- No table can be allocated. -/
def Unallocated (self : Registry σ) : Prop := (Broadcast.create self.max_sockets self.max_sockets : Option (Broadcast σ)) = none

variable {self next : Registry σ}

variable {bcast : Broadcast σ} {name : String}

theorem type_at_of_some (h : self.dict.lookup name = some bcast) (socket : Nat) :
    self.type_at name socket = bcast.type_at socket := by
  rw [type_at, h]

theorem type_at_of_none (h : self.dict.lookup name = none) (socket : Nat) :
    self.type_at name socket = event_broadcast.unset := by
  rw [type_at, h]

theorem create_subscribed (runtime_sockets max_sockets : Nat) :
    Subscribed (create runtime_sockets max_sockets : Registry σ) := by
  intro name bcast hlookup
  cases hlookup

theorem del_lookup (self : Registry σ) (name other : String) :
    (self.del name).dict.lookup other = if other = name then none else self.dict.lookup other :=
  lookup_erase name self.dict other

section

variable (h : Subscribed self)

include h

theorem Subscribed.del (name : String) : Subscribed (self.del name) := by
  intro other bcast hlookup
  rw [del_lookup] at hlookup
  by_cases hname : other = name
  · rw [if_pos hname] at hlookup
    cases hlookup
  rw [if_neg hname] at hlookup
  exact h other bcast hlookup

theorem Subscribed.get_eq (name : String) {socket : Int} (hsocket : socket ≠ self.max_sockets) :
    self.get name socket = some (if socket < 0 then event_broadcast.unset else self.type_at name socket.toNat) := by
  rw [Registry.get]
  cases hlookup : self.dict.lookup name with
  | none =>
    rw [type_at_of_none hlookup, ite_self]
  | some bcast =>
    have hlive := h name bcast hlookup
    rw [type_at_of_some hlookup]
    show bcast.get socket = _
    rw [Broadcast.get, hlive.size]
    by_cases hneg : socket < 0
    · rw [if_pos hneg, if_pos hneg]
      rfl
    rw [if_neg hneg, if_neg hneg]
    by_cases hbehind : self.max_sockets < socket.toNat
    · have hunset : bcast.type_at socket.toNat = event_broadcast.unset := by
        by_contra htype
        have hlt := lt_max_sockets htype
        rw [hlive.size] at hlt
        omega
      rw [if_pos hbehind, hunset]
      rfl
    have hlt : socket.toNat < bcast.connections.length := by
      have hsize : bcast.connections.length = self.max_sockets := hlive.size
      omega
    have hconnection := getElem?_eq_getElem hlt
    rw [if_neg hbehind, hconnection, map_some, type_at_eq hconnection]

theorem Subscribed.get_create (hget : self.get_create name = some bcast) :
    Cursor bcast ∧ bcast.max_sockets = self.max_sockets ∧ ∀ socket, bcast.type_at socket = self.type_at name socket := by
  rw [Registry.get_create] at hget
  cases hlookup : self.dict.lookup name with
  | none =>
    rw [hlookup] at hget
    refine ⟨create_cursor hget, ?_, fun socket => ?_⟩
    · rw [create_eq hget]
      show (List.replicate _ _).length = _
      rw [length_replicate, ite_self]
    · rw [create_type_at hget, type_at_of_none hlookup]
  | some found =>
    rw [hlookup] at hget
    cases hget
    have hlive := h name bcast hlookup
    exact ⟨hlive.cursor, hlive.size, fun socket => (type_at_of_some hlookup socket).symm⟩

theorem Subscribed.set
    (hget : self.get_create name = some bcast) {socket : Int} (hnonneg : 0 ≤ socket) (hlt : socket < self.max_sockets)
    (type : UInt8) :
    ∃ next, self.set name socket type = some (true, next) ∧ Subscribed next ∧
      next.max_sockets = self.max_sockets ∧
      ∀ other s, next.type_at other s = if other = name ∧ s = socket.toNat then type else self.type_at other s := by
  obtain ⟨hcursor, hsize, htypes⟩ := h.get_create hget
  obtain ⟨after, hset, hafter, hsizes, htype⟩ := hcursor.set_connection hnonneg (hsize ▸ hlt) type id
  obtain ⟨empty, hempty, hiff⟩ := hafter.is_empty (by omega)
  have hstored : ∀ s, after.type_at s = if s = socket.toNat then type else self.type_at name s := by
    intro s
    rw [htype, htypes]
  have hresult : self.set name socket type = some (true,
      if empty then self.del name else { self with dict := assoc.put slot name after self.dict }) := by
    rw [Registry.set, hget]
    simp only [Broadcast.set, hset, hempty, map_some]
  rw [hresult]
  refine ⟨_, rfl, ?_⟩
  cases empty with
  | true =>
    -- the last subscriber has left
    have hunset := hiff.mp rfl
    rw [if_pos rfl]
    refine ⟨h.del name, rfl, fun other s => ?_⟩
    by_cases hname : other = name
    · have hnone : (self.del name).dict.lookup other = none := by rw [del_lookup, if_pos hname]
      have hs := hstored s
      rw [hunset s] at hs
      show (self.del name).type_at other s = _
      rw [type_at_of_none hnone, hname, hs]
      simp only [true_and]
    rw [if_neg (fun hboth => hname hboth.1)]
    show (self.del name).type_at other s = _
    rw [type_at, del_lookup, if_neg hname]
    rfl
  | false =>
    have hmember : ∃ s, after.type_at s ≠ event_broadcast.unset := by
      by_contra hnone
      push Not at hnone
      exact Bool.false_ne_true (hiff.mpr hnone)
    rw [if_neg Bool.false_ne_true]
    refine ⟨fun other found hlookup => ?_, rfl, fun other s => ?_⟩
    · have hput : (assoc.put slot name after self.dict).lookup other = some found := hlookup
      rw [lookup_put] at hput
      by_cases hname : other = name
      · rw [if_pos hname] at hput
        cases hput
        exact ⟨hafter, hsizes.trans hsize, hmember⟩
      rw [if_neg hname] at hput
      exact h other found hput
    show Registry.type_at { self with dict := assoc.put slot name after self.dict } other s = _
    rw [type_at, lookup_put]
    by_cases hname : other = name
    · rw [if_pos hname]
      simp only [hname, true_and]
      exact hstored s
    rw [if_neg hname, if_neg (fun hboth => hname hboth.1)]
    rfl

theorem Subscribed.set_refused
    (hget : self.get_create name = some bcast) {socket : Int} (hout : socket < 0 ∨ (self.max_sockets : Int) < socket)
    (type : UInt8) : self.set name socket type = some (false, self.del name) := by
  obtain ⟨_, hsize, _⟩ := h.get_create hget
  rw [Registry.set, hget]
  simp only [Broadcast.set, set_connection_refused (hsize ▸ hout)]

theorem Subscribed.set_behind
    (hget : self.get_create name = some bcast) {socket : Int} (hsocket : socket = self.max_sockets) (type : UInt8) :
    self.set name socket type = none := by
  obtain ⟨_, hsize, _⟩ := h.get_create hget
  rw [Registry.set, hget]
  simp only [Broadcast.set, set_connection_behind (hsize ▸ hsocket)]

end

/-- The broadcast after a socket is unset, and whether nobody is left. -/
def cleared (socket : Int) (bcast : Broadcast σ) : Broadcast σ :=
  ((bcast.set socket event_broadcast.unset).map Prod.snd).getD bcast

def is_clear (socket : Int) (bcast : Broadcast σ) : Bool := (cleared socket bcast).is_empty.getD false

theorem Live.cleared {max_sockets : Nat} (h : Live max_sockets bcast) {socket : Int}
    (hnonneg : 0 ≤ socket) (hlt : socket < max_sockets) :
    bcast.set socket event_broadcast.unset = some (true, cleared socket bcast) ∧
      (cleared socket bcast).is_empty = some (is_clear socket bcast) ∧
      Cursor (cleared socket bcast) ∧ (cleared socket bcast).max_sockets = max_sockets ∧
      (∀ s, (cleared socket bcast).type_at s = if s = socket.toNat then event_broadcast.unset else bcast.type_at s) ∧
      (is_clear socket bcast = true ↔ ∀ s, (cleared socket bcast).type_at s = event_broadcast.unset) := by
  have hbelow : socket < bcast.max_sockets := by
    rw [h.size]
    exact hlt
  obtain ⟨after, hset, hafter, hsizes, htype⟩ := h.cursor.set_connection hnonneg hbelow event_broadcast.unset id
  have hcleared : broadcast_registry.cleared socket bcast = after := by
    rw [broadcast_registry.cleared, Broadcast.set, hset]
    rfl
  obtain ⟨empty, hempty, hiff⟩ := hafter.is_empty (by omega)
  have hclear : is_clear socket bcast = empty := by
    rw [is_clear, hcleared, hempty]
    rfl
  rw [hcleared, hclear]
  exact ⟨hset, hempty, hafter, hsizes.trans h.size, htype, hiff⟩

theorem walk_unset_socket {socket : Int} (hnonneg : 0 ≤ socket) (hlt : socket < self.max_sockets)
    {l : List (String × Broadcast σ)} (hlive : ∀ entry ∈ l, Live self.max_sockets entry.2) (names : List String) :
    ∀ dict, walk (unset_socket socket) l ({ self with dict }, names) =
      some (true, { self with
          dict := l.foldl (fun dict entry => assoc.put slot entry.1 (cleared socket entry.2) dict) dict },
        names ++ (l.filter fun entry => is_clear socket entry.2).map Prod.fst) := by
  induction l generalizing names with
  | nil =>
    intro dict
    rw [filter_nil, map_nil, List.append_nil]
    rfl
  | cons entry rest ih =>
    intro dict
    obtain ⟨name, bcast⟩ := entry
    obtain ⟨hset, hempty, _⟩ := (hlive (name, bcast) mem_cons_self).cleared hnonneg hlt
    have hrest := ih (fun other hmem => hlive other (mem_cons_of_mem _ hmem))
    rw [walk, unset_socket, hset]
    simp only [hempty, map_some, hrest, foldl_cons]
    cases hclear : is_clear socket bcast with
    | false => simp only [filter_cons, hclear, Bool.false_eq_true, if_false]
    | true =>
      simp [filter_cons, hclear]

section

variable (h : Subscribed self)

include h

theorem Subscribed.unset_lookup {socket : Int} (hnonneg : 0 ≤ socket)
    (hlt : socket < self.max_sockets) :
    ∃ next, self.unset socket = some (true, next) ∧ next.max_sockets = self.max_sockets ∧
      ∀ name, next.dict.lookup name =
        (self.dict.lookup name).bind fun bcast =>
          if is_clear socket bcast then none else some (cleared socket bcast) := by
  have hlive : ∀ entry ∈ assoc.entries self.dict, Live self.max_sockets entry.2 := by
    intro entry hmem
    exact h entry.1 entry.2 ((assoc.mem_entries_iff self.dict entry.1 entry.2).mp hmem)
  have hdel : ∀ (names : List String) (reg : Registry σ),
      names.foldl Registry.del reg =
        { reg with dict := names.foldl (fun dict name => assoc.erase name dict) reg.dict } := by
    intro names
    induction names with
    | nil => exact fun _ => rfl
    | cons name names ih => exact fun reg => ih (reg.del name)
  have hwalk := walk_unset_socket hnonneg hlt hlive [] self.dict
  rw [Registry.unset, if_neg (by omega), hwalk, map_some, nil_append, hdel]
  refine ⟨_, rfl, rfl, fun name => ?_⟩
  dsimp only
  rw [lookup_foldl_erase, lookup_foldl_put slot (cleared socket) (entries_keys_nodup self.dict), lookup_entries]
  cases hlookup : self.dict.lookup name with
  | none =>
    rw [bind_none]
    simp only [ite_self]
  | some bcast =>
    have hmem : name ∈ ((assoc.entries self.dict).filter fun entry => is_clear socket entry.2).map Prod.fst ↔
        is_clear socket bcast = true := by
      constructor
      · intro hmem
        obtain ⟨⟨key, found⟩, hfound, rfl⟩ := List.mem_map.mp hmem
        obtain ⟨hentry, hclear⟩ := mem_filter.mp hfound
        have heq := (assoc.mem_entries_iff self.dict key found).mp hentry
        rw [hlookup, some.injEq] at heq
        exact heq ▸ hclear
      intro hclear
      apply List.mem_map_of_mem (f := Prod.fst) (a := (name, bcast))
      exact mem_filter.mpr ⟨(assoc.mem_entries_iff self.dict name bcast).mpr hlookup, hclear⟩
    rw [bind_some]
    by_cases hclear : is_clear socket bcast = true
    · rw [if_pos (hmem.mpr hclear), if_pos hclear]
    · rw [if_neg (fun hin => hclear (hmem.mp hin)), if_neg hclear]

theorem Subscribed.unset {socket : Int} (hnonneg : 0 ≤ socket) (hlt : socket < self.max_sockets) :
    ∃ next, self.unset socket = some (true, next) ∧ Subscribed next ∧ next.max_sockets = self.max_sockets ∧
      ∀ name s, next.type_at name s = if s = socket.toNat then event_broadcast.unset else self.type_at name s := by
  obtain ⟨next, hunset, hsize, hlookups⟩ := h.unset_lookup hnonneg hlt
  refine ⟨next, hunset, fun name after hlookup => ?_, hsize, fun name s => ?_⟩
  · rw [hlookups] at hlookup
    obtain ⟨bcast, hbcast, hafter⟩ := bind_eq_some_iff.mp hlookup
    obtain ⟨_, _, hcursor, hsizes, _, hclear⟩ := (h name bcast hbcast).cleared hnonneg hlt
    by_cases hempty : is_clear socket bcast = true
    · rw [if_pos hempty] at hafter
      cases hafter
    rw [if_neg hempty, some.injEq] at hafter
    subst hafter
    refine ⟨hcursor, hsizes.trans hsize.symm, ?_⟩
    by_contra hnone
    push Not at hnone
    exact hempty (hclear.mpr hnone)
  rw [type_at, hlookups]
  cases hlookup : self.dict.lookup name with
  | none =>
    rw [bind_none, type_at_of_none hlookup, ite_self]
  | some bcast =>
    obtain ⟨_, _, _, _, htype, hclear⟩ := (h name bcast hlookup).cleared hnonneg hlt
    rw [bind_some, type_at_of_some hlookup, ← htype]
    by_cases hempty : is_clear socket bcast = true
    · rw [if_pos hempty, hclear.mp hempty s]
    · rw [if_neg hempty]

theorem Subscribed.unset_refused {socket : Int}
    (hout : socket < 0 ∨ (self.max_sockets : Int) < socket) : ∃ ok, self.unset socket = some (ok, self) := by
  rw [Registry.unset]
  by_cases hneg : socket < 0
  · exact ⟨false, by rw [if_pos hneg]⟩
  rw [if_neg hneg]
  cases hentries : assoc.entries self.dict with
  | nil => exact ⟨true, rfl⟩
  | cons entry rest =>
    obtain ⟨name, bcast⟩ := entry
    have hmem : (name, bcast) ∈ assoc.entries self.dict := hentries ▸ mem_cons_self
    have hlive := h name bcast ((assoc.mem_entries_iff self.dict name bcast).mp hmem)
    refine ⟨false, ?_⟩
    rw [walk, unset_socket, Broadcast.set, set_connection_refused (hlive.size ▸ hout)]
    rfl

theorem Subscribed.unset_behind
    (hlookup : self.dict.lookup name = some bcast) {socket : Int} (hsocket : socket = self.max_sockets) :
    self.unset socket = none := by
  rw [Registry.unset, if_neg (by omega)]
  cases hentries : assoc.entries self.dict with
  | nil =>
    have hmem := (assoc.mem_entries_iff self.dict name bcast).mpr hlookup
    rw [hentries] at hmem
    cases hmem
  | cons entry rest =>
    obtain ⟨first, found⟩ := entry
    have hmem : (first, found) ∈ assoc.entries self.dict := hentries ▸ mem_cons_self
    have hlive := h first found ((assoc.mem_entries_iff self.dict first found).mp hmem)
    rw [walk, unset_socket, Broadcast.set, set_connection_behind (hlive.size ▸ hsocket)]
    rfl

theorem Subscribed.step {call : Call} (hstep : step call self = some next) : Subscribed next := by
  cases call with
  | set name socket type =>
    obtain ⟨⟨ok, after⟩, hset, rfl⟩ := map_eq_some_iff.mp hstep
    cases hget : self.get_create name with
    | none =>
      rw [Registry.set, hget] at hset
      cases hset
      exact h
    | some bcast =>
      by_cases hbehind : socket = self.max_sockets
      · rw [h.set_behind hget hbehind] at hset
        cases hset
      by_cases hout : socket < 0 ∨ (self.max_sockets : Int) < socket
      · rw [h.set_refused hget hout] at hset
        cases hset
        exact h.del name
      obtain ⟨after, hresult, hafter, _⟩ := h.set hget (by omega : 0 ≤ socket) (by omega) type
      rw [hresult] at hset
      cases hset
      exact hafter
  | del name =>
    cases hstep
    exact h.del name
  | unset socket =>
    obtain ⟨⟨ok, after⟩, hunset, rfl⟩ := map_eq_some_iff.mp hstep
    by_cases hin : 0 ≤ socket ∧ socket < self.max_sockets
    · obtain ⟨after, hresult, hafter, _⟩ := h.unset hin.1 hin.2
      rw [hresult] at hunset
      cases hunset
      exact hafter
    by_cases hbehind : socket = self.max_sockets
    · cases hentries : assoc.entries self.dict with
      | nil =>
        rw [Registry.unset, if_neg (by omega), hentries] at hunset
        cases hunset
        exact h
      | cons entry rest =>
        have hmem : (entry.1, entry.2) ∈ assoc.entries self.dict := hentries ▸ mem_cons_self
        rw [h.unset_behind ((assoc.mem_entries_iff self.dict _ _).mp hmem) hbehind] at hunset
        cases hunset
    obtain ⟨_, hresult⟩ := h.unset_refused (by omega : socket < 0 ∨ (self.max_sockets : Int) < socket)
    rw [hresult] at hunset
    cases hunset
    exact h

end

theorem run_subscribed {runtime_sockets max_sockets : Nat} {calls : List Call}
    (hrun : machine.run step calls (create runtime_sockets max_sockets) = some self) : Subscribed self := by
  apply machine.run_invariant Subscribed (fun _ _ => True) (fun _ _ _ h _ hstep => h.step hstep) calls
    (create_subscribed runtime_sockets max_sockets) ?_ hrun
  exact machine.along_of_forall calls (fun _ _ _ => trivial) _

theorem Subscribed.get_behind (h : Subscribed self) {socket : Int} (hsocket : socket = self.max_sockets)
    {type : UInt8} (hget : type ∈ self.get name socket) : type = event_broadcast.unset := by
  rw [Registry.get] at hget
  cases hlookup : self.dict.lookup name with
  | none =>
    rw [hlookup] at hget
    exact (some.inj hget).symm
  | some bcast =>
    have hsize : bcast.connections.length = self.max_sockets := (h name bcast hlookup).size
    rw [hlookup] at hget
    have hnone : bcast.get socket = none := by
      rw [Broadcast.get, if_neg (by omega), Broadcast.max_sockets, if_neg (by omega), getElem?_eq_none (by omega)]
      rfl
    change bcast.get socket = some type at hget
    rw [hnone] at hget
    cases hget

theorem Subscribed.sameAt (h : Subscribed self) (hnext : Subscribed next) (hsize : next.max_sockets = self.max_sockets) {socket : Int}
    (htypes : 0 ≤ socket → next.type_at name socket.toNat = self.type_at name socket.toNat) :
    SameAt self next name socket := by
  intro type htype other hother
  by_cases hbehind : socket = self.max_sockets
  · rw [h.get_behind hbehind htype, hnext.get_behind (hsize ▸ hbehind) hother]
  rw [h.get_eq name hbehind, mem_some] at htype
  rw [hnext.get_eq name (hsize ▸ hbehind), mem_some] at hother
  rw [← htype, ← hother]
  by_cases hneg : socket < 0
  · rw [if_pos hneg, if_pos hneg]
  · rw [if_neg hneg, if_neg hneg, htypes (by omega)]

/-- A subscription that fails changes nothing, one that succeeds changes its entry only. -/
def SetIsolated (self : Registry σ) (name : String) (socket : Int) (type : UInt8) : Prop :=
  ∃ ok next, self.set name socket type = some (ok, next) ∧
    (ok = false → ∀ other s, SameAt self next other s) ∧
    (ok = true → ∀ other s, (other, s) ≠ (name, socket) → SameAt self next other s)

/-- A socket is unset under every name, and the other sockets keep their types. -/
def UnsetIsolated (self : Registry σ) (socket : Int) : Prop :=
  ∃ ok next, self.unset socket = some (ok, next) ∧ (∀ name, next.get name socket = some event_broadcast.unset) ∧
    ∀ name s, s ≠ socket → SameAt self next name s

theorem sameAt_refl (self : Registry σ) (name : String) (socket : Int) : SameAt self self name socket := by
  intro type htype other hother
  exact mem_unique hother htype

theorem Subscribed.del_sameAt_iff (h : Subscribed self) (name : String) :
    (∀ other socket, SameAt self (self.del name) other socket) ↔ self.dict.lookup name = none := by
  constructor
  · intro hsame
    cases hlookup : self.dict.lookup name with
    | none => rfl
    | some bcast =>
      have hlive := h name bcast hlookup
      obtain ⟨s, htype⟩ := hlive.member
      have hlt := lt_max_sockets htype
      rw [hlive.size] at hlt
      have hbefore := h.get_eq name (by omega : (s : Int) ≠ self.max_sockets)
      have hafter := (h.del name).get_eq name (by omega : (s : Int) ≠ self.max_sockets)
      have hdeleted : (self.del name).dict.lookup name = none := by rw [del_lookup, if_pos rfl]
      rw [if_neg (by omega), Int.toNat_natCast] at hbefore hafter
      rw [type_at_of_some hlookup] at hbefore
      rw [type_at_of_none hdeleted] at hafter
      exact absurd (hsame name s _ hbefore _ hafter).symm htype
  intro hnone other socket
  apply h.sameAt (h.del name) rfl
  intro _
  rw [type_at, type_at, del_lookup]
  by_cases hname : other = name
  · rw [if_pos hname, hname, hnone]
  · rw [if_neg hname]

theorem Subscribed.setIsolated_iff (h : Subscribed self) (name : String) (socket : Int) (type : UInt8) :
    SetIsolated self name socket type ↔
      (0 ≤ socket ∧ socket < self.max_sockets) ∨
        self.dict.lookup name = none ∧ (socket ≠ self.max_sockets ∨ Unallocated self) := by
  cases hget : self.get_create name with
  | none =>
    have hnone : self.dict.lookup name = none ∧ Unallocated self := by
      rw [Registry.get_create] at hget
      cases hlookup : self.dict.lookup name with
      | none =>
        rw [hlookup] at hget
        exact ⟨rfl, hget⟩
      | some bcast =>
        rw [hlookup] at hget
        cases hget
    refine iff_of_true ⟨false, self, ?_, fun _ => sameAt_refl self, fun htrue => absurd htrue Bool.false_ne_true⟩
      (Or.inr ⟨hnone.1, Or.inr hnone.2⟩)
    rw [Registry.set, hget]
  | some bcast =>
    have hallocated : self.dict.lookup name = none → ¬ Unallocated self := by
      intro hlookup hunallocated
      rw [Registry.get_create, hlookup] at hget
      change Broadcast.create self.max_sockets self.max_sockets = some bcast at hget
      rw [hunallocated] at hget
      cases hget
    by_cases hin : 0 ≤ socket ∧ socket < self.max_sockets
    · obtain ⟨next, hset, hnext, hsize, htypes⟩ := h.set hget hin.1 hin.2 type
      refine iff_of_true ⟨true, next, hset, fun hfalse => absurd hfalse.symm Bool.false_ne_true,
        fun _ other s hne => h.sameAt hnext hsize fun hs => ?_⟩ (Or.inl hin)
      rw [htypes, if_neg]
      rintro ⟨rfl, hs'⟩
      apply hne
      rw [Prod.mk.injEq]
      exact ⟨rfl, by omega⟩
    by_cases hbehind : socket = self.max_sockets
    · refine iff_of_false ?_ ?_
      · rintro ⟨ok, next, hset, _⟩
        rw [h.set_behind hget hbehind] at hset
        cases hset
      rintro (hrange | ⟨hlookup, hne | hunallocated⟩)
      · exact hin hrange
      · exact hne hbehind
      · exact hallocated hlookup hunallocated
    have hset := h.set_refused hget (by omega : socket < 0 ∨ (self.max_sockets : Int) < socket) type
    rw [SetIsolated, hset]
    constructor
    · rintro ⟨ok, next, heq, hsame, _⟩
      cases heq
      exact Or.inr ⟨(h.del_sameAt_iff name).mp (hsame rfl), Or.inl hbehind⟩
    rintro (hrange | ⟨hlookup, _⟩)
    · exact absurd hrange hin
    · exact ⟨false, _, rfl, fun _ => (h.del_sameAt_iff name).mpr hlookup, fun htrue => absurd htrue Bool.false_ne_true⟩

theorem Subscribed.unsetIsolated_iff (h : Subscribed self) (socket : Int) :
    UnsetIsolated self socket ↔ socket ≠ self.max_sockets ∨ ∀ name, self.dict.lookup name = none := by
  by_cases hbehind : socket = self.max_sockets
  · constructor
    · rintro ⟨ok, next, hunset, _⟩
      refine Or.inr fun name => ?_
      cases hlookup : self.dict.lookup name with
      | none => rfl
      | some bcast =>
        rw [h.unset_behind hlookup hbehind] at hunset
        cases hunset
    rintro (hne | hempty)
    · exact absurd hbehind hne
    have hentries : assoc.entries self.dict = [] := by
      rw [eq_nil_iff_forall_not_mem]
      rintro ⟨name, bcast⟩ hmem
      have hlookup := (assoc.mem_entries_iff self.dict name bcast).mp hmem
      rw [hempty name] at hlookup
      cases hlookup
    refine ⟨true, self, ?_, fun name => ?_, fun name s _ => sameAt_refl self name s⟩
    · rw [Registry.unset, if_neg (by omega), hentries]
      rfl
    · rw [Registry.get, hempty name]
  refine iff_of_true ?_ (Or.inl hbehind)
  by_cases hin : 0 ≤ socket ∧ socket < self.max_sockets
  · obtain ⟨next, hunset, hnext, hsize, htypes⟩ := h.unset hin.1 hin.2
    refine ⟨true, next, hunset, fun name => ?_, fun name s hs => h.sameAt hnext hsize fun hnonneg => ?_⟩
    · rw [hnext.get_eq name (hsize ▸ hbehind), if_neg (by omega), htypes, if_pos rfl]
    · rw [htypes, if_neg (by omega)]
  obtain ⟨ok, hunset⟩ := h.unset_refused (by omega : socket < 0 ∨ (self.max_sockets : Int) < socket)
  refine ⟨ok, self, hunset, fun name => ?_, fun name s _ => sameAt_refl self name s⟩
  rw [h.get_eq name hbehind]
  by_cases hneg : socket < 0
  · rw [if_pos hneg]
  have htype : self.type_at name socket.toNat = event_broadcast.unset := by
    cases hlookup : self.dict.lookup name with
    | none => exact type_at_of_none hlookup _
    | some bcast =>
      rw [type_at_of_some hlookup]
      by_contra hne
      have hlt := lt_max_sockets hne
      rw [(h name bcast hlookup).size] at hlt
      omega
  rw [if_neg hneg, htype]
/-- In every state of a run a subscription leaves the other subscribers alone when its
    socket is a socket of the table, or nobody is subscribed to the name yet and the
    socket is not the one behind the table. A socket is unset everywhere and nothing
    else changes, unless it is the one behind the table. -/
theorem subscriptions_isolated_when (runtime_sockets max_sockets : Nat) (calls : List Call) (self : Registry σ)
    (hrun : machine.run step calls (create runtime_sockets max_sockets) = some self) :
    (∀ name socket type, SetIsolated self name socket type ↔
      (0 ≤ socket ∧ socket < self.max_sockets) ∨
        self.dict.lookup name = none ∧ (socket ≠ self.max_sockets ∨ Unallocated self)) ∧
      ∀ socket, UnsetIsolated self socket ↔ socket ≠ self.max_sockets ∨ ∀ name, self.dict.lookup name = none :=
  ⟨(run_subscribed hrun).setIsolated_iff, (run_subscribed hrun).unsetIsolated_iff⟩

def loop_calls : List Call := [.set "a" 3 8, .set "a" 1 8, .set "b" 3 8]

theorem subscriptions_isolated_when_loop_calls :
    ∃ self : Registry Unit, machine.run step loop_calls (create 0 8) = some self ∧
      SetIsolated self "a" 3 16 ∧ UnsetIsolated self 3 := by
  have hrun : ∃ self : Registry Unit, machine.run step loop_calls (create 0 8) = some self ∧ self.max_sockets = 8 :=
    ⟨_, rfl, rfl⟩
  obtain ⟨self, hrun, hsize⟩ := hrun
  obtain ⟨hset, hunset⟩ := subscriptions_isolated_when 0 8 loop_calls self hrun
  exact ⟨self, hrun, (hset "a" 3 16).mpr (Or.inl (by omega)), (hunset 3).mpr (Or.inl (by omega))⟩

/-- A subscription with a socket that is no socket deletes the subscriptions of others. -/
theorem failed_subscription_deletes :
    ¬ ∀ (calls : List Call) (self : Registry Unit), machine.run step calls (create 0 8) = some self →
      ∀ name socket type next, self.set name socket type = some (false, next) → ∀ other s, SameAt self next other s := by
  intro h
  have hsame := h [.set "a" 3 8] _ rfl "a" (-1) 8 _ rfl "a" 3 8 rfl 0 rfl
  exact absurd hsame (by decide)

end openvocs.broadcast_registry
