import Mathlib.Data.List.ReduceOption
import Mathlib.Data.List.Rotate
import Mathlib.Data.Nat.ModEq
import Openvocs.Lib.Machine

/-!
A failed assertion ends the program, which is `none` here.
-/

open List

namespace openvocs

open Function

/-- A ring buffer with its statistics; `capacity` counts the slots, the open one included. -/
structure Ringbuffer (α : Type) where
  capacity : Nat
  read : Nat
  write : Nat
  content : Nat → Option α
  elements_inserted : Nat
  elements_dropped : Nat

namespace Ringbuffer

variable {α : Type}

/-- What a call gives: its flag, the element returned and the elements handed to `free_element`. -/
structure Answer (α : Type) where
  ok : Bool
  element : Option α
  freed : List α

/-- The calls on a buffer. It is used again when it was freed into the cache and `create` takes it out. -/
inductive Call (α : Type) where
  | insert (element : Option α)
  | pop
  | clear
  | reuse (capacity : Nat)

def drop_element_nocheck (self : Ringbuffer α) (index : Nat) : List α × Ringbuffer α :=
  match self.content index with
  | none => ([], { self with content := update self.content index none })
  | some content =>
    ([content],
      { self with
        content := update self.content index none
        elements_dropped := self.elements_dropped + 1 })

def advance_read (self : Ringbuffer α) : Option (Ringbuffer α) := do
  guard (self.content self.read).isNone
  some { self with read := if self.read + 1 ≥ self.capacity then 0 else self.read + 1 }

def advance_write (self : Ringbuffer α) : Option (List α × Ringbuffer α) := do
  let self := { self with write := if self.write + 1 ≥ self.capacity then 0 else self.write + 1 }
  let (freed, self) := self.drop_element_nocheck self.write
  let self ← if self.write = self.read then self.advance_read else some self
  guard (self.write ≠ self.read)
  some (freed, self)

def pop (self : Ringbuffer α) : Option (Answer α × Ringbuffer α) := do
  if self.read = self.write then some (⟨false, none, []⟩, self)
  else
    let retval := self.content self.read
    let self ← { self with content := update self.content self.read none }.advance_read
    some (⟨retval.isSome, retval, []⟩, self)

def insert (self : Ringbuffer α) : Option α → Option (Answer α × Ringbuffer α)
  | none => some (⟨false, none, []⟩, self)
  | some element => do
    guard (1 < self.capacity)
    guard (self.content self.write).isNone
    let (freed, self) ←
      { self with content := update self.content self.write (some element) }.advance_write
    some (⟨true, none, freed⟩, { self with elements_inserted := self.elements_inserted + 1 })

/-- Drops the elements of `n` slots from slot `i` on. -/
def drop_from (self : Ringbuffer α) (i : Nat) : Nat → List α × Ringbuffer α
  | 0 => ([], self)
  | n + 1 =>
    let (freed, self) := self.drop_element_nocheck i
    let (rest, self) := self.drop_from (i + 1) n
    (freed ++ rest, self)

def clear (self : Ringbuffer α) : Option (Answer α × Ringbuffer α) := do
  guard (1 < self.capacity)
  let (freed, self) := self.drop_from 0 self.capacity
  some (⟨true, none, freed⟩, self)

def new_buffer_create (capacity : Nat) : Option (Ringbuffer α) :=
  if capacity = 0 then none else some ⟨1 + capacity, 0, 0, fun _ => none, 0, 0⟩

/-- `ov_ringbuffer_create`, given what the cache holds; positions and statistics of a buffer
    from the cache stay as they were left. -/
def create (cached : Option (Ringbuffer α)) (capacity : Nat) : Option (Ringbuffer α) := do
  let buffer ← cached <|> new_buffer_create capacity
  if capacity + 1 > buffer.capacity then
    some { buffer with capacity := 1 + capacity, content := fun _ => none }
  else some buffer

/-- One call; `ringbuffer_free` clears the buffer before it puts it into the cache. -/
def step : Call α → Ringbuffer α → Option (Answer α × Ringbuffer α)
  | .insert element, self => self.insert element
  | .pop, self => self.pop
  | .clear, self => self.clear
  | .reuse capacity, self => do
    let (answer, self) ← self.clear
    let self ← create (some self) capacity
    some (answer, self)

def run : List (Call α) → Ringbuffer α → Option (List (Answer α) × Ringbuffer α)
  | [], self => some ([], self)
  | call :: calls, self => do
    let (answer, self) ← self.step call
    let (answers, self) ← run calls self
    some (answer :: answers, self)

/-- The elements in the slots, in the order of the slots. -/
def occupied (self : Ringbuffer α) : List α := (range self.capacity).filterMap self.content

/-- A queue of at most `capacity` elements, the oldest one first. -/
structure Queue (α : Type) where
  capacity : Nat
  held : List α

/-- What a call does to a bounded queue that gives up its oldest element for a new one. -/
def Queue.step : Call α → Queue α → Answer α × Queue α
  | .insert none, q => (⟨false, none, []⟩, q)
  | .insert (some element), q =>
    if q.held.length < q.capacity then (⟨true, none, []⟩, { q with held := q.held ++ [element] })
    else (⟨true, none, q.held.head?.toList⟩, { q with held := (q.held ++ [element]).tail })
  | .pop, q => (⟨q.held.head?.isSome, q.held.head?, []⟩, { q with held := q.held.tail })
  | .clear, q => (⟨true, none, q.held⟩, { q with held := [] })
  | .reuse capacity, q => (⟨true, none, q.held⟩, ⟨max q.capacity capacity, []⟩)

def Queue.run : List (Call α) → Queue α → List (Answer α)
  | [], _ => []
  | call :: calls, q => (q.step call).1 :: run calls (q.step call).2

/-- Both answers say the same and free the same elements, each as often. -/
def Answer.Agrees (answer other : Answer α) : Prop :=
  answer.ok = other.ok ∧ answer.element = other.element ∧ answer.freed.Perm other.freed

/-- The calls are answered as by the queue, and in the end every inserted element was dropped or
    returned or is still held. -/
def Follows (calls : List (Call α)) (self : Ringbuffer α) (q : Queue α) : Prop :=
  ∃ answers last, self.run calls = some (answers, last) ∧ Forall₂ Answer.Agrees answers (q.run calls) ∧
    last.elements_inserted =
      last.elements_dropped + (answers.filterMap Answer.element).length + last.occupied.length

/-- No element is asked for at a slot that was emptied while another slot holds one. -/
def Finds (self : Ringbuffer α) (call : Call α) : Prop :=
  match call with
  | .pop => self.read ≠ self.write → self.content self.read = none → self.occupied = []
  | _ => True

/-- From position `read` on the slots hold the given cells, and nothing behind them. -/
def Cells (content : Nat → Option α) (read capacity : Nat) (cells : List (Option α)) : Prop :=
  ∀ k < capacity, content ((read + k) % capacity) = cells[k]?.join

theorem wrap_eq {n capacity : Nat} (h : n < capacity) :
    (if n + 1 ≥ capacity then 0 else n + 1) = (n + 1) % capacity := by
  split
  · rw [show n + 1 = capacity by omega, Nat.mod_self]
  · rw [Nat.mod_eq_of_lt (by omega)]

theorem circle_inj (read : Nat) {capacity j k : Nat} (hj : j < capacity) (hk : k < capacity)
    (h : (read + j) % capacity = (read + k) % capacity) : j = k := by
  have hmod : j % capacity = k % capacity := Nat.ModEq.add_left_cancel' read h
  rwa [Nat.mod_eq_of_lt hj, Nat.mod_eq_of_lt hk] at hmod

namespace Cells

variable {content : Nat → Option α} {read capacity : Nat} {cell : Option α} {cells : List (Option α)}

variable (cell) in
theorem push (h : Cells content read capacity cells) (hroom : cells.length < capacity) :
    Cells (update content ((read + cells.length) % capacity) cell) read capacity (cells ++ [cell]) := by
  intro k hk
  by_cases hlast : k = cells.length
  · subst hlast
    rw [update_self, getElem?_concat_length, Option.join_some]
  rw [update_of_ne (fun heq => hlast (circle_inj read hk hroom heq)), h k hk]
  rcases Nat.lt_or_gt_of_ne hlast with hlt | hgt
  · rw [getElem?_append_left hlt]
  · rw [getElem?_eq_none hgt.le, getElem?_eq_none (by rw [length_append]; exact hgt)]

theorem head (h : Cells content read capacity cells) (hread : read < capacity) :
    content read = cells.head?.join := by
  have hfirst := h 0 (by omega)
  rwa [Nat.add_zero, Nat.mod_eq_of_lt hread, ← head?_eq_getElem?] at hfirst

theorem tail (h : Cells content read capacity (cell :: cells)) (hread : read < capacity)
    (hlength : cells.length < capacity) :
    Cells (update content read none) ((read + 1) % capacity) capacity cells := by
  intro k hk
  have hslot : ((read + 1) % capacity + k) % capacity = (read + (k + 1)) % capacity := by
    rw [Nat.mod_add_mod, Nat.add_assoc, Nat.add_comm 1 k]
  rw [hslot]
  rcases Nat.lt_or_ge (k + 1) capacity with hlt | hge
  · have hne : (read + (k + 1)) % capacity ≠ read := fun heq =>
      absurd (circle_inj (j := k + 1) (k := 0) read hlt (by omega)
        (by rw [heq, Nat.add_zero, Nat.mod_eq_of_lt hread])) (by omega)
    rw [update_of_ne hne, h _ hlt, getElem?_cons_succ]
  obtain rfl : capacity = k + 1 := by omega
  rw [Nat.add_mod_right, Nat.mod_eq_of_lt hread, update_self, getElem?_eq_none (by omega)]
  rfl

theorem perm (h : Cells content read capacity cells) (hlength : cells.length ≤ capacity) :
    ((range capacity).filterMap content).Perm cells.reduceOption := by
  have hcircle : (range capacity).rotate read = (range capacity).map fun k => (read + k) % capacity := by
    refine ext_getElem (by simp) fun k hk _ => ?_
    simp [getElem_rotate, Nat.add_comm]
  have hcells : (range capacity).map (fun k => content ((read + k) % capacity)) =
      cells ++ replicate (capacity - cells.length) none := by
    refine ext_getElem (by simp; omega) fun k hk _ => ?_
    have hk : k < capacity := by simpa using hk
    rw [getElem_map, getElem_range, h k hk, getElem_append]
    split
    next hlt => rw [getElem?_eq_getElem hlt, Option.join_some]
    next hge => rw [getElem?_eq_none (by omega), getElem_replicate]; rfl
  have hperm := ((rotate_perm (range capacity) read).filterMap content).symm
  rw [hcircle, filterMap_map] at hperm
  refine hperm.trans (Perm.of_eq ?_)
  calc (range capacity).filterMap (content ∘ fun k => (read + k) % capacity)
    _ = ((range capacity).map fun k => content ((read + k) % capacity)).reduceOption :=
      (filterMap_map (g := id)).symm
    _ = cells.reduceOption := by rw [hcells, reduceOption_append, reduceOption_replicate_none, append_nil]

theorem emptied (h : ∀ i < capacity, content i = none) (n : Nat) :
    Cells content read capacity (replicate n none) := by
  intro k hk
  rw [h _ (Nat.mod_lt _ (by omega)), getElem?_replicate]
  split <;> rfl

end Cells

/-- The cells from the read to the write position. -/
structure Window (buffer : Ringbuffer α) (cells : List (Option α)) : Prop where
  read_lt : buffer.read < buffer.capacity
  fits : cells.length < buffer.capacity
  write_eq : buffer.write = (buffer.read + cells.length) % buffer.capacity
  cells : Cells buffer.content buffer.read buffer.capacity cells

theorem drop_element_nocheck_eq (self : Ringbuffer α) (index : Nat) :
    self.drop_element_nocheck index = ((self.content index).toList, { self with
        content := update self.content index none
        elements_dropped := self.elements_dropped + (self.content index).toList.length }) := by
  unfold drop_element_nocheck
  cases self.content index <;> rfl

variable {self : Ringbuffer α}

theorem advance_read_eq (hread : self.read < self.capacity)
    (hempty : self.content self.read = none) :
    self.advance_read = some { self with read := (self.read + 1) % self.capacity } := by
  simp [advance_read, hempty, ← wrap_eq hread]

theorem drop_from_spec (n : Nat) (self : Ringbuffer α) (i : Nat) :
    ∃ content, self.drop_from i n = ((range' i n).filterMap self.content, { self with
          content := content
          elements_dropped := self.elements_dropped + ((range' i n).filterMap self.content).length }) ∧
      ∀ j, content j = if i ≤ j ∧ j < i + n then none else self.content j := by
  induction n generalizing self i with
  | zero => exact ⟨self.content, rfl, fun j => by rw [if_neg (by omega)]⟩
  | succ n ih =>
    obtain ⟨content, hrest, hcleared⟩ := ih (self.drop_element_nocheck i).2 (i + 1)
    have hbehind : (range' (i + 1) n).filterMap (update self.content i none) =
        (range' (i + 1) n).filterMap self.content := filterMap_congr fun j hj => by
      have := mem_range'_1.mp hj
      exact update_of_ne (by omega) _ _
    refine ⟨content, ?_, fun j => ?_⟩
    · simp only [drop_element_nocheck_eq] at hrest
      simp only [drop_from, drop_element_nocheck_eq, hrest, hbehind, range'_succ]
      cases hcell : self.content i with
      | none => simp [hcell]
      | some element => simp [hcell, Nat.add_assoc, Nat.add_comm 1]
    rw [hcleared]
    simp only [drop_element_nocheck_eq, update_apply]
    split_ifs <;> first | rfl | omega

namespace Window

variable {self : Ringbuffer α} {cell : Option α} {cells : List (Option α)}

theorem read_eq_write_iff (h : Window self cells) : self.read = self.write ↔ cells = [] := by
  rw [h.write_eq, ← length_eq_zero_iff]
  constructor
  · intro heq
    refine (circle_inj self.read h.fits (Nat.zero_lt_of_lt h.read_lt) ?_)
    rw [← heq, Nat.add_zero, Nat.mod_eq_of_lt h.read_lt]
  intro hzero
  rw [hzero, Nat.add_zero, Nat.mod_eq_of_lt h.read_lt]

theorem occupied_perm (h : Window self cells) : self.occupied.Perm cells.reduceOption :=
  h.cells.perm h.fits.le

theorem write_lt (h : Window self cells) : self.write < self.capacity :=
  h.write_eq ▸ Nat.mod_lt _ (Nat.zero_lt_of_lt h.read_lt)

theorem next_write (h : Window self cells) :
    (self.write + 1) % self.capacity = (self.read + (cells.length + 1)) % self.capacity := by
  rw [h.write_eq, Nat.mod_add_mod, Nat.add_assoc]

theorem pop (h : Window self (cell :: cells)) : ∃ last, self.pop = some (⟨cell.isSome, cell, []⟩, last) ∧
    Window last cells ∧ last.capacity = self.capacity ∧ last.elements_inserted = self.elements_inserted ∧
    last.elements_dropped = self.elements_dropped := by
  have hne : self.read ≠ self.write := fun heq => absurd (h.read_eq_write_iff.mp heq) (cons_ne_nil _ _)
  have hfirst : self.content self.read = cell := by rw [h.cells.head h.read_lt]; rfl
  refine ⟨{ self with
    content := update self.content self.read none
    read := (self.read + 1) % self.capacity }, ?_, ⟨?_, ?_, ?_, ?_⟩, rfl, rfl, rfl⟩
  · have hadvance : ({ self with content := update self.content self.read none } : Ringbuffer α).advance_read =
        some { self with
          content := update self.content self.read none
          read := (self.read + 1) % self.capacity } :=
      advance_read_eq h.read_lt (update_self ..)
    rw [Ringbuffer.pop, if_neg hne, hadvance, hfirst]
    rfl
  · exact Nat.mod_lt _ (Nat.zero_lt_of_lt h.read_lt)
  · exact Nat.lt_of_succ_lt h.fits
  · simp [h.write_eq, Nat.add_assoc, Nat.add_comm 1]
  · exact h.cells.tail h.read_lt (Nat.lt_of_succ_lt h.fits)

theorem pop_nil (h : Window self []) : self.pop = some (⟨false, none, []⟩, self) := by
  rw [Ringbuffer.pop, if_pos (h.read_eq_write_iff.mpr rfl)]

theorem insert_eq (h : Window self cells) (hcapacity : 1 < self.capacity) (element : α) :
    self.insert (some element) =
      (advance_write { self with content := update self.content self.write (some element) }).map
        fun (freed, last) => (⟨true, none, freed⟩, { last with elements_inserted := last.elements_inserted + 1 }) := by
  have hopen : self.content self.write = none := by
    rw [h.write_eq, h.cells _ h.fits, getElem?_eq_none le_rfl]
    rfl
  simp only [Ringbuffer.insert, hcapacity, guard_true, hopen, Option.isNone_none]
  cases advance_write _ <;> rfl

theorem insert_room (h : Window self cells) (hcapacity : 1 < self.capacity) (element : α)
    (hroom : cells.length + 1 < self.capacity) : ∃ last, self.insert (some element) = some (⟨true, none, []⟩, last) ∧
    Window last (cells ++ [some element]) ∧ last.capacity = self.capacity ∧
    last.elements_inserted = self.elements_inserted + 1 ∧ last.elements_dropped = self.elements_dropped := by
  have hcells := h.cells.push (some element) h.fits
  rw [← h.write_eq] at hcells
  have hopen := hcells (cells.length + 1) hroom
  rw [getElem?_eq_none (by simp), ← h.next_write] at hopen
  have hne : (self.write + 1) % self.capacity ≠ self.read := fun heq =>
    absurd (circle_inj self.read hroom (Nat.zero_lt_of_lt h.read_lt) (by
      rw [← h.next_write, heq, Nat.add_zero, Nat.mod_eq_of_lt h.read_lt])) (by omega)
  refine ⟨{ self with
    content := update self.content self.write (some element)
    write := (self.write + 1) % self.capacity
    elements_inserted := self.elements_inserted + 1 }, ?_, ⟨h.read_lt, ?_, ?_, hcells⟩, rfl, rfl, rfl⟩
  · have hsame : update (update self.content self.write (some element))
        ((self.write + 1) % self.capacity) none = update self.content self.write (some element) :=
      Function.update_eq_self_iff.mpr hopen.symm
    rw [h.insert_eq hcapacity, advance_write]
    simp [wrap_eq h.write_lt, drop_element_nocheck_eq, hopen, hne, hsame]
  · simpa using hroom
  · rw [h.next_write, length_append, length_singleton]

theorem insert_full (h : Window self (cell :: cells)) (hcapacity : 1 < self.capacity) (element : α)
    (hfull : cells.length + 2 = self.capacity) :
    ∃ last, self.insert (some element) = some (⟨true, none, cell.toList⟩, last) ∧
    Window last (cells ++ [some element]) ∧ last.capacity = self.capacity ∧
    last.elements_inserted = self.elements_inserted + 1 ∧
    last.elements_dropped = self.elements_dropped + cell.toList.length := by
  have hcells := h.cells.push (some element) h.fits
  rw [← h.write_eq, cons_append] at hcells
  have hround : (self.write + 1) % self.capacity = self.read := by
    rw [h.next_write, length_cons, hfull, Nat.add_mod_right, Nat.mod_eq_of_lt h.read_lt]
  have hfirst := hcells.head h.read_lt
  rw [head?_cons, Option.join_some] at hfirst
  have hnext : (self.read + 1) % self.capacity ≠ self.read := fun heq =>
    absurd (circle_inj self.read hcapacity (Nat.zero_lt_of_lt h.read_lt) (by
      rw [heq, Nat.add_zero, Nat.mod_eq_of_lt h.read_lt])) (by omega)
  refine ⟨{ self with
    content := update (update self.content self.write (some element)) self.read none
    write := self.read
    read := (self.read + 1) % self.capacity
    elements_inserted := self.elements_inserted + 1
    elements_dropped := self.elements_dropped + cell.toList.length }, ?_, ⟨?_, ?_, ?_, ?_⟩, rfl, rfl, rfl⟩
  · rw [h.insert_eq hcapacity, advance_write]
    simp [wrap_eq h.write_lt, hround, drop_element_nocheck_eq, hfirst, advance_read_eq, h.read_lt, hnext.symm]
  · exact Nat.mod_lt _ (Nat.zero_lt_of_lt h.read_lt)
  · simp only [length_append, length_singleton]
    omega
  · rw [length_append, length_singleton, Nat.mod_add_mod, Nat.add_assoc, Nat.add_comm 1, Nat.add_assoc, hfull,
      Nat.add_mod_right, Nat.mod_eq_of_lt h.read_lt]
  refine hcells.tail h.read_lt ?_
  simp only [length_append, length_singleton]
  omega

end Window

theorem clear_spec (hcapacity : 1 < self.capacity) : ∃ last,
    self.clear = some (⟨true, none, self.occupied⟩, last) ∧ (∀ i < self.capacity, last.content i = none) ∧
    last.capacity = self.capacity ∧ last.read = self.read ∧ last.write = self.write ∧
    last.elements_inserted = self.elements_inserted ∧
    last.elements_dropped = self.elements_dropped + self.occupied.length := by
  obtain ⟨content, hdrop, hcleared⟩ := drop_from_spec self.capacity self 0
  rw [← range_eq_range'] at hdrop
  refine ⟨{ self with content := content, elements_dropped := self.elements_dropped + self.occupied.length },
    ?_, fun i hi => ?_, rfl, rfl, rfl, rfl, rfl⟩
  · simp only [clear, hcapacity, guard_true, hdrop]
    rfl
  · exact (hcleared i).trans (if_pos ⟨Nat.zero_le i, by omega⟩)

theorem window_of_empty (hread : self.read < self.capacity) (hwrite : self.write < self.capacity)
    (hempty : ∀ i < self.capacity, self.content i = none) : ∃ gap, Window self (replicate gap none) := by
  rcases Nat.lt_or_ge self.write self.read with hlt | hle
  · refine ⟨self.write + self.capacity - self.read, hread, ?_, ?_, Cells.emptied hempty _⟩
    · rw [length_replicate]
      omega
    rw [length_replicate, show self.read + (self.write + self.capacity - self.read) = self.write + self.capacity by
      omega, Nat.add_mod_right, Nat.mod_eq_of_lt hwrite]
  refine ⟨self.write - self.read, hread, ?_, ?_, Cells.emptied hempty _⟩
  · rw [length_replicate]
    omega
  · rw [length_replicate, Nat.add_sub_cancel' hle, Nat.mod_eq_of_lt hwrite]

/-- The buffer holds the queue behind cells that were cleared. -/
structure Stands (buffer : Ringbuffer α) (q : Queue α) : Prop where
  capacity_eq : buffer.capacity = q.capacity + 1
  positive : 0 < q.capacity
  window : ∃ gap, Window buffer (replicate gap none ++ q.held.map some)

/-- Every inserted element was dropped or returned or is held. -/
def Counted (self : Ringbuffer α) (q : Queue α) (returned : Nat) : Prop :=
  self.elements_inserted = self.elements_dropped + returned + q.held.length

section steps

variable {self last : Ringbuffer α} {q : Queue α} {returned : Nat}

theorem Stands.occupied_perm (h : Stands self q) : self.occupied.Perm q.held := by
  obtain ⟨gap, hwindow⟩ := h.window
  have hsome : (q.held.map some).reduceOption = q.held := filterMap_map.trans filterMap_some
  have hperm := hwindow.occupied_perm
  rwa [reduceOption_append, reduceOption_replicate_none, nil_append, hsome] at hperm

theorem stands_of_empty {capacity : Nat} (hcapacity : last.capacity = capacity + 1) (hpositive : 0 < capacity)
    (hread : last.read < last.capacity) (hwrite : last.write < last.capacity)
    (hempty : ∀ i < last.capacity, last.content i = none) : Stands last ⟨capacity, []⟩ := by
  obtain ⟨gap, hwindow⟩ := window_of_empty hread hwrite hempty
  exact ⟨hcapacity, hpositive, gap, by rwa [map_nil, append_nil]⟩

section

variable (h : Stands self q)

include h

theorem Stands.insert (hcount : Counted self q returned) (element : α) :
    ∃ answer last, self.insert (some element) = some (answer, last) ∧
      answer.Agrees (q.step (.insert (some element))).1 ∧ Stands last (q.step (.insert (some element))).2 ∧
      Counted last (q.step (.insert (some element))).2 (returned + answer.element.toList.length) := by
  obtain ⟨gap, hwindow⟩ := h.window
  have hcapacity : 1 < self.capacity := h.capacity_eq ▸ Nat.succ_lt_succ h.positive
  have hfits := hwindow.fits
  simp only [h.capacity_eq, length_append, length_replicate, length_map] at hfits
  unfold Counted at hcount ⊢
  by_cases hfull : q.held.length = q.capacity
  · -- nothing was cleared: the queue is full, and its oldest element gives way
    obtain rfl : gap = 0 := by omega
    obtain ⟨oldest, held, hheld⟩ := exists_cons_of_length_pos (l := q.held) (by have := h.positive; omega)
    have hqueue : q.step (.insert (some element)) =
        (⟨true, none, [oldest]⟩, { q with held := held ++ [element] }) := by
      rw [Queue.step, if_neg (by omega), hheld]
      rfl
    rw [hheld, replicate_zero, nil_append, map_cons] at hwindow
    rw [hheld, length_cons] at hcount hfull
    obtain ⟨last, hinsert, hlast, hcap, hins, hdrop⟩ := hwindow.insert_full hcapacity element (by
      rw [h.capacity_eq, length_map]
      omega)
    rw [hqueue]
    refine ⟨_, last, hinsert, ⟨rfl, rfl, .refl _⟩, ⟨hcap.trans h.capacity_eq, h.positive, 0, ?_⟩, ?_⟩
    · rwa [replicate_zero, nil_append, map_append]
    simp only [length_append, Option.toList_none, Option.toList_some, length_nil, length_singleton] at hdrop ⊢
    omega
  -- the new cell is put behind, or comes in the place of a cleared one
  obtain ⟨last, hinsert, ⟨gap', hlast⟩, hcap, hins, hdrop⟩ : ∃ last,
      self.insert (some element) = some (⟨true, none, []⟩, last) ∧
      (∃ gap, Window last (replicate gap none ++ q.held.map some ++ [some element])) ∧
      last.capacity = self.capacity ∧ last.elements_inserted = self.elements_inserted + 1 ∧
      last.elements_dropped = self.elements_dropped := by
    rcases Nat.lt_or_ge (gap + q.held.length) q.capacity with hroom | hround
    · obtain ⟨last, hinsert, hlast, hrest⟩ := hwindow.insert_room hcapacity element (by
        simp only [h.capacity_eq, length_append, length_replicate, length_map]
        omega)
      exact ⟨last, hinsert, ⟨gap, hlast⟩, hrest⟩
    obtain ⟨gap, rfl⟩ : ∃ k, gap = k + 1 := Nat.exists_eq_succ_of_ne_zero (by omega)
    rw [replicate_succ, cons_append] at hwindow
    obtain ⟨last, hinsert, hlast, hrest⟩ := hwindow.insert_full hcapacity element (by
      simp only [h.capacity_eq, length_append, length_replicate, length_map]
      omega)
    exact ⟨last, hinsert, ⟨gap, hlast⟩, hrest⟩
  have hqueue : q.step (.insert (some element)) = (⟨true, none, []⟩, { q with held := q.held ++ [element] }) :=
    if_pos (by omega)
  rw [hqueue]
  refine ⟨_, last, hinsert, ⟨rfl, rfl, .refl _⟩, ⟨hcap.trans h.capacity_eq, h.positive, gap', ?_⟩, ?_⟩
  · rwa [map_append, ← append_assoc]
  simp only [length_append, length_singleton, Option.toList_none, length_nil]
  omega

theorem Stands.clear (hcount : Counted self q returned) :
    ∃ answer last, self.clear = some (answer, last) ∧ answer.Agrees ⟨true, none, q.held⟩ ∧ answer.element = none ∧
      last.capacity = q.capacity + 1 ∧ last.read < last.capacity ∧ last.write < last.capacity ∧
      (∀ i < last.capacity, last.content i = none) ∧ last.elements_inserted = last.elements_dropped + returned := by
  obtain ⟨gap, hwindow⟩ := h.window
  obtain ⟨last, hclear, hempty, hcap, hread, hwrite, hins, hdrop⟩ :=
    clear_spec (show 1 < self.capacity from h.capacity_eq ▸ Nat.succ_lt_succ h.positive)
  refine ⟨_, last, hclear, ⟨rfl, rfl, h.occupied_perm⟩, rfl, hcap.trans h.capacity_eq, ?_, ?_, ?_, ?_⟩
  · rw [hread, hcap]
    exact hwindow.read_lt
  · rw [hwrite, hcap]
    exact hwindow.write_lt
  · rwa [hcap]
  rw [hins, hdrop, h.occupied_perm.length_eq, show self.elements_inserted = _ from hcount]
  omega

theorem Stands.reuse (hcount : Counted self q returned) (capacity : Nat) :
    ∃ answer last, self.step (.reuse capacity) = some (answer, last) ∧
      answer.Agrees (q.step (.reuse capacity)).1 ∧ answer.element = none ∧
      Stands last (q.step (.reuse capacity)).2 ∧ Counted last (q.step (.reuse capacity)).2 returned := by
  obtain ⟨answer, cleared, hclear, hanswer, helement, hcap, hread, hwrite, hempty, hbalance⟩ := h.clear hcount
  have hpositive := h.positive
  rcases Nat.lt_or_ge q.capacity capacity with hgrow | hkeep
  · refine ⟨answer, { cleared with capacity := 1 + capacity, content := fun _ => none }, ?_, hanswer, helement,
      stands_of_empty ?_ ?_ ?_ ?_ fun _ _ => rfl, hbalance⟩
    · rw [step, hclear]
      simp [create, hcap, hgrow]
    · simp only [Nat.max_eq_right hgrow.le, Nat.add_comm]
    · exact lt_max_of_lt_left hpositive
    · simp only
      omega
    simp only
    omega
  refine ⟨answer, cleared, ?_, hanswer, helement, stands_of_empty ?_ ?_ hread hwrite hempty, hbalance⟩
  · rw [step, hclear]
    simp [create, hcap, Nat.not_lt.mpr hkeep]
  · rw [hcap, Nat.max_eq_left hkeep]
  · exact lt_max_of_lt_left hpositive

theorem Stands.pop (hcount : Counted self q returned) (hfinds : self.Finds .pop) :
    ∃ answer last, self.pop = some (answer, last) ∧ answer.Agrees (q.step .pop).1 ∧ Stands last (q.step .pop).2 ∧
      Counted last (q.step .pop).2 (returned + answer.element.toList.length) := by
  obtain ⟨gap, hwindow⟩ := h.window
  unfold Counted at hcount ⊢
  cases gap with
  | succ gap =>
    rw [replicate_succ, cons_append] at hwindow
    have hne : self.read ≠ self.write := fun heq => absurd (hwindow.read_eq_write_iff.mp heq) (cons_ne_nil _ _)
    have hheld : q.held = [] := (hfinds hne (hwindow.cells.head hwindow.read_lt) ▸ h.occupied_perm).nil_eq.symm
    obtain ⟨last, hpop, hlast, hcap, hins, hdrop⟩ := hwindow.pop
    refine ⟨_, last, hpop, ?_, ⟨hcap.trans h.capacity_eq, h.positive, gap, ?_⟩, ?_⟩
    · rw [Queue.step, hheld]
      exact ⟨rfl, rfl, .refl _⟩
    · rw [Queue.step, hheld]
      rwa [hheld] at hlast
    simp only [Queue.step, hheld, tail_nil, Option.toList_none, length_nil] at hcount ⊢
    omega
  | zero =>
    rw [replicate_zero, nil_append] at hwindow
    cases hheld : q.held with
    | nil =>
      rw [hheld] at hwindow
      refine ⟨_, self, hwindow.pop_nil, ?_, ⟨h.capacity_eq, h.positive, 0, ?_⟩, ?_⟩
      · rw [Queue.step, hheld]
        exact ⟨rfl, rfl, .refl _⟩
      · rw [Queue.step, hheld]
        exact hwindow
      simp only [Queue.step, hheld, tail_nil, Option.toList_none, length_nil] at hcount ⊢
      omega
    | cons oldest held =>
      rw [hheld, map_cons] at hwindow
      obtain ⟨last, hpop, hlast, hcap, hins, hdrop⟩ := hwindow.pop
      refine ⟨_, last, hpop, ?_, ⟨hcap.trans h.capacity_eq, h.positive, 0, ?_⟩, ?_⟩
      · rw [Queue.step, hheld]
        exact ⟨rfl, rfl, .refl _⟩
      · rw [Queue.step, hheld]
        exact hlast
      simp only [Queue.step, hheld, tail_cons, length_cons, Option.toList_some, length_nil] at hcount ⊢
      omega

theorem Stands.pop_misses (hmiss : ¬ self.Finds .pop) :
    ∃ answer last, self.pop = some (answer, last) ∧ ¬ answer.Agrees (q.step .pop).1 := by
  simp only [Finds, Classical.not_imp] at hmiss
  obtain ⟨hne, hempty, hheld⟩ := hmiss
  obtain ⟨gap, hwindow⟩ := h.window
  obtain ⟨cell, cells, hcells⟩ := exists_cons_of_ne_nil fun heq => hne (hwindow.read_eq_write_iff.mpr heq)
  rw [hcells] at hwindow
  have hcell : none = cell := hempty.symm.trans (hwindow.cells.head hwindow.read_lt)
  obtain ⟨last, hpop, -⟩ := hwindow.pop
  refine ⟨_, last, hpop, fun hagrees => hheld ?_⟩
  have hnone : q.held.head? = none := hagrees.2.1.symm.trans hcell.symm
  exact (head?_eq_none_iff.mp hnone ▸ h.occupied_perm).eq_nil

theorem Stands.step (hcount : Counted self q returned) {call : Call α}
    (hfinds : self.Finds call) : ∃ answer last, self.step call = some (answer, last) ∧
      answer.Agrees (q.step call).1 ∧ Stands last (q.step call).2 ∧
      Counted last (q.step call).2 (returned + answer.element.toList.length) := by
  match call with
  | .insert none => exact ⟨_, self, rfl, ⟨rfl, rfl, .refl _⟩, h, hcount⟩
  | .insert (some element) => exact h.insert hcount element
  | .pop => exact h.pop hcount hfinds
  | .clear =>
    obtain ⟨answer, last, hclear, hanswer, helement, hcap, hread, hwrite, hempty, hbalance⟩ := h.clear hcount
    refine ⟨answer, last, hclear, hanswer, stands_of_empty hcap h.positive hread hwrite hempty, ?_⟩
    rw [helement]
    exact hbalance
  | .reuse capacity =>
    obtain ⟨answer, last, hreuse, hanswer, helement, hlast, hbalance⟩ := h.reuse hcount capacity
    exact ⟨answer, last, hreuse, hanswer, hlast, by rwa [helement]⟩

end

end steps

/-- The state behind a call. -/
def next (call : Call α) (self : Ringbuffer α) : Option (Ringbuffer α) := (self.step call).map Prod.snd

theorem follows_from_iff (calls : List (Call α)) {q : Queue α} {returned : Nat}
    (h : Stands self q) (hcount : Counted self q returned) :
    (∃ answers last, self.run calls = some (answers, last) ∧ Forall₂ Answer.Agrees answers (q.run calls) ∧
      last.elements_inserted =
        last.elements_dropped + (returned + (answers.filterMap Answer.element).length) + last.occupied.length) ↔
      machine.along next Finds calls self := by
  induction calls generalizing self q returned with
  | nil =>
    refine iff_of_true ⟨[], self, rfl, .nil, ?_⟩ trivial
    rw [h.occupied_perm.length_eq]
    exact hcount
  | cons call calls ih =>
    by_cases hfinds : self.Finds call
    · obtain ⟨answer, mid, hstep, hanswer, hmid, hcountmid⟩ := h.step hcount hfinds
      have hlength (answers : List (Answer α)) : ((answer :: answers).filterMap Answer.element).length =
          answer.element.toList.length + (answers.filterMap Answer.element).length := by
        rw [filterMap_cons]
        cases answer.element <;> simp [Nat.add_comm]
      have hrest := ih hmid hcountmid
      simp only [machine.along, hfinds, next, hstep, Option.map_some, Option.some.injEq, forall_eq', true_and, ← hrest]
      simp only [run, hstep, Option.bind_eq_bind, Option.bind_some, Option.bind_eq_some_iff, Prod.exists,
        Option.some.injEq, Prod.mk.injEq, Queue.run]
      constructor
      · rintro ⟨_, last, ⟨answers, _, hrun, rfl, rfl⟩, hagrees, hbalance⟩
        refine ⟨answers, _, hrun, (forall₂_cons.mp hagrees).2, ?_⟩
        rwa [hlength, ← Nat.add_assoc returned] at hbalance
      rintro ⟨answers, last, hrun, hagrees, hbalance⟩
      refine ⟨_, last, ⟨answers, last, hrun, rfl, rfl⟩, .cons hanswer hagrees, ?_⟩
      rwa [hlength, ← Nat.add_assoc returned]
    refine iff_of_false ?_ fun halong => hfinds halong.1
    rintro ⟨_, last, hrun, hagrees, -⟩
    obtain rfl : call = .pop := by cases call <;> first | rfl | exact absurd trivial hfinds
    obtain ⟨answer, mid, hstep, hmiss⟩ := h.pop_misses hfinds
    simp only [run, step, hstep, Option.bind_eq_bind, Option.bind_some, Option.bind_eq_some_iff, Prod.exists,
      Option.some.injEq, Prod.mk.injEq] at hrun
    obtain ⟨answers, _, -, rfl, -⟩ := hrun
    exact hmiss (forall₂_cons.mp hagrees).1

/-- A new buffer answers like the queue exactly as long as no element is asked for at an emptied slot. -/
theorem follows_iff {capacity : Nat} {self : Ringbuffer α} (hnew : create none capacity = some self)
    (calls : List (Call α)) : Follows calls self ⟨capacity, []⟩ ↔ machine.along next Finds calls self := by
  have hpositive : 0 < capacity := Nat.pos_of_ne_zero fun hzero => by simp [create, new_buffer_create, hzero] at hnew
  obtain rfl : ⟨1 + capacity, 0, 0, fun _ => none, 0, 0⟩ = self := by
    simpa [create, new_buffer_create, hpositive.ne', Nat.add_comm] using hnew
  have hstands : Stands (⟨1 + capacity, 0, 0, fun _ => none, 0, 0⟩ : Ringbuffer α) ⟨capacity, []⟩ :=
    stands_of_empty (Nat.add_comm ..) hpositive (Nat.lt_add_right _ Nat.one_pos) (Nat.lt_add_right _ Nat.one_pos)
      fun _ _ => rfl
  have hiff := follows_from_iff calls hstands (show Counted _ _ 0 from rfl)
  simpa only [Follows, Nat.zero_add] using hiff

/-- Two inserts and two calls of `pop`, with a new buffer of two elements. -/
theorem follows_iff_two : Follows [.insert (some 1), .pop] (⟨3, 0, 0, fun _ => none, 0, 0⟩ : Ringbuffer Nat) ⟨2, []⟩ ↔
    machine.along next Finds [.insert (some 1), .pop] (⟨3, 0, 0, fun _ => none, 0, 0⟩ : Ringbuffer Nat) :=
  follows_iff rfl _

/-- One element inserted, cleared and a second one inserted: the second one is held and not given out. -/
theorem cleared_buffer_misses : ∃ self answers last, create (none : Option (Ringbuffer Nat)) 2 = some self ∧
    self.run [.insert (some 1), .clear, .insert (some 2), .pop] = some (answers, last) ∧ last.occupied = [2] ∧
    ¬ Follows [.insert (some 1), .clear, .insert (some 2), .pop] self ⟨2, []⟩ := by
  refine ⟨_, _, _, rfl, rfl, rfl, ?_⟩
  rintro ⟨answers, last, hrun, hagrees, -⟩
  obtain rfl : _ = answers := congrArg Prod.fst (Option.some.inj hrun)
  simp [Answer.Agrees, Queue.run, Queue.step] at hagrees

end Ringbuffer

end openvocs
