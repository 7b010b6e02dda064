import Openvocs.Lib.Bytes
import Openvocs.Lib.Fifo

open List Option

namespace openvocs.chunker

/-- `ov_buffer`: what lies in memory from `start` on, `capacity` octets, and how many are in use. -/
structure Buffer where
  start : List Byte
  length : Nat
  length_le : length ≤ start.length

namespace Buffer

def capacity (b : Buffer) : Nat := b.start.length

/-- The octets in use. -/
def data (b : Buffer) : List Byte := b.start.take b.length

/-- `start` as a pointer, with the memory behind it. It is missing where nothing was allocated. -/
def pointer (b : Buffer) : Option (List Byte) := if b.start = [] then none else some b.start

theorem length_data (b : Buffer) : b.data.length = b.length := length_take_of_le b.length_le

end Buffer

/-- What is answered when memory for a buffer is asked for: a buffer out of the cache, if it has
one, and whether `calloc` succeeds. -/
structure Grant where
  cached : Option Buffer
  memory : Bool

def size_max : Nat := 2 ^ 64 - 1

/-- `adapt_size_nocheck`, on a buffer without octets in use. -/
def adapt_size_nocheck (start : List Byte) (size : Nat) (memory : Bool) : Option Buffer :=
  if size < 1 then none
  else if size ≤ start.length then some ⟨start, 0, Nat.zero_le _⟩
  else if size = size_max || !memory then none
  else some ⟨List.replicate size 0, 0, Nat.zero_le _⟩

/-- `ov_buffer_create`. Its assertions end the program when there is no memory. -/
def buffer_create (grant : Grant) (min_size : Nat) : Option Buffer :=
  if min_size = 0 then some ⟨[], 0, Nat.le.refl⟩
  else adapt_size_nocheck ((grant.cached.map Buffer.start).getD []) min_size grant.memory

variable {grant : Grant}

theorem capacity_of_create {size : Nat} {b : Buffer} (h : buffer_create grant size = some b) :
    size ≤ b.start.length := by
  rw [buffer_create, adapt_size_nocheck] at h
  split_ifs at h with hzero hsmall hfits hnone
  · rw [hzero]
    exact Nat.zero_le _
  · rw [← some.inj h]
    exact hfits
  rw [← some.inj h]
  exact (length_replicate ..).ge

theorem create_defined {size : Nat} (hmemory : grant.memory = true) (hsize : size < size_max) :
    (buffer_create grant size).isSome = true := by
  have hmax : size ≠ size_max := hsize.ne
  rw [buffer_create, adapt_size_nocheck]
  split_ifs with hzero hsmall hfits hnone
  · rfl
  · exact absurd hsmall (by omega)
  · rfl
  · simp [hmax, hmemory] at hnone
  · rfl

/-- `ov_chunker`, with its read pointer as an index of the buffer. -/
structure Chunker where
  buffer : Buffer
  read_ptr : Nat
  read_ptr_le : read_ptr ≤ buffer.length
  allocated : buffer.start ≠ []

def create (grant : Grant) : Option Chunker :=
  match h : buffer_create grant 1 with
  | none => none
  | some buffer => some ⟨buffer, 0, Nat.zero_le _, ne_nil_of_length_pos (capacity_of_create h)⟩

def append_to_buffer (target ext : Buffer) : Option Buffer :=
  if h : ext.length < target.capacity - target.length then
    some {
      start := bytes.overwrite target.start target.length ext.data
      length := target.length + ext.length
      length_le := by
        have hlength := bytes.length_le_overwrite target.start target.length ext.data
        rw [Buffer.capacity] at h
        omega }
  else none

/-- The capacity that `merge_data` asks for. -/
def required_len (b1len b1capacity b2len : Nat) : Nat :=
  if b1capacity < b1len + b2len then b1len + 3 * b2len else b1len + b2len

theorem le_required_len (b1len b1capacity b2len : Nat) : b1len + b2len ≤ required_len b1len b1capacity b2len := by
  rw [required_len]
  split <;> omega

/-- `merge_data`, for what is behind two pointers. It yields no buffer where a pointer is missing,
and nothing at all where an assertion fails. -/
def merge_data (b1 : Option (List Byte)) (b1len b1capacity : Nat) (b2 : Option (List Byte)) (b2len : Nat)
    (grant : Grant) : Option (Option Buffer) :=
  match b1, b2 with
  | some b1, some b2 =>
    match h : buffer_create grant (required_len b1len b1capacity b2len) with
    | none => none
    | some merged => some (some {
        start := bytes.overwrite (bytes.overwrite merged.start 0 (b1.take b1len)) b1len (b2.take b2len)
        length := b1len + b2len
        length_le :=
          ((le_required_len b1len b1capacity b2len).trans (capacity_of_create h)).trans
            ((bytes.length_le_overwrite _ _ _).trans (bytes.length_le_overwrite _ _ _)) })
  | _, _ => some none

namespace Chunker

def available_octets (self : Chunker) : Nat := self.buffer.length - self.read_ptr

/-- What is behind the read pointer. -/
def unread (self : Chunker) : Option (List Byte) := self.buffer.pointer.map (List.drop self.read_ptr)

/-- A chunker that reads a buffer from its begin on. -/
def of_buffer (buffer : Buffer) (h : 0 < buffer.length) : Chunker where
  buffer := buffer
  read_ptr := 0
  read_ptr_le := Nat.zero_le _
  allocated := ne_nil_of_length_pos (h.trans_le buffer.length_le)

end Chunker

theorem append_keeps {target ext buffer : Buffer} (h : append_to_buffer target ext = some buffer) :
    target.length ≤ buffer.length ∧ (target.start ≠ [] → buffer.start ≠ []) := by
  rw [append_to_buffer] at h
  split_ifs at h
  rw [← some.inj h]
  refine ⟨Nat.le_add_right _ _, fun hne => ne_nil_of_length_pos ?_⟩
  exact (length_pos_iff.mpr hne).trans_le (bytes.length_le_overwrite _ _ _)

theorem length_of_merge {b1 b2 : Option (List Byte)} {b1len b1capacity b2len : Nat} {merged : Buffer}
    (h : merge_data b1 b1len b1capacity b2 b2len grant = some (some merged)) : merged.length = b1len + b2len := by
  unfold merge_data at h
  split at h
  · split at h
    · cases h
    · rw [← some.inj (some.inj h)]
  · cases h

def add (self : Chunker) (data : Option Buffer) (grant : Grant) : Option (Chunker × Bool) :=
  match data with
  | none => some (self, false)
  | some data =>
    if hzero : data.length = 0 then some (self, true)
    else
      match happend : append_to_buffer self.buffer data with
      | some buffer => some ({
          buffer := buffer
          read_ptr := self.read_ptr
          read_ptr_le := self.read_ptr_le.trans (append_keeps happend).1
          allocated := (append_keeps happend).2 self.allocated }, true)
      | none =>
        match hmerge :
          merge_data self.unread self.available_octets self.buffer.capacity data.pointer data.length grant with
        | none => none
        | some none => some (self, false)
        | some (some merged) => some (.of_buffer merged (by rw [length_of_merge hmerge]; omega), true)

/-- `ov_chunker_next_chunk_preview`: the place of the octets in the buffer. -/
def next_chunk_preview (self : Chunker) (num_octets : Nat) : Option Nat :=
  if 0 < num_octets ∧ num_octets ≤ self.available_octets then some self.read_ptr else none

/-- `ov_chunker_next_chunk_raw`, with the memory of the caller that `dest` points to. -/
def next_chunk_raw (self : Chunker) (num_octets : Nat) (dest : Option (List Byte)) :
    Chunker × Option (List Byte) × Bool :=
  match dest with
  | none => (self, none, false)
  | some memory =>
    if h : 0 < num_octets ∧ num_octets ≤ self.available_octets then
      ({ self with
          read_ptr := self.read_ptr + num_octets
          read_ptr_le := by
            have hle := self.read_ptr_le
            have hn := h.2
            rw [Chunker.available_octets] at hn
            omega },
        some (bytes.overwrite memory 0 ((self.buffer.start.drop self.read_ptr).take num_octets)), true)
    else (self, some memory, false)

theorem length_dest (self : Chunker) (num_octets : Nat) {memory written : List Byte}
    (h : (next_chunk_raw self num_octets (some memory)).2.1 = some written) : memory.length ≤ written.length := by
  simp only [next_chunk_raw] at h
  split at h
  · rw [← some.inj h]
    exact bytes.length_le_overwrite _ _ _
  · rw [← some.inj h]

theorem length_of_raw {self after : Chunker} {num_octets : Nat} {data : Buffer} {start : List Byte}
    (h : next_chunk_raw self num_octets data.pointer = (after, some start, true)) :
    data.start.length ≤ start.length := by
  rw [Buffer.pointer] at h
  split at h
  · cases h
  · exact length_dest self num_octets (by rw [h])

def next_chunk (self : Chunker) (num_octets : Nat) (grant : Grant) : Option (Chunker × Option Buffer) :=
  match hdata : buffer_create grant num_octets with
  | none => none
  | some data =>
    match hraw : next_chunk_raw self num_octets data.pointer with
    | (after, some start, true) => some (after, some {
        start := start
        length := num_octets
        length_le := (capacity_of_create hdata).trans (length_of_raw hraw) })
    | (after, _, _) => some (after, none)

def remainder (self : Chunker) (grant : Grant) : Option (Chunker × Option Buffer) :=
  next_chunk self self.available_octets grant

inductive Call where
  | add (data : Option Buffer) (grant : Grant)
  | next_chunk_preview (num_octets : Nat)
  | next_chunk_raw (num_octets : Nat) (dest : Option (List Byte))
  | next_chunk (num_octets : Nat) (grant : Grant)
  | remainder (grant : Grant)

/-- A call, with the octets that the caller finds behind what is returned. A call that fails
gives none; `ov_chunker_add` gives no octets when it succeeds. -/
def perform (call : Call) (c : Chunker) : Option (Chunker × Option (List Byte)) :=
  match call with
  | .add data grant => (add c data grant).map fun (after, ok) => (after, if ok then some [] else none)
  | .next_chunk_preview n => some (c, (next_chunk_preview c n).map fun place => (c.buffer.start.drop place).take n)
  | .next_chunk_raw n dest =>
    match next_chunk_raw c n dest with
    | (after, written, ok) => some (after, if ok then written.map (List.take n) else none)
  | .next_chunk n grant => (next_chunk c n grant).map fun (after, chunk) => (after, chunk.map Buffer.data)
  | .remainder grant => (remainder c grant).map fun (after, chunk) => (after, chunk.map Buffer.data)

def step (call : Call) (c : Chunker) : Option Chunker := (perform call c).map Prod.fst

namespace Call

/-- The number of octets that a call requests from the chunker. -/
def requested (c : Chunker) : Call → Option Nat
  | .add .. => none
  | .next_chunk_preview _ => none
  | .next_chunk_raw n dest => if dest.isSome then some n else none
  | .next_chunk n _ => some n
  | .remainder _ => some c.available_octets

/-- The octets that come in with a call. -/
def added : Call → Chunker → List Byte
  | .add (some data) _, _ => data.data
  | _, _ => []

/-- The octets that a call hands out. -/
def handed (call : Call) (c : Chunker) : List Byte :=
  match call.requested c with
  | none => []
  | some _ => ((perform call c).bind Prod.snd).getD []

/-- A call that is not ended by an assertion: there is memory, and its size can be stated. -/
def granted (c : Chunker) : Call → Prop
  | .add none _ => True
  | .add (some data) grant => grant.memory = true ∧ c.available_octets + 3 * data.length < size_max
  | .next_chunk_preview _ => True
  | .next_chunk_raw _ _ => True
  | .next_chunk n grant => grant.memory = true ∧ n < size_max
  | .remainder grant => grant.memory = true ∧ c.available_octets < size_max

end Call

/-- The octets that were not read yet. -/
def Chunker.held (c : Chunker) : List Byte := c.buffer.data.drop c.read_ptr

theorem length_held (c : Chunker) : c.held.length = c.available_octets := by
  rw [Chunker.held, length_drop, c.buffer.length_data, Chunker.available_octets]

variable {n : Nat}

theorem take_start (c : Chunker) (h : n ≤ c.available_octets) :
    (c.buffer.start.drop c.read_ptr).take n = c.held.take n := by
  rw [Chunker.held, Buffer.data, drop_take, take_take, ← Chunker.available_octets, Nat.min_eq_left h]

theorem held_of_buffer {buffer : Buffer} (h : 0 < buffer.length) : (Chunker.of_buffer buffer h).held = buffer.data :=
  drop_zero

theorem pointer_of_ne {b : Buffer} (h : b.start ≠ []) : b.pointer = some b.start := if_neg h

theorem start_ne_nil {b : Buffer} (h : b.length ≠ 0) : b.start ≠ [] :=
  ne_nil_of_length_pos ((Nat.pos_of_ne_zero h).trans_le b.length_le)

theorem data_of_append {target ext buffer : Buffer} (h : append_to_buffer target ext = some buffer) :
    buffer.data = target.data ++ ext.data := by
  rw [append_to_buffer] at h
  split_ifs at h
  rw [← some.inj h, Buffer.data]
  have htake := @bytes.take_overwrite target.start ext.data target.data [] (by rw [target.length_data, Buffer.data])
  rw [List.append_nil, length_append, target.length_data, ext.length_data] at htake
  exact htake

theorem data_of_merge {b1 b2 : List Byte} {b1len b1capacity b2len : Nat} {merged : Buffer}
    (h : merge_data (some b1) b1len b1capacity (some b2) b2len grant = some (some merged))
    (h1 : b1len ≤ b1.length) (h2 : b2len ≤ b2.length) : merged.data = b1.take b1len ++ b2.take b2len := by
  unfold merge_data at h
  dsimp only at h
  split at h
  · cases h
  rename_i created _
  rw [← some.inj (some.inj h), Buffer.data]
  have hlength1 : (b1.take b1len).length = b1len := length_take_of_le h1
  have hlength2 : (b2.take b2len).length = b2len := length_take_of_le h2
  have hfront : (bytes.overwrite created.start 0 (b1.take b1len)).take (b1.take b1len).length = b1.take b1len := by
    rw [bytes.overwrite, take_zero, nil_append]
    exact take_left
  have htake := @bytes.take_overwrite _ (b2.take b2len) _ [] hfront
  rw [List.append_nil, length_append, hlength1, hlength2] at htake
  exact htake

theorem add_held {c after : Chunker} {data : Buffer} {ok : Bool}
    (h : add c (some data) grant = some (after, ok)) : ok = true ∧ after.held = c.held ++ data.data := by
  unfold add at h
  dsimp only at h
  split at h
  · rename_i hzero
    obtain ⟨rfl, rfl⟩ := Prod.mk.inj (some.inj h)
    have hnil : data.data = [] := by rw [← length_eq_zero_iff, data.length_data, hzero]
    exact ⟨rfl, by rw [hnil, List.append_nil]⟩
  rename_i hdata
  have hread : c.read_ptr ≤ c.buffer.data.length := c.read_ptr_le.trans_eq c.buffer.length_data.symm
  split at h
  · rename_i happend
    obtain ⟨rfl, rfl⟩ := Prod.mk.inj (some.inj h)
    refine ⟨rfl, ?_⟩
    rw [Chunker.held, data_of_append happend, drop_append_of_le_length hread, Chunker.held]
  have hunread : c.unread = some (c.buffer.start.drop c.read_ptr) := by
    rw [Chunker.unread, pointer_of_ne c.allocated, map_some]
  split at h
  · cases h
  · rename_i hmerge
    rw [hunread, pointer_of_ne (start_ne_nil hdata)] at hmerge
    unfold merge_data at hmerge
    dsimp only at hmerge
    split at hmerge <;> cases hmerge
  rename_i merged hmerge
  rw [hunread, pointer_of_ne (start_ne_nil hdata)] at hmerge
  obtain ⟨rfl, rfl⟩ := Prod.mk.inj (some.inj h)
  have hcapacity : c.available_octets ≤ (c.buffer.start.drop c.read_ptr).length := by
    have hlength := c.buffer.length_le
    rw [length_drop, Chunker.available_octets]
    omega
  rw [held_of_buffer, data_of_merge hmerge hcapacity data.length_le, take_start c Nat.le.refl, ← length_held,
    take_length, Buffer.data]
  exact ⟨rfl, rfl⟩

theorem raw_served (c : Chunker) (memory : List Byte) (hpos : 0 < n) (hn : n ≤ c.held.length) :
    ∃ after, next_chunk_raw c n (some memory) = (after, some (c.held.take n ++ memory.drop n), true) ∧
      after.held = c.held.drop n := by
  rw [length_held] at hn
  have hlength : (c.held.take n).length = n := length_take_of_le (by rwa [length_held])
  rw [next_chunk_raw, dif_pos ⟨hpos, hn⟩, take_start c hn, bytes.overwrite, hlength, take_zero,
    nil_append, Nat.zero_add]
  refine ⟨_, rfl, ?_⟩
  rw [Chunker.held, Chunker.held, drop_drop]

theorem raw_refused (c : Chunker) (dest : Option (List Byte)) (h : ¬ (0 < n ∧ n ≤ c.held.length)) :
    next_chunk_raw c n dest = (c, dest, false) := by
  rw [length_held] at h
  unfold next_chunk_raw
  split
  · rfl
  · rw [dif_neg h]

theorem preview_served (c : Chunker) (hpos : 0 < n) (hn : n ≤ c.held.length) :
    perform (.next_chunk_preview n) c = some (c, some (c.held.take n)) := by
  rw [length_held] at hn
  rw [perform, next_chunk_preview, if_pos ⟨hpos, hn⟩, map_some, take_start c hn]

theorem preview_refused (c : Chunker) (h : ¬ (0 < n ∧ n ≤ c.held.length)) :
    perform (.next_chunk_preview n) c = some (c, none) := by
  rw [length_held] at h
  rw [perform, next_chunk_preview, if_neg h, map_none]

theorem next_chunk_served {c after : Chunker} {chunk : Option Buffer} (hpos : 0 < n)
    (hn : n ≤ c.held.length) (h : next_chunk c n grant = some (after, chunk)) :
    chunk.map Buffer.data = some (c.held.take n) ∧ after.held = c.held.drop n := by
  unfold next_chunk at h
  split at h
  · cases h
  rename_i data hdata
  have hne : data.start ≠ [] := ne_nil_of_length_pos (hpos.trans_le (capacity_of_create hdata))
  obtain ⟨taken, htaken, hheld⟩ := raw_served c data.start hpos hn
  have hlength : (c.held.take n).length = n := length_take_of_le hn
  rw [← pointer_of_ne hne] at htaken
  split at h
  · rename_i start hraw
    obtain ⟨rfl, rfl⟩ := Prod.mk.inj (some.inj h)
    obtain ⟨rfl, hwritten⟩ := Prod.mk.inj (htaken.symm.trans hraw)
    have hstart : start = c.held.take n ++ data.start.drop n := (some.inj (Prod.mk.inj hwritten).1).symm
    refine ⟨?_, hheld⟩
    have hdata : start.take n = c.held.take n := by rw [hstart, take_left' hlength]
    exact congrArg some hdata
  rename_i hother hraw
  obtain ⟨-, hwritten⟩ := Prod.mk.inj (htaken.symm.trans hraw)
  obtain ⟨hstart, hok⟩ := Prod.mk.inj hwritten
  exact (hother _ hstart.symm hok.symm).elim

theorem next_chunk_refused {c after : Chunker} {chunk : Option Buffer}
    (hn : ¬ (0 < n ∧ n ≤ c.held.length)) (h : next_chunk c n grant = some (after, chunk)) :
    chunk = none ∧ after = c := by
  unfold next_chunk at h
  split at h
  · cases h
  rename_i data hdata
  have hrefused := raw_refused c data.pointer hn
  split at h
  · rename_i hraw
    exact absurd (congrArg (fun result => result.2.2) (hrefused.symm.trans hraw)) Bool.false_ne_true
  rename_i hraw
  obtain ⟨rfl, rfl⟩ := Prod.mk.inj (some.inj h)
  exact ⟨rfl, (Prod.mk.inj (hraw.symm.trans hrefused)).1⟩

theorem perform_requested {call : Call} {c after : Chunker} {octets : Option (List Byte)}
    (hrequested : call.requested c = some n) (h : perform call c = some (after, octets)) :
    if 0 < n ∧ n ≤ c.held.length then octets = some (c.held.take n) ∧ after.held = c.held.drop n
    else octets = none ∧ after = c := by
  have hchunk {m : Nat} {grant : Grant} (hm : m = n)
      (h : (next_chunk c m grant).map (fun result => (result.1, result.2.map Buffer.data)) = some (after, octets)) :
      if 0 < n ∧ n ≤ c.held.length then octets = some (c.held.take n) ∧ after.held = c.held.drop n
      else octets = none ∧ after = c := by
    subst hm
    obtain ⟨⟨taken, chunk⟩, hnext, heq⟩ := map_eq_some_iff.mp h
    obtain ⟨rfl, rfl⟩ := Prod.mk.inj heq
    split
    · rename_i hserved
      exact next_chunk_served hserved.1 hserved.2 hnext
    rename_i hrefused
    obtain ⟨rfl, rfl⟩ := next_chunk_refused hrefused hnext
    exact ⟨rfl, rfl⟩
  cases call with
  | add data grant => cases hrequested
  | next_chunk_preview m => cases hrequested
  | next_chunk m grant => exact hchunk (some.inj hrequested) h
  | remainder grant => exact hchunk (some.inj hrequested) h
  | next_chunk_raw m dest =>
    cases dest with
    | none => cases hrequested
    | some memory =>
      obtain rfl : m = n := some.inj hrequested
      split
      · rename_i hserved
        obtain ⟨taken, htaken, hheld⟩ := raw_served c memory hserved.1 hserved.2
        rw [perform, htaken] at h
        obtain ⟨rfl, rfl⟩ := Prod.mk.inj (some.inj h)
        refine ⟨?_, hheld⟩
        rw [if_pos rfl, map_some, take_left' (length_take_of_le hserved.2)]
      rename_i hrefused
      rw [perform, raw_refused c (some memory) hrefused] at h
      obtain ⟨rfl, rfl⟩ := Prod.mk.inj (some.inj h)
      exact ⟨rfl, rfl⟩

theorem perform_added {c after : Chunker} {data : Option Buffer} {octets : Option (List Byte)}
    (h : perform (.add data grant) c = some (after, octets)) :
    match data with
    | none => octets = none ∧ after = c
    | some data => octets = some [] ∧ after.held = c.held ++ data.data := by
  obtain ⟨⟨result, ok⟩, hadd, heq⟩ := map_eq_some_iff.mp h
  obtain ⟨rfl, rfl⟩ := Prod.mk.inj heq
  cases data with
  | none =>
    obtain ⟨rfl, rfl⟩ := Prod.mk.inj (some.inj hadd)
    exact ⟨rfl, rfl⟩
  | some data =>
    obtain ⟨rfl, hheld⟩ := add_held hadd
    exact ⟨rfl, hheld⟩

theorem perform_failed {call : Call} {c after : Chunker} (h : perform call c = some (after, none)) : after = c := by
  cases hrequested : call.requested c with
  | some n =>
    have hanswer := perform_requested hrequested h
    split at hanswer
    · cases hanswer.1
    · exact hanswer.2
  | none =>
    cases call with
    | add data grant =>
      have hadded := perform_added h
      cases data with
      | none => exact hadded.2
      | some data => cases hadded.1
    | next_chunk_preview n => exact (Prod.mk.inj (some.inj h)).1.symm
    | next_chunk_raw n dest =>
      cases dest with
      | none => exact (Prod.mk.inj (some.inj h)).1.symm
      | some memory => cases hrequested
    | next_chunk n grant => cases hrequested
    | remainder grant => cases hrequested

theorem handed_requested {call : Call} {c after : Chunker} {octets : Option (List Byte)}
    (hrequested : call.requested c = some n) (h : perform call c = some (after, octets)) :
    call.handed c = octets.getD [] := by
  rw [Call.handed, hrequested, h, bind_some]

variable {c : Chunker}

theorem added_requested {call : Call} (hrequested : call.requested c = some n) : call.added c = [] := by
  cases call with
  | add data grant => cases hrequested
  | _ => rfl

theorem step_queued : fifo.Queued step Chunker.held Call.added Call.handed := by
  intro call c after hstep
  obtain ⟨⟨result, octets⟩, h, rfl⟩ := map_eq_some_iff.mp hstep
  cases hrequested : call.requested c with
  | some n =>
    have hanswer := perform_requested hrequested h
    rw [handed_requested hrequested h, added_requested hrequested, List.append_nil]
    split at hanswer
    · rw [hanswer.1, hanswer.2]
      exact take_append_drop n c.held
    rw [hanswer.1, hanswer.2]
    rfl
  | none =>
    cases call with
    | add data grant =>
      have hadded := perform_added h
      cases data with
      | none =>
        rw [hadded.2]
        exact (List.append_nil _).symm
      | some data => exact hadded.2
    | next_chunk_preview n =>
      rw [← (Prod.mk.inj (some.inj h)).1]
      exact (List.append_nil _).symm
    | next_chunk_raw n dest =>
      cases dest with
      | none =>
        obtain ⟨rfl, rfl⟩ := Prod.mk.inj (some.inj h)
        exact (List.append_nil _).symm
      | some memory => cases hrequested
    | next_chunk n grant => cases hrequested
    | remainder grant => cases hrequested

theorem perform_defined {call : Call} (h : call.granted c) : (perform call c).isSome = true := by
  have hchunk {n : Nat} {grant : Grant} (hmemory : grant.memory = true) (hsize : n < size_max) :
      (next_chunk c n grant).isSome = true := by
    have hcreated := create_defined hmemory hsize
    unfold next_chunk
    split
    · rename_i hnone
      rw [hnone] at hcreated
      cases hcreated
    · split <;> rfl
  cases call with
  | next_chunk_preview n => rfl
  | next_chunk_raw n dest => rfl
  | next_chunk n grant =>
    rw [perform, isSome_map]
    exact hchunk h.1 h.2
  | remainder grant =>
    rw [perform, isSome_map]
    exact hchunk h.1 h.2
  | add data grant =>
    cases data with
    | none => rfl
    | some data =>
      have hrequired : required_len c.available_octets c.buffer.capacity data.length < size_max := by
        have hsize := h.2
        rw [required_len]
        split <;> omega
      have hcreated := create_defined h.1 hrequired
      rw [perform, isSome_map, add]
      split
      · rfl
      split
      · rfl
      split
      · rename_i hmerge
        unfold merge_data at hmerge
        split at hmerge
        · split at hmerge
          · rename_i hnone
            rw [hnone] at hcreated
            cases hcreated
          · cases hmerge
        · cases hmerge
      · rfl
      · rfl

/-- How a chunker serves the calls. -/
structure Served (c : Chunker) : Prop where
  defined : ∀ call, call.granted c → (perform call c).isSome = true
  added : ∀ data grant after octets, perform (.add data grant) c = some (after, octets) →
    (octets.isSome = true ↔ data.isSome = true)
  request : ∀ call n after octets, call.requested c = some n → 0 < n → perform call c = some (after, octets) →
    (octets.isSome = true ↔ n ≤ c.held.length)
  next : ∀ call n after octets, call.requested c = some n → perform call c = some (after, some octets) →
    octets = c.held.take n ∧ after.held = c.held.drop n
  preview : ∀ n call after octets, call.requested c = some n → perform call c = some (after, octets) →
    perform (.next_chunk_preview n) c = some (c, octets)
  kept : ∀ n seen calls mid, perform (.next_chunk_preview n) c = some (c, some seen) →
    machine.run step calls c = some mid → fifo.gathered step Call.handed calls c = [] →
    ∀ call after octets, call.requested mid = some n → perform call mid = some (after, octets) → octets = some seen
  failed : ∀ call after, perform call c = some (after, none) → after = c
  nothing : ∀ call after octets, call.requested c = some 0 → perform call c = some (after, octets) → octets = none
  nowhere : ∀ n, perform (.next_chunk_raw n none) c = some (c, none)

theorem preview_some {seen : List Byte} (h : perform (.next_chunk_preview n) c = some (c, some seen)) :
    0 < n ∧ n ≤ c.held.length ∧ seen = c.held.take n := by
  by_cases hserved : 0 < n ∧ n ≤ c.held.length
  · rw [preview_served c hserved.1 hserved.2] at h
    exact ⟨hserved.1, hserved.2, (some.inj (Prod.mk.inj (some.inj h)).2).symm⟩
  rw [preview_refused c hserved] at h
  cases h

theorem served (c : Chunker) : Served c where
  defined _ := perform_defined
  added data grant after octets h := by
    have hadded := perform_added h
    cases data with
    | none => simp [hadded.1]
    | some data => simp [hadded.1]
  request call n after octets hrequested hpos h := by
    have hanswer := perform_requested hrequested h
    split at hanswer
    · rename_i hserved
      simp [hanswer.1, hserved.2]
    rename_i hrefused
    have hshort : ¬ n ≤ c.held.length := fun hn => hrefused ⟨hpos, hn⟩
    simp [hanswer.1, hshort]
  next call n after octets hrequested h := by
    have hanswer := perform_requested hrequested h
    split at hanswer
    · exact ⟨some.inj hanswer.1, hanswer.2⟩
    · cases hanswer.1
  preview n call after octets hrequested h := by
    have hanswer := perform_requested hrequested h
    split at hanswer
    · rename_i hserved
      rw [hanswer.1, preview_served c hserved.1 hserved.2]
    rename_i hrefused
    rw [hanswer.1, preview_refused c hrefused]
  kept n seen calls mid hpreview hrun hnone call after octets hrequested h := by
    obtain ⟨hpos, hn, rfl⟩ := preview_some hpreview
    have hfront := step_queued.front calls hrun hnone
    have hanswer := perform_requested hrequested h
    rw [if_pos ⟨hpos, hn.trans hfront.length_le⟩] at hanswer
    rw [hanswer.1]
    obtain ⟨more, hmore⟩ := hfront
    rw [← hmore, take_append_of_le_length hn]
  failed _ _ := perform_failed
  nothing call after octets hrequested h := by
    have hanswer := perform_requested hrequested h
    rw [if_neg fun hserved => Nat.lt_irrefl 0 hserved.1] at hanswer
    exact hanswer.1
  nowhere _ := rfl

theorem held_of_create (h : create grant = some c) : c.held = [] := by
  have hlength : c.buffer.length = 0 := by
    unfold create at h
    split at h
    · cases h
    rename_i buffer hbuffer
    rw [← some.inj h]
    rw [buffer_create, adapt_size_nocheck] at hbuffer
    split_ifs at hbuffer <;> cases hbuffer <;> rfl
  rw [Chunker.held, drop_eq_nil_iff, c.buffer.length_data, hlength]
  exact Nat.zero_le _

/-- The chunker is a queue: after any calls, what was handed out and what is still there is what
was added, and the next call is served from the front. -/
theorem chunker_is_queue {grant : Grant} {created c : Chunker} {calls : List Call}
    (hcreate : create grant = some created) (hrun : machine.run step calls created = some c) :
    fifo.gathered step Call.handed calls created ++ c.held = fifo.gathered step Call.added calls created ∧
      Served c := by
  have hall := step_queued.run calls hrun
  rw [held_of_create hcreate, nil_append] at hall
  exact ⟨hall, served c⟩

/-- What `ov_chunker_create` makes. -/
def created : Chunker := ⟨⟨[0], 0, Nat.zero_le _⟩, 0, Nat.zero_le _, cons_ne_nil _ _⟩

def three_octets : List Call :=
  [.add (some ⟨[1, 2, 3], 3, Nat.le.refl⟩) ⟨none, true⟩, .next_chunk 2 ⟨none, true⟩]

theorem three_octets_queued : ∃ c, machine.run step three_octets created = some c ∧
    fifo.gathered step Call.handed three_octets created ++ c.held = [1, 2, 3] ∧ Served c := by
  have hqueue := @chunker_is_queue ⟨none, true⟩ created _ three_octets rfl rfl
  exact ⟨_, rfl, hqueue.1, hqueue.2⟩

/-- There are always enough octets for a request for none, but it fails. -/
theorem empty_request_fails : ¬ ∀ call n after octets, call.requested created = some n →
    perform call created = some (after, octets) → (octets.isSome = true ↔ n ≤ created.held.length) := by
  intro h
  have hfails := (h (.next_chunk 0 ⟨none, true⟩) 0 created none rfl rfl).mpr (Nat.zero_le _)
  cases hfails

end openvocs.chunker
