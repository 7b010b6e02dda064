import Openvocs.Stun.Frame

namespace openvocs.stun

open bytes List

/-- A pointer whose first octets are zero. -/
def cleared (entry : BitVec 64) (octets : Nat) : BitVec 64 := (entry >>> (8 * octets)) <<< (8 * octets)

/-- Clears the first `size` octets of an array. -/
def memset_zero (array : List (BitVec 64)) (size : Nat) : List (BitVec 64) :=
  array.mapIdx fun i entry => cleared entry (size - 8 * i)

/-- The loop over the attributes, with the number of further rounds; `none` would be a read outside of
    the buffer or a round too many. -/
def slice_attributes (buffer : List Byte) (base : BitVec 64) (array_size : Nat) :
    Nat → List (BitVec 64) → Nat → Nat → Nat → Option (Bool × List (BitVec 64))
  | _, array, _, _, 0 => some (true, array)
  | 0, _, _, _, _ + 1 => none
  | rounds + 1, array, item, ptr, left + 1 => do
    let array := array.set item (base + BitVec.ofNat 64 ptr)
    let item := item + 1
    if item = array_size then some (false, memset_zero array array_size)
    else if left + 1 < 4 then some (false, memset_zero array array_size)
    else
      let len ← read16 buffer (ptr + 2)
      let len := len.toNat + padding len.toNat
      if left + 1 < 4 + len then some (false, memset_zero array array_size)
      else slice_attributes buffer base array_size rounds array item (ptr + (4 + len)) (left + 1 - (4 + len))

/-- `ov_stun_frame_slice` of a buffer at an address: the result and the array behind the call. -/
def slice_into (buffer : List Byte) (base : BitVec 64) (array : List (BitVec 64)) :
    Option (Bool × List (BitVec 64)) :=
  let array_size := array.length
  if buffer.length < 20 ∨ array_size < 1 then some (false, memset_zero array array_size)
  else if frame_get_length buffer ≠ some (buffer.length - 20) then some (false, memset_zero array array_size)
  else
    slice_attributes buffer base array_size array_size (memset_zero array array_size) 0 20 (buffer.length - 20)

/-- From an offset on the attributes fill the octets that are left, each with its padded length. -/
inductive Attributes (buffer : List Byte) : Nat → Nat → List Nat → Prop where
  | nil (ptr : Nat) : Attributes buffer ptr 0 []
  | cons {ptr left : Nat} {len : BitVec 16} {starts : List Nat} (hread : read16 buffer (ptr + 2) = some len)
      (hfits : 4 + (len.toNat + padding len.toNat) ≤ left)
      (hrest : Attributes buffer (ptr + (4 + (len.toNat + padding len.toNat)))
        (left - (4 + (len.toNat + padding len.toNat))) starts) : Attributes buffer ptr left (ptr :: starts)

/-- The header is there and says how long the body is, and the body consists of these attributes. -/
def Framed (buffer : List Byte) (starts : List Nat) : Prop :=
  20 ≤ buffer.length ∧ frame_get_length buffer = some (buffer.length - 20) ∧
    Attributes buffer 20 (buffer.length - 20) starts

/-- The pointers to the attributes of a frame. -/
def pointers (base : BitVec 64) (starts : List Nat) : List (BitVec 64) := starts.map fun ptr => base + BitVec.ofNat 64 ptr

/-- The array has the attributes and null pointers behind them, or null pointers only if there are
    none that it has room for. -/
def Sliced (buffer : List Byte) (base : BitVec 64) (array_size : Nat) (ok : Bool) (array : List (BitVec 64)) : Prop :=
  match ok with
  | true => ∃ starts, Framed buffer starts ∧ starts.length < array_size ∧
    array = pointers base starts ++ replicate (array_size - starts.length) 0
  | false => (∀ starts, Framed buffer starts → array_size ≤ starts.length) ∧ array = replicate array_size 0

/-- The offsets at which an attribute begins, as many as there are places for: the last of them may be
    one that does not fit. -/
def begun (buffer : List Byte) : Nat → Nat → Nat → List Nat
  | 0, _, _ => []
  | _ + 1, _, 0 => []
  | places + 1, ptr, left + 1 =>
    let len := ((read16 buffer (ptr + 2)).getD 0).toNat
    ptr :: if left + 1 < 4 ∨ left + 1 < 4 + (len + padding len) then []
      else begun buffer places (ptr + (4 + (len + padding len))) (left + 1 - (4 + (len + padding len)))

/-- The offsets that are stored before a frame is found out to be none that fits. -/
def stored (buffer : List Byte) (array_size : Nat) : List Nat :=
  if buffer.length < 20 ∨ frame_get_length buffer ≠ some (buffer.length - 20) then []
  else begun buffer array_size 20 (buffer.length - 20)

/-- What the entries from an index on have behind the first `size` octets of the array is zero. -/
def ClearBehind (size : Nat) (array : List (BitVec 64)) (first : Nat) : Prop :=
  ∀ i entry, first ≤ i → array[i]? = some entry → entry >>> (8 * (size - 8 * i)) = 0

/-- Nothing is left where `memset` does not come: behind the attributes of a frame, or in the whole array
    with the attributes that were stored before the frame is given up. -/
def Clear (buffer : List Byte) (base : BitVec 64) (array : List (BitVec 64)) : Prop :=
  (∃ starts, Framed buffer starts ∧ starts.length < array.length ∧ ClearBehind array.length array starts.length) ∨
    ((∀ starts, Framed buffer starts → array.length ≤ starts.length) ∧
      ClearBehind array.length (pointers base (stored buffer array.length) ++
        array.drop (stored buffer array.length).length) 0)

theorem cleared_shifted (entry : BitVec 64) (octets : Nat) :
    cleared entry octets >>> (8 * octets) = entry >>> (8 * octets) := by
  ext i hi
  simp only [cleared, BitVec.getElem_ushiftRight, BitVec.getLsbD_shiftLeft, BitVec.getLsbD_ushiftRight]
  by_cases hlt : 8 * octets + i < 64
  · simp [hlt]
  · simpa [hlt] using BitVec.getLsbD_of_ge entry (8 * octets + i) (by omega)

theorem cleared_eq_zero_iff (entry : BitVec 64) (octets : Nat) :
    cleared entry octets = 0#64 ↔ entry >>> (8 * octets) = 0#64 := by
  constructor
  · intro h
    rw [← cleared_shifted, h, BitVec.zero_ushiftRight]
  intro h
  rw [cleared, h, BitVec.zero_shiftLeft]

variable (array : List (BitVec 64))

@[simp] theorem length_memset_zero (size : Nat) :
    (memset_zero array size).length = array.length := length_mapIdx

theorem memset_zero_again (size : Nat) :
    memset_zero (memset_zero array size) size = memset_zero array size := by
  have hagain (entry : BitVec 64) (octets : Nat) : cleared (cleared entry octets) octets = cleared entry octets := by
    rw [cleared, cleared_shifted]
    rfl
  rw [memset_zero, memset_zero, mapIdx_mapIdx]
  exact congrArg (mapIdx · array) (funext fun i => funext fun entry => hagain entry _)

theorem memset_zero_drop_iff (size first : Nat) :
    (memset_zero array size).drop first = replicate (array.length - first) 0 ↔ ClearBehind size array first := by
  simp only [memset_zero, eq_replicate_iff, length_drop, length_mapIdx, true_and, mem_iff_getElem?, getElem?_drop,
    getElem?_mapIdx]
  constructor
  · intro h i entry hfirst hentry
    refine (cleared_eq_zero_iff _ _).mp (h _ ⟨i - first, ?_⟩)
    rw [Nat.add_sub_cancel' hfirst, hentry]
    rfl
  rintro h _ ⟨i, hcleared⟩
  obtain ⟨entry, hentry, rfl⟩ := Option.map_eq_some_iff.mp hcleared
  exact (cleared_eq_zero_iff _ _).mpr (h _ entry (Nat.le_add_right _ _) hentry)

theorem clearBehind_memset (entries array : List (BitVec 64)) (size : Nat) :
    ClearBehind size (entries ++ (memset_zero array size).drop entries.length) 0 ↔
      ClearBehind size (entries ++ array.drop entries.length) 0 := by
  refine forall_congr' fun i => ?_
  rcases Nat.lt_or_ge i entries.length with hlt | hge
  · rw [getElem?_append_left hlt, getElem?_append_left hlt]
  rw [getElem?_append_right hge, getElem?_append_right hge, getElem?_drop, getElem?_drop,
    Nat.add_sub_cancel' hge, memset_zero, getElem?_mapIdx]
  cases array[i]? with
  | none => rfl
  | some entry => simp [cleared_shifted]

theorem slice_attributes_spec (buffer : List Byte) (base : BitVec 64) {array_size : Nat} (rest : List (BitVec 64))
    {front : List (BitVec 64)} {ptr left : Nat} (hsize : front.length + rest.length = array_size)
    (hrest : rest ≠ []) (hptr : ptr + left = buffer.length) :
    (∃ starts, Attributes buffer ptr left starts ∧ starts.length < rest.length ∧
      slice_attributes buffer base array_size rest.length (front ++ rest) front.length ptr left =
        some (true, front ++ pointers base starts ++ rest.drop starts.length)) ∨
    ((∀ starts, Attributes buffer ptr left starts → rest.length ≤ starts.length) ∧
      slice_attributes buffer base array_size rest.length (front ++ rest) front.length ptr left =
        some (false, memset_zero (front ++ pointers base (begun buffer rest.length ptr left) ++
          rest.drop (begun buffer rest.length ptr left).length) array_size)) := by
  induction rest generalizing front ptr left with
  | nil => exact absurd rfl hrest
  | cons entry rest ih =>
    cases left with
    | zero => exact .inl ⟨[], .nil ptr, Nat.succ_pos _, by simp [slice_attributes, pointers]⟩
    | succ left =>
      have hset : (front ++ entry :: rest).set front.length (base + BitVec.ofNat 64 ptr) =
          front ++ pointers base [ptr] ++ rest := by
        simp [pointers]
      have hitem : front.length + 1 = array_size ↔ rest = [] := by
        rw [← hsize, length_cons, ← length_eq_zero_iff]
        omega
      simp only [slice_attributes, hset, length_cons, begun]
      by_cases hlast : rest = []
      · refine .inr ⟨fun starts h => ?_, ?_⟩
        · cases h
          simp [hlast]
        · simp [hitem, hlast, begun]
      rw [if_neg (mt hitem.mp hlast)]
      by_cases hshort : left + 1 < 4
      · refine .inr ⟨fun starts h => ?_, ?_⟩
        · cases h
          omega
        · simp [hshort]
      obtain ⟨len, hread⟩ := read16_isSome (l := buffer) (i := ptr + 2) (by omega)
      simp only [if_neg hshort, hread, Option.bind_eq_bind, Option.bind_some, Option.getD_some]
      by_cases hfits : left + 1 < 4 + (len.toNat + padding len.toNat)
      · refine .inr ⟨fun starts h => ?_, ?_⟩
        · obtain - | ⟨hread', hfits', -⟩ := h
          rw [hread] at hread'
          cases hread'
          omega
        · simp [hfits]
      have hmore := @ih (front ++ pointers base [ptr]) (ptr + (4 + (len.toNat + padding len.toNat)))
        (left + 1 - (4 + (len.toNat + padding len.toNat))) (by rw [← hsize]; simp [pointers]; omega) hlast
        (by omega)
      have hfront : (front ++ pointers base [ptr]).length = front.length + 1 := by simp [pointers]
      have hpointers (starts : List Nat) : front ++ pointers base [ptr] ++ pointers base starts =
          front ++ pointers base (ptr :: starts) := by simp [pointers]
      simp only [hfront, hpointers] at hmore
      simp only [if_neg hfits, hshort, false_or]
      rcases hmore with ⟨starts, hstarts, hlength, hslice⟩ | ⟨hnone, hslice⟩
      · refine .inl ⟨_, .cons hread (by omega) hstarts, Nat.succ_lt_succ hlength, ?_⟩
        rw [hslice, length_cons, drop_succ_cons]
      refine .inr ⟨fun starts h => ?_, ?_⟩
      · obtain - | ⟨hread', -, hrest'⟩ := h
        rw [hread] at hread'
        cases hread'
        exact Nat.succ_le_succ (hnone _ hrest')
      · rw [hslice, drop_succ_cons]

theorem Attributes.unique {buffer : List Byte} {ptr left : Nat} {starts others : List Nat}
    (h : Attributes buffer ptr left starts) (hothers : Attributes buffer ptr left others) : starts = others := by
  induction h generalizing others with
  | nil ptr =>
    obtain - | ⟨-, hfits, -⟩ := hothers
    · rfl
    · omega
  | cons hread hfits hrest ih =>
    obtain - | ⟨hread', hfits', hrest'⟩ := hothers
    · omega
    rw [hread] at hread'
    cases hread'
    rw [ih hrest']

theorem length_begun_le (buffer : List Byte) (places ptr left : Nat) : (begun buffer places ptr left).length ≤ places := by
  induction places generalizing ptr left with
  | zero => rfl
  | succ places ih =>
    cases left with
    | zero => exact Nat.zero_le _
    | succ left =>
      rw [begun, length_cons]
      split
      · exact Nat.succ_le_succ (Nat.zero_le _)
      · exact Nat.succ_le_succ (ih _ _)

section frames

variable {buffer : List Byte} {base : BitVec 64} {array : List (BitVec 64)}

theorem sliced_true_iff {starts : List Nat} (hframed : Framed buffer starts) (hlength : starts.length < array.length) :
    Sliced buffer base array.length true
      (pointers base starts ++ (memset_zero array array.length).drop starts.length) ↔ Clear buffer base array := by
  have hunique {others : List Nat} (h : Framed buffer others) : others = starts := h.2.2.unique hframed.2.2
  have hclear : Clear buffer base array ↔ ClearBehind array.length array starts.length := by
    constructor
    · rintro (⟨others, hothers, -, hclear⟩ | ⟨hnone, -⟩)
      · rwa [hunique hothers] at hclear
      · exact absurd (hnone starts hframed) (Nat.not_le.mpr hlength)
    · exact fun hclear => .inl ⟨starts, hframed, hlength, hclear⟩
  rw [hclear, ← memset_zero_drop_iff]
  constructor
  · rintro ⟨others, hothers, -, heq⟩
    rw [hunique hothers] at heq
    exact append_cancel_left heq
  · exact fun heq => ⟨starts, hframed, hlength, by rw [heq]⟩

theorem sliced_false_iff (hnone : ∀ starts, Framed buffer starts → array.length ≤ starts.length) :
    Sliced buffer base array.length false (memset_zero (pointers base (stored buffer array.length) ++
      (memset_zero array array.length).drop (stored buffer array.length).length) array.length) ↔
      Clear buffer base array := by
  have hstored : (stored buffer array.length).length ≤ array.length := by
    unfold stored
    split
    · exact Nat.zero_le _
    · exact length_begun_le _ _ _ _
  have hpointers : (pointers base (stored buffer array.length)).length = (stored buffer array.length).length :=
    length_map _
  have hclear : Clear buffer base array ↔ ClearBehind array.length (pointers base (stored buffer array.length) ++
      array.drop (stored buffer array.length).length) 0 := by
    refine (or_iff_right ?_).trans (and_iff_right hnone)
    rintro ⟨starts, hframed, hlength, -⟩
    exact absurd (hnone starts hframed) (Nat.not_le.mpr hlength)
  have hbehind := clearBehind_memset (pointers base (stored buffer array.length)) array array.length
  rw [hpointers] at hbehind
  rw [hclear, ← hbehind, ← memset_zero_drop_iff, drop_zero, Sliced, and_iff_right hnone, length_append, hpointers,
    length_drop, length_memset_zero, Nat.sub_zero, Nat.add_sub_cancel' hstored]

end frames

/-- Whether there is a frame is found out without reading outside of it, and the array is as it should
    be exactly when `memset` leaves nothing behind. -/
theorem slice_into_iff (buffer : List Byte) (base : BitVec 64) (array : List (BitVec 64)) :
    ∃ ok entries, slice_into buffer base array = some (ok, entries) ∧
      (ok = true ↔ ∃ starts, Framed buffer starts ∧ starts.length < array.length) ∧
      (Sliced buffer base array.length ok entries ↔ Clear buffer base array) := by
  have hfail (hnone : ∀ starts, Framed buffer starts → array.length ≤ starts.length)
      (hstored : stored buffer array.length = [])
      (hslice : slice_into buffer base array = some (false, memset_zero array array.length)) :
      ∃ ok entries, slice_into buffer base array = some (ok, entries) ∧
        (ok = true ↔ ∃ starts, Framed buffer starts ∧ starts.length < array.length) ∧
        (Sliced buffer base array.length ok entries ↔ Clear buffer base array) := by
    have hiff := @sliced_false_iff buffer base array hnone
    simp only [hstored, pointers, map_nil, nil_append, length_nil, drop_zero, memset_zero_again] at hiff
    refine ⟨_, _, hslice, iff_of_false Bool.false_ne_true ?_, hiff⟩
    rintro ⟨starts, hframed, hlength⟩
    exact absurd (hnone starts hframed) (Nat.not_le.mpr hlength)
  by_cases hheader : buffer.length < 20 ∨ frame_get_length buffer ≠ some (buffer.length - 20)
  · refine hfail (fun starts hframed => ?_) (if_pos hheader) ?_
    · exact absurd hheader (not_or.mpr ⟨Nat.not_lt.mpr hframed.1, not_not.mpr hframed.2.1⟩)
    · unfold slice_into
      rcases hheader with hshort | hlength
      · simp [hshort]
      · simp [hlength]
  obtain ⟨hlong, hlength⟩ := not_or.mp hheader
  rw [not_not] at hlength
  by_cases hempty : array = []
  · subst hempty
    exact hfail (fun _ _ => Nat.zero_le _) (by simp [stored, begun]) (by simp [slice_into])
  have hpositive : ¬ array.length < 1 := by
    simpa [Nat.lt_one_iff, length_eq_zero_iff] using hempty
  have hslice : slice_into buffer base array = slice_attributes buffer base array.length array.length
      (memset_zero array array.length) 0 20 (buffer.length - 20) := by
    simp [slice_into, hlong, hpositive, hlength]
  have hframed {starts : List Nat} : Framed buffer starts ↔ Attributes buffer 20 (buffer.length - 20) starts :=
    ⟨fun h => h.2.2, fun h => ⟨Nat.not_lt.mp hlong, hlength, h⟩⟩
  have hwalk := @slice_attributes_spec buffer base array.length (memset_zero array array.length)
    [] 20 (buffer.length - 20) (by simp)
    (length_pos_iff.mp (by rw [length_memset_zero]; exact Nat.not_lt.mp hpositive)) (by omega)
  simp only [length_memset_zero, nil_append, length_nil, ← hframed] at hwalk
  rcases hwalk with ⟨starts, hstarts, hfits, hwalk⟩ | ⟨hnone, hwalk⟩
  · exact ⟨_, _, hslice.trans hwalk, iff_of_true rfl ⟨starts, hstarts, hfits⟩, sliced_true_iff hstarts hfits⟩
  · have hstored : begun buffer array.length 20 (buffer.length - 20) = stored buffer array.length := (if_neg hheader).symm
    rw [hstored] at hwalk
    refine ⟨_, _, hslice.trans hwalk, iff_of_false Bool.false_ne_true ?_, sliced_false_iff hnone⟩
    rintro ⟨starts, hstarts, hfits⟩
    exact absurd (hnone starts hstarts) (Nat.not_le.mpr hfits)

/-- A message with no attributes: of two stale pointers the second one stays, as `memset` clears two octets. -/
theorem slice_keeps_stale_pointer : ∃ entries,
    slice_into [0x00, 0x01, 0x00, 0x00, 0x21, 0x12, 0xA4, 0x42, 0, 0, 0, 0, 0, 0, 0, 0, 0, 0, 0, 0] 0x1000
      [0x2014, 0x2020] = some (true, entries) ∧ entries = [0, 0x2020] ∧
    ¬ Sliced [0x00, 0x01, 0x00, 0x00, 0x21, 0x12, 0xA4, 0x42, 0, 0, 0, 0, 0, 0, 0, 0, 0, 0, 0, 0] 0x1000 2 true entries := by
  refine ⟨_, rfl, rfl, ?_⟩
  rintro ⟨starts, ⟨-, -, hattributes⟩, -, heq⟩
  obtain rfl : starts = [] := hattributes.unique (.nil 20)
  exact absurd heq (by decide)

end openvocs.stun
