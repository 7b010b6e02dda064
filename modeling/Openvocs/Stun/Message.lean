import Openvocs.Stun.Binding

namespace openvocs.stun

open bytes

/-- The places of attributes that stand in a row from an offset on. -/
def offsets : Nat → List (BitVec 16 × List Byte) → List Nat
  | _, [] => []
  | ptr, a :: as => ptr :: offsets (ptr + (4 + (a.2.length + padding a.2.length))) as

/-- The array of slices, with null pointers behind the last one. -/
def slices (array_size : Nat) (as : List (BitVec 16 × List Byte)) : List (Option Nat) :=
  (offsets 20 as).map some ++ List.replicate (array_size - as.length) none

/-- The type and the content of an attribute at an offset. -/
def attribute_at (buffer : List Byte) (i : Nat) : BitVec 16 × List Byte :=
  (attribute_get_type (buffer.drop i),
    ((buffer.drop i).drop 4).take ((attribute_get_length (buffer.drop i)).getD 0))

@[simp] theorem length_offsets (ptr : Nat) (as : List (BitVec 16 × List Byte)) :
    (offsets ptr as).length = as.length := by
  induction as generalizing ptr with
  | nil => rfl
  | cons a as ih => simp [offsets, ih]

theorem offsets_append (ptr : Nat) (as bs : List (BitVec 16 × List Byte)) :
    offsets ptr (as ++ bs) = offsets ptr as ++ offsets (ptr + (octets as).length) bs := by
  induction as generalizing ptr with
  | nil => simp [offsets]
  | cons a as ih =>
    have hcons : (octets (a :: as)).length = 4 + (a.2.length + padding a.2.length) + (octets as).length := by
      simp [octets]
      omega
    rw [List.cons_append, offsets, offsets, ih, hcons, List.cons_append, Nat.add_assoc ptr]

variable {as bs : List (BitVec 16 × List Byte)} {before after : List Byte}

variable (a : BitVec 16 × List Byte)

theorem octets_cons (as : List (BitVec 16 × List Byte)) :
    octets (a :: as) = attribute_frame a.1 a.2 ++ octets as := rfl

theorem slice_loop_octets (has : ∀ a ∈ as, a.2.length < 2 ^ 16) {places : Nat} (h : as.length ≤ places) :
    slice_loop (before ++ (octets as ++ after)) places before.length (octets as).length =
      some (offsets before.length as) := by
  induction as generalizing before places with
  | nil =>
    simp only [octets_nil, List.length_nil, offsets]
    cases places <;> rfl
  | cons a as ih =>
    obtain ⟨places, rfl⟩ : ∃ n, places = n + 1 := ⟨places - 1, by simp at h; omega⟩
    have hmod : a.2.length % 2 ^ 16 = a.2.length := Nat.mod_eq_of_lt (has a (by simp))
    have hlength : (octets (a :: as)).length =
        4 + (a.2.length + padding a.2.length) + (octets as).length := by
      rw [octets_cons, List.length_append, length_attribute]
      omega
    obtain ⟨left, hleft⟩ : ∃ left, (octets (a :: as)).length = left + 1 :=
      ⟨(octets (a :: as)).length - 1, by omega⟩
    have hread : read16 (before ++ (octets (a :: as) ++ after)) (before.length + 2) =
        some (BitVec.ofNat 16 a.2.length) := by
      have hsplit : before ++ (octets (a :: as) ++ after) = (before ++ be16 a.1) ++
          (be16 (BitVec.ofNat 16 a.2.length) ++
            (a.2 ++ List.replicate (padding a.2.length) 0 ++ (octets as ++ after))) := by
        simp [octets_cons, attribute_frame]
      rw [read16_eq_some, hsplit]
      exact slice_mid _ _ _ (by simp) rfl
    have hsplit : before ++ (octets (a :: as) ++ after) =
        (before ++ attribute_frame a.1 a.2) ++ (octets as ++ after) := by
      simp [octets_cons]
    have hrest : slice_loop ((before ++ attribute_frame a.1 a.2) ++ (octets as ++ after)) places
        (before ++ attribute_frame a.1 a.2).length (octets as).length =
          some (offsets (before ++ attribute_frame a.1 a.2).length as) :=
      ih (fun b hb => has b (by simp [hb])) (by simpa using h)
    rw [← hsplit, List.length_append, length_attribute, Nat.add_assoc 4] at hrest
    rw [hleft, slice_loop, hread]
    simp only [BitVec.toNat_ofNat, hmod]
    rw [if_neg (by omega), if_neg (by omega), ← hleft, hlength, Nat.add_sub_cancel_left, hrest]
    rfl

theorem attribute_at_offsets (has : ∀ a ∈ as, a.2.length < 2 ^ 16) :
    (offsets before.length as).map (attribute_at (before ++ (octets as ++ after))) = as := by
  induction as generalizing before with
  | nil => rfl
  | cons a as ih =>
    have hmod : a.2.length % 2 ^ 16 = a.2.length := Nat.mod_eq_of_lt (has a (by simp))
    have hsplit : before ++ (octets (a :: as) ++ after) =
        (before ++ attribute_frame a.1 a.2) ++ (octets as ++ after) := by
      simp [octets_cons]
    have hrest : (offsets (before ++ attribute_frame a.1 a.2).length as).map
        (attribute_at ((before ++ attribute_frame a.1 a.2) ++ (octets as ++ after))) = as :=
      ih fun b hb => has b (by simp [hb])
    rw [← hsplit, List.length_append, length_attribute, Nat.add_assoc 4] at hrest
    rw [offsets, List.map_cons, hrest]
    congr 1
    rw [attribute_at, List.drop_left, octets_cons, List.append_assoc, attribute_get_type_append,
      attribute_get_length_append, hmod, Option.getD_some, attribute_drop_take]

/-- An attribute that the test for an integrity attribute accepts. -/
def is_integrity (a : BitVec 16 × List Byte) : Bool := a.1 = 0x0008 && a.2.length % 2 ^ 16 = 20

/-- An attribute that the test for a fingerprint accepts. -/
def is_fingerprint (a : BitVec 16 × List Byte) : Bool := a.1 = 0x8028 && a.2.length % 2 ^ 16 = 4

theorem frame_is_message_integrity_append (rest : List Byte) :
    frame_is_message_integrity (attribute_frame a.1 a.2 ++ rest) = is_integrity a := by
  rw [frame_is_message_integrity, is_integrity, attribute_get_type_append, attribute_get_length_append, Bool.eq_iff_iff]
  simp only [List.length_append, length_attribute, Bool.and_eq_true, decide_eq_true_eq, Option.some.injEq]
  constructor
  · rintro ⟨⟨-, htype⟩, hlength⟩
    exact ⟨htype, hlength⟩
  rintro ⟨htype, hlength⟩
  exact ⟨⟨by omega, htype⟩, hlength⟩

theorem frame_is_fingerprint_append (rest : List Byte) :
    frame_is_fingerprint (attribute_frame a.1 a.2 ++ rest) = is_fingerprint a := by
  rw [frame_is_fingerprint, is_fingerprint, attribute_get_type_append, attribute_get_length_append, Bool.eq_iff_iff]
  simp only [List.length_append, length_attribute, Bool.and_eq_true, decide_eq_true_eq, Option.some.injEq]
  constructor
  · rintro ⟨⟨-, htype⟩, hlength⟩
    exact ⟨htype, hlength⟩
  rintro ⟨htype, hlength⟩
  exact ⟨⟨by omega, htype⟩, hlength⟩

theorem integrity_loop_cons {buffer : List Byte} {integrity attr : Option Nat}
    (h : frame_at frame_is_message_integrity buffer (if integrity.isSome then none else attr) = false)
    (rest : List (Option Nat)) :
    integrity_loop buffer integrity (attr :: rest) =
      ((integrity_loop buffer integrity rest).1,
        (if integrity.isSome then none else attr) :: (integrity_loop buffer integrity rest).2) := by
  cases rest with
  | nil => simp only [integrity_loop, h, Bool.false_eq_true, if_false]
  | cons follower rest => simp only [integrity_loop, h, Bool.false_eq_true, if_false]

theorem integrity_loop_replicate (buffer : List Byte) (integrity : Option Nat) (n : Nat) :
    integrity_loop buffer integrity (List.replicate n none) = (integrity, List.replicate n none) := by
  induction n with
  | zero => rfl
  | succ n ih =>
    rw [List.replicate_succ, integrity_loop_cons (by rw [ite_self]; rfl), ih, ite_self]

theorem fingerprint_loop_replicate (buffer : List Byte) (finger : Option Nat) (n : Nat) :
    fingerprint_loop buffer finger (List.replicate n none) = (finger, List.replicate n none) := by
  induction n with
  | zero => rfl
  | succ n ih =>
    rw [List.replicate_succ, fingerprint_loop, ite_self]
    simp [frame_at, ih]

theorem integrity_loop_pass (has : ∀ a ∈ as, is_integrity a = false) (rest : List (Option Nat)) :
    integrity_loop (before ++ (octets as ++ after)) none ((offsets before.length as).map some ++ rest) =
      ((integrity_loop (before ++ (octets as ++ after)) none rest).1, (offsets before.length as).map some ++
          (integrity_loop (before ++ (octets as ++ after)) none rest).2) := by
  induction as generalizing before with
  | nil => rfl
  | cons a as ih =>
    have hsplit : before ++ (octets (a :: as) ++ after) =
        (before ++ attribute_frame a.1 a.2) ++ (octets as ++ after) := by
      simp [octets_cons]
    have htest : frame_at frame_is_message_integrity (before ++ (octets (a :: as) ++ after))
        (some before.length) = false := by
      rw [frame_at, List.drop_left, octets_cons, List.append_assoc, frame_is_message_integrity_append]
      exact has a (by simp)
    have hlength : before.length + (4 + (a.2.length + padding a.2.length)) =
        (before ++ attribute_frame a.1 a.2).length := by
      rw [List.length_append, length_attribute, Nat.add_assoc 4]
    rw [offsets, List.map_cons, List.cons_append, integrity_loop_cons htest, hlength, hsplit,
      ih fun b hb => has b (by simp [hb])]
    rfl

theorem fingerprint_loop_pass (has : ∀ a ∈ as, is_fingerprint a = false) (rest : List (Option Nat)) :
    fingerprint_loop (before ++ (octets as ++ after)) none ((offsets before.length as).map some ++ rest) =
      ((fingerprint_loop (before ++ (octets as ++ after)) none rest).1, (offsets before.length as).map some ++
          (fingerprint_loop (before ++ (octets as ++ after)) none rest).2) := by
  induction as generalizing before with
  | nil => rfl
  | cons a as ih =>
    have hsplit : before ++ (octets (a :: as) ++ after) =
        (before ++ attribute_frame a.1 a.2) ++ (octets as ++ after) := by
      simp [octets_cons]
    have htest : frame_at frame_is_fingerprint (before ++ (octets (a :: as) ++ after))
        (some before.length) = false := by
      rw [frame_at, List.drop_left, octets_cons, List.append_assoc, frame_is_fingerprint_append]
      exact has a (by simp)
    have hlength : before.length + (4 + (a.2.length + padding a.2.length)) =
        (before ++ attribute_frame a.1 a.2).length := by
      rw [List.length_append, length_attribute, Nat.add_assoc 4]
    rw [offsets, List.map_cons, List.cons_append, fingerprint_loop]
    simp only [Option.isSome_none, Bool.false_eq_true, if_false, htest]
    rw [hlength, hsplit, ih fun b hb => has b (by simp [hb])]
    rfl

theorem length_slices_row {as : List (BitVec 16 × List Byte)} {array_size : Nat} (h : as.length < array_size) :
    (slices array_size as).length = array_size := by
  simp only [slices, List.length_append, List.length_map, length_offsets, List.length_replicate]
  omega

/-- A message of some type whose attributes stand in a row. -/
def row_message (type : BitVec 16) (id : List Byte) (as : List (BitVec 16 × List Byte)) : List Byte :=
  message_header type id (octets as).length ++ octets as

theorem and_of_mod_four : ∀ c : Byte, c.toNat % 4 = 0 → c &&& 0x01 = 0 ∧ c &&& 0x02 = 0 := by
  decide +kernel

theorem frame_get_length_row (type : BitVec 16) (id : List Byte) (hshort : (octets as).length < 2 ^ 16) :
    frame_get_length (row_message type id as) = some (octets as).length := by
  rw [row_message, frame_get_length_message_header, Nat.mod_eq_of_lt hshort]

section row_message

variable (type : BitVec 16) {id : List Byte} (hid : id.length = 12)

include hid

theorem length_row_message (as : List (BitVec 16 × List Byte)) :
    (row_message type id as).length = 20 + (octets as).length := by
  rw [row_message, List.length_append, length_message_header type hid]

theorem frame_is_valid_row (htype : type.extractLsb' 8 8 &&& 0x80 = 0 ∧ type.extractLsb' 8 8 &&& 0x40 = 0)
    (hshort : (octets as).length < 2 ^ 16) : frame_is_valid (row_message type id as) = true := by
  have hlength := length_row_message type hid as
  have hmod := octets_mod_four as
  have hget := frame_get_length_row type id hshort
  have hbits := and_of_mod_four ((BitVec.ofNat 16 (octets as).length).extractLsb' 0 8)
    (by simp only [BitVec.extractLsb'_toNat, BitVec.toNat_ofNat]; omega)
  have hcons : row_message type id as = type.extractLsb' 8 8 :: type.extractLsb' 0 8 ::
      (BitVec.ofNat 16 (octets as).length).extractLsb' 8 8 ::
      (BitVec.ofNat 16 (octets as).length).extractLsb' 0 8 ::
      0x21 :: 0x12 :: 0xA4 :: 0x42 :: (id ++ octets as) := rfl
  rw [hcons] at hlength hget ⊢
  simp only [frame_is_valid, hget, hlength, hbits, htype, Option.map_some, Bool.and_eq_true, decide_eq_true_eq]
  refine ⟨⟨by omega, by omega⟩, ?_⟩
  decide

variable {array_size : Nat}

theorem frame_slice_row (has : ∀ a ∈ as, a.2.length < 2 ^ 16) (hshort : (octets as).length < 2 ^ 16) (hsize : as.length < array_size) :
    frame_slice (row_message type id as) array_size = some (slices array_size as) := by
  have hlength := length_row_message type hid as
  have hloop : slice_loop (message_header type id (octets as).length ++ (octets as ++ [])) (array_size - 1)
      (message_header type id (octets as).length).length (octets as).length = _ :=
    slice_loop_octets has (by omega)
  rw [List.append_nil, length_message_header type hid, ← row_message] at hloop
  rw [frame_slice, if_neg (by omega), frame_get_length_row type id hshort, hlength, Nat.add_sub_cancel_left,
    if_neg (by simp), hloop, Option.map_some, slices, length_offsets]

theorem attribute_at_row (has : ∀ a ∈ as, a.2.length < 2 ^ 16) :
    (offsets 20 as).map (attribute_at (row_message type id as)) = as := by
  have hread : (offsets (message_header type id (octets as).length).length as).map
      (attribute_at (message_header type id (octets as).length ++ (octets as ++ []))) = as :=
    attribute_at_offsets has
  rwa [List.append_nil, length_message_header type hid, ← row_message] at hread

theorem row_message_split (front : List (BitVec 16 × List Byte)) (a : BitVec 16 × List Byte)
    (back : List (BitVec 16 × List Byte)) (n : Nat) :
    message_header type id n ++ octets (front ++ a :: back) =
      (message_header type id n ++ octets front) ++ (attribute_frame a.1 a.2 ++ octets back) ∧
    (message_header type id n ++ octets front).length = 20 + (octets front).length := by
  refine ⟨?_, ?_⟩
  · rw [octets_append, octets_cons, List.append_assoc]
  · rw [List.length_append, length_message_header type hid]

theorem slice_row_content (front : List (BitVec 16 × List Byte)) (a : BitVec 16 × List Byte)
    (back : List (BitVec 16 × List Byte)) (n : Nat) {size : Nat} (hsize : a.2.length = size) :
    slice (message_header type id n ++ octets (front ++ a :: back)) (20 + (octets front).length + 4) size = a.2 := by
  obtain ⟨hsplit, hlength⟩ := row_message_split type hid front a back n
  have hframe : attribute_frame a.1 a.2 ++ octets back = (be16 a.1 ++ be16 (BitVec.ofNat 16 a.2.length)) ++
      (a.2 ++ (List.replicate (padding a.2.length) 0 ++ octets back)) := by
    simp [attribute_frame]
  rw [hsplit, hframe, ← List.append_assoc]
  exact slice_mid _ _ _ (by rw [List.length_append, hlength]; rfl) hsize

theorem integrity_loop_row {front back : List (BitVec 16 × List Byte)} {mac : BitVec 16 × List Byte}
    (hfront : ∀ a ∈ front, is_integrity a = false) (hmac : is_integrity mac = true)
    (hback : back = [] ∨ ∃ finger, back = [finger] ∧ is_fingerprint finger = true)
    (hsize : (front ++ mac :: back).length < array_size) :
    integrity_loop (row_message type id (front ++ mac :: back)) none (slices array_size (front ++ mac :: back)) =
      (some (20 + (octets front).length), slices array_size (front ++ mac :: back)) := by
  have hpass (rest : List (Option Nat)) := @integrity_loop_pass front
    (message_header type id (octets (front ++ mac :: back)).length) (octets (mac :: back)) hfront rest
  rw [length_message_header type hid, ← octets_append, ← row_message] at hpass
  obtain ⟨hsplit, hlength⟩ := row_message_split type hid front mac back (octets (front ++ mac :: back)).length
  have hfound : frame_at frame_is_message_integrity (row_message type id (front ++ mac :: back))
      (some (20 + (octets front).length)) = true := by
    rw [frame_at, row_message, hsplit, List.drop_left' hlength, frame_is_message_integrity_append]
    exact hmac
  obtain ⟨places, hplaces⟩ : ∃ n, array_size - (front ++ mac :: back).length = n + 1 :=
    ⟨array_size - (front ++ mac :: back).length - 1, by omega⟩
  have hnull : frame_at frame_is_fingerprint (row_message type id (front ++ mac :: back)) none = false := rfl
  rw [slices, hplaces, offsets_append, List.map_append, List.append_assoc, hpass, offsets, List.map_cons,
    List.cons_append]
  rcases hback with rfl | ⟨finger, rfl, hfinger⟩
  · rw [offsets, List.map_nil, List.nil_append, List.replicate_succ]
    simp only [integrity_loop, Option.isSome_none, Bool.false_eq_true, if_false, hfound, if_true, hnull]
    rw [← List.replicate_succ, integrity_loop_replicate]
  have hnext : frame_at frame_is_fingerprint (row_message type id (front ++ [mac, finger]))
      (some (20 + (octets front).length + (4 + (mac.2.length + padding mac.2.length)))) = true := by
    have hcut : (message_header type id (octets (front ++ [mac, finger])).length ++ octets front ++
        attribute_frame mac.1 mac.2).length =
          20 + (octets front).length + (4 + (mac.2.length + padding mac.2.length)) := by
      rw [List.length_append, hlength, length_attribute]
      omega
    rw [frame_at, row_message, hsplit, ← List.append_assoc, List.drop_left' hcut, octets_cons,
      frame_is_fingerprint_append]
    exact hfinger
  rw [offsets, offsets, List.map_cons, List.map_nil, List.cons_append, List.nil_append]
  simp [integrity_loop, hfound, hnext, integrity_loop_replicate]

theorem check_message_integrity_row (hmac : List Byte → List Byte → Vector Byte 20) {key : List Byte}
    (hkey : key ≠ []) {front back : List (BitVec 16 × List Byte)} (hfront : ∀ a ∈ front, is_integrity a = false)
    (hback : back = [] ∨ ∃ finger, back = [finger] ∧ is_fingerprint finger = true) {mac : List Byte}
    (hmac' : mac = (hmac key (message_header type id ((octets front).length + 24) ++ octets front)).toList)
    (hshort : (octets (front ++ (0x0008, mac) :: back)).length < 2 ^ 16)
    (hsize : (front ++ (0x0008, mac) :: back).length < array_size) (must_be_set : Bool) :
    check_message_integrity hmac (row_message type id (front ++ (0x0008, mac) :: back))
        (slices array_size (front ++ (0x0008, mac) :: back)) (some key) must_be_set =
      (true, row_message type id (front ++ (0x0008, mac) :: back),
        slices array_size (front ++ (0x0008, mac) :: back)) := by
  have hlength : mac.length = 20 := by
    rw [hmac']
    exact Vector.length_toList ..
  have hlong : 44 ≤ (row_message type id (front ++ (0x0008, mac) :: back)).length := by
    rw [length_row_message type hid, octets_append, octets_cons, List.length_append, List.length_append,
      length_attribute, hlength]
    omega
  have hslices := length_slices_row hsize
  have hpos : ¬ key.length < 1 := by
    have := List.length_pos_of_ne_nil hkey
    omega
  have hmac_is : is_integrity (0x0008, mac) = true := by simp [is_integrity, hlength]
  have hset : frame_set_length (row_message type id (front ++ (0x0008, mac) :: back))
      (20 + (octets front).length + 4) = some (message_header type id ((octets front).length + 24) ++
        octets (front ++ (0x0008, mac) :: back)) := by
    rw [row_message, frame_set_length_message_header type hid,
      show 20 + (octets front).length + 4 = (octets front).length + 24 by omega]
  have hreset : frame_set_length (message_header type id ((octets front).length + 24) ++
      octets (front ++ (0x0008, mac) :: back)) (octets (front ++ (0x0008, mac) :: back)).length =
        some (row_message type id (front ++ (0x0008, mac) :: back)) :=
    frame_set_length_message_header type hid _ _ _
  obtain ⟨hsplit, hfrontlength⟩ := row_message_split type hid front (0x0008, mac) back ((octets front).length + 24)
  have htake : (message_header type id ((octets front).length + 24) ++
      octets (front ++ (0x0008, mac) :: back)).take (20 + (octets front).length) =
        message_header type id ((octets front).length + 24) ++ octets front := by
    rw [hsplit]
    exact List.take_left' hfrontlength
  have hslice := slice_row_content type hid front (0x0008, mac) back ((octets front).length + 24) hlength
  rw [check_message_integrity, if_neg (by omega), integrity_loop_row type hid hfront hmac_is hback hsize]
  simp only [if_neg hpos, frame_get_length_row type id hshort, hset, htake, hslice, ← hmac', ne_eq,
    not_true_eq_false, if_false, hreset]

theorem fingerprint_loop_row {front : List (BitVec 16 × List Byte)} {finger : BitVec 16 × List Byte}
    (hfront : ∀ a ∈ front, is_fingerprint a = false) (hfinger : is_fingerprint finger = true) (array_size : Nat) :
    fingerprint_loop (row_message type id (front ++ [finger])) none (slices array_size (front ++ [finger])) =
      (some (20 + (octets front).length), slices array_size (front ++ [finger])) := by
  have hpass (rest : List (Option Nat)) := @fingerprint_loop_pass front
    (message_header type id (octets (front ++ [finger])).length) (octets [finger]) hfront rest
  rw [length_message_header type hid, ← octets_append, ← row_message] at hpass
  obtain ⟨hsplit, hlength⟩ := row_message_split type hid front finger [] (octets (front ++ [finger])).length
  have hfound : frame_at frame_is_fingerprint (row_message type id (front ++ [finger]))
      (some (20 + (octets front).length)) = true := by
    rw [frame_at, row_message, hsplit, List.drop_left' hlength, frame_is_fingerprint_append]
    exact hfinger
  rw [slices, offsets_append, List.map_append, List.append_assoc, hpass, offsets, offsets, List.map_cons, List.map_nil,
    List.cons_append, List.nil_append]
  simp [fingerprint_loop, hfound, fingerprint_loop_replicate]

theorem check_fingerprint_row (crc32 : List Byte → BitVec 32) {front : List (BitVec 16 × List Byte)}
    (hfront : ∀ a ∈ front, is_fingerprint a = false) {crc : BitVec 32}
    (hcrc : crc = crc32 (message_header type id ((octets front).length + 8) ++ octets front) ^^^ 0x5354554e) (hsize : (front ++ [(0x8028, be32 crc)]).length < array_size) (must_be_set : Bool) :
    check_fingerprint crc32 (row_message type id (front ++ [(0x8028, be32 crc)]))
        (slices array_size (front ++ [(0x8028, be32 crc)])) must_be_set =
      (true, row_message type id (front ++ [(0x8028, be32 crc)]),
        slices array_size (front ++ [(0x8028, be32 crc)])) := by
  have hlength := length_row_message type hid (front ++ [(0x8028, be32 crc)])
  have hslices := length_slices_row hsize
  have hall : (octets (front ++ [(0x8028, be32 crc)])).length = (octets front).length + 8 := by
    rw [octets_append, List.length_append, octets_singleton, length_attribute, length_be32]
    rfl
  have hset : frame_set_length (row_message type id (front ++ [(0x8028, be32 crc)]))
      (20 + (octets front).length - 12) = some (row_message type id (front ++ [(0x8028, be32 crc)])) := by
    rw [row_message, frame_set_length_message_header type hid, hall,
      show 20 + (octets front).length - 12 = (octets front).length + 8 by omega]
  obtain ⟨hsplit, hfrontlength⟩ := row_message_split type hid front (0x8028, be32 crc) [] ((octets front).length + 8)
  have htake : (row_message type id (front ++ [(0x8028, be32 crc)])).take (20 + (octets front).length) =
      message_header type id ((octets front).length + 8) ++ octets front := by
    rw [row_message, hall, hsplit]
    exact List.take_left' hfrontlength
  have hread : read32 (row_message type id (front ++ [(0x8028, be32 crc)])) (20 + (octets front).length + 4) =
      some crc := by
    rw [read32_eq_some, row_message]
    exact slice_row_content type hid front (0x8028, be32 crc) [] _ rfl
  rw [check_fingerprint, if_neg (by omega), fingerprint_loop_row type hid hfront rfl]
  simp only [hset, htake, hread, ← hcrc, Option.any_some, decide_true]

end row_message

end openvocs.stun
