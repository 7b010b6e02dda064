import Openvocs.Stun.Message

namespace openvocs.stun

open bytes BindingRequest TextAttribute

namespace BindingRequest

variable (hmac : List Byte → List Byte → Vector Byte 20) (crc32 : List Byte → BitVec 32)
variable {r : BindingRequest}

variable {x : BitVec 16 × List Byte}

theorem mem_row {a : TextAttribute} {content : Option (List Byte)}
    (h : ∀ c ∈ content, a.validate c = true) (hx : x ∈ a.row content) :
    x.1 = a.type ∧ x.2.length ≤ a.max := by
  simp only [row, List.mem_map, Option.mem_toList] at hx
  obtain ⟨c, hc, rfl⟩ := hx
  exact ⟨rfl, (encoding_length_eq (h c hc)).2.2⟩

theorem length_row {a : TextAttribute} {content : Option (List Byte)}
    (h : ∀ c ∈ content, a.validate c = true) : (octets (a.row content)).length ≤ a.max + 7 := by
  cases content with
  | none => simp [row]
  | some c =>
    have hmax := (encoding_length_eq (h c rfl)).2.2
    have hpad := padding_lt c.length
    simp only [row, Option.toList_some, List.map_cons, List.map_nil, octets_singleton, length_attribute]
    omega

theorem mem_text_attributes (h : r.Accepted) (hx : x ∈ r.text_attributes) :
    x.1 ≠ 0x0008 ∧ x.1 ≠ 0x8028 ∧ x.2.length ≤ 763 := by
  simp only [text_attributes, List.mem_append] at hx
  rcases hx with hx | hx | hx | hx
  · obtain ⟨htype, hmax⟩ := mem_row h.username hx
    rw [htype]
    exact ⟨by decide, by decide, hmax.trans (by decide)⟩
  · obtain ⟨htype, hmax⟩ := mem_row h.realm hx
    rw [htype]
    exact ⟨by decide, by decide, hmax⟩
  · obtain ⟨htype, hmax⟩ := mem_row h.nonce hx
    rw [htype]
    exact ⟨by decide, by decide, hmax⟩
  obtain ⟨htype, hmax⟩ := mem_row h.software hx
  rw [htype]
  exact ⟨by decide, by decide, hmax⟩

theorem mem_integrity_attributes (hx : x ∈ r.integrity_attributes hmac) : x.1 = 0x0008 ∧ x.2.length = 20 := by
  rw [integrity_attributes] at hx
  split at hx
  · rw [List.mem_singleton] at hx
    simp [hx]
  · simp at hx

theorem mem_fingerprint_attributes
    (hx : x ∈ r.fingerprint_attributes hmac crc32) : x.1 = 0x8028 ∧ x.2.length = 4 := by
  rw [fingerprint_attributes] at hx
  split at hx
  · rw [List.mem_singleton] at hx
    simp [hx]
  · simp at hx

theorem content_lt (h : r.Accepted) (hx : x ∈ r.attributes hmac crc32) : x.2.length < 2 ^ 16 := by
  simp only [attributes, covered_attributes, List.mem_append] at hx
  rcases hx with (hx | hx) | hx
  · have := (mem_text_attributes h hx).2.2
    omega
  · have := (mem_integrity_attributes hmac hx).2
    omega
  have := (mem_fingerprint_attributes hmac crc32 hx).2
  omega

theorem length_integrity_attributes :
    (octets (r.integrity_attributes hmac)).length = if r.integrity then 24 else 0 := by
  rw [integrity_attributes]
  split <;> simp [show padding 20 = 0 from rfl]

theorem length_fingerprint_attributes :
    (octets (r.fingerprint_attributes hmac crc32)).length = if r.fingerprint then 8 else 0 := by
  rw [fingerprint_attributes]
  split <;> simp [show padding 4 = 0 from rfl]

theorem length_octets_lt (h : r.Accepted) : (octets (r.attributes hmac crc32)).length < 2 ^ 16 := by
  have husername : _ ≤ 513 + 7 := length_row h.username
  have hrealm : _ ≤ 763 + 7 := length_row h.realm
  have hnonce : _ ≤ 763 + 7 := length_row h.nonce
  have hsoftware : _ ≤ 763 + 7 := length_row h.software
  simp only [attributes, covered_attributes, text_attributes, octets_append, List.length_append,
    length_integrity_attributes, length_fingerprint_attributes]
  split <;> split <;> omega

theorem frame_is_valid_message (h : r.Accepted) : frame_is_valid (r.message hmac crc32) = true :=
  frame_is_valid_row 0x0001 h.transaction_id ⟨rfl, rfl⟩ (length_octets_lt hmac crc32 h)

variable {array_size : Nat}

theorem frame_slice_message (h : r.Accepted) (hsize : (r.attributes hmac crc32).length < array_size) :
    frame_slice (r.message hmac crc32) array_size = some (slices array_size (r.attributes hmac crc32)) :=
  frame_slice_row 0x0001 h.transaction_id (fun _ ha => content_lt hmac crc32 h ha) (length_octets_lt hmac crc32 h) hsize

theorem attributes_at_slices (h : r.Accepted) :
    (offsets 20 (r.attributes hmac crc32)).map (attribute_at (r.message hmac crc32)) =
      r.attributes hmac crc32 :=
  attribute_at_row 0x0001 h.transaction_id fun _ ha => content_lt hmac crc32 h ha

theorem not_is_integrity (h : r.Accepted)
    (hx : x ∈ r.text_attributes ∨ x ∈ r.fingerprint_attributes hmac crc32) : is_integrity x = false := by
  have hne : x.1 ≠ 0x0008 := by
    rcases hx with hx | hx
    · exact (mem_text_attributes h hx).1
    rw [(mem_fingerprint_attributes hmac crc32 hx).1]
    decide
  rw [is_integrity, decide_eq_false hne, Bool.false_and]

theorem not_is_fingerprint (h : r.Accepted)
    (hx : x ∈ r.covered_attributes hmac) : is_fingerprint x = false := by
  have hne : x.1 ≠ 0x8028 := by
    rcases List.mem_append.mp hx with hx | hx
    · exact (mem_text_attributes h hx).2.1
    rw [(mem_integrity_attributes hmac hx).1]
    decide
  rw [is_fingerprint, decide_eq_false hne, Bool.false_and]

/-- The place of the integrity attribute. -/
def integrity_place (r : BindingRequest) : Option Nat :=
  if r.integrity then some (20 + (octets r.text_attributes).length) else none

/-- The place of the fingerprint. -/
def fingerprint_place (r : BindingRequest) : Option Nat :=
  if r.fingerprint then some (20 + (octets (r.covered_attributes hmac)).length) else none

theorem attributes_integrity (hintegrity : r.integrity = true) {key : List Byte} (hkey : r.key = some key) :
    ∃ mac, mac = (hmac key (message_header 0x0001 r.transaction_id ((octets r.text_attributes).length + 24) ++
        octets r.text_attributes)).toList ∧
      r.attributes hmac crc32 = r.text_attributes ++ (0x0008, mac) :: r.fingerprint_attributes hmac crc32 := by
  refine ⟨_, rfl, ?_⟩
  simp [attributes, covered_attributes, integrity_attributes, hintegrity, hkey, header_eq]

theorem attributes_fingerprint (hfingerprint : r.fingerprint = true) :
    ∃ crc, crc = crc32 (message_header 0x0001 r.transaction_id ((octets (r.covered_attributes hmac)).length + 8) ++
        octets (r.covered_attributes hmac)) ^^^ 0x5354554e ∧
      r.attributes hmac crc32 = r.covered_attributes hmac ++ [(0x8028, be32 crc)] := by
  refine ⟨_, rfl, ?_⟩
  simp only [attributes, fingerprint_attributes, hfingerprint, if_true, header_eq]

theorem not_integrity (h : r.Accepted) (hintegrity : r.integrity = false) :
    ∀ x ∈ r.attributes hmac crc32, is_integrity x = false := by
  intro x hx
  simp only [attributes, covered_attributes, integrity_attributes, hintegrity, Bool.false_eq_true, if_false,
    List.append_nil, List.mem_append] at hx
  exact not_is_integrity hmac crc32 h hx

theorem fingerprint_follows : r.fingerprint_attributes hmac crc32 = [] ∨
    ∃ finger, r.fingerprint_attributes hmac crc32 = [finger] ∧ is_fingerprint finger = true := by
  rw [fingerprint_attributes]
  split
  · exact .inr ⟨_, rfl, rfl⟩
  · exact .inl rfl

theorem integrity_loop_slices (h : r.Accepted) (hsize : (r.attributes hmac crc32).length < array_size) :
    integrity_loop (r.message hmac crc32) none (slices array_size (r.attributes hmac crc32)) =
      (r.integrity_place, slices array_size (r.attributes hmac crc32)) := by
  cases hintegrity : r.integrity with
  | false =>
    have hpass := @integrity_loop_pass (r.attributes hmac crc32)
      (header r.transaction_id (octets (r.attributes hmac crc32)).length) []
      (not_integrity hmac crc32 h hintegrity)
    rw [length_header h.transaction_id, List.append_nil, ← message] at hpass
    rw [slices, hpass, integrity_loop_replicate, integrity_place, hintegrity, if_neg Bool.false_ne_true]
  | true =>
    obtain ⟨key, hkey, -⟩ := h.key hintegrity
    obtain ⟨mac, hmac', hrow⟩ := attributes_integrity hmac crc32 hintegrity hkey
    have hloop := integrity_loop_row 0x0001 h.transaction_id
      (fun x hx => not_is_integrity hmac crc32 h (.inl hx)) (by simp [is_integrity, hmac'])
      (fingerprint_follows hmac crc32) (hrow ▸ hsize)
    rw [← hrow] at hloop
    rw [integrity_place, hintegrity, if_pos rfl]
    exact hloop

theorem fingerprint_loop_slices (h : r.Accepted) (array_size : Nat) :
    fingerprint_loop (r.message hmac crc32) none (slices array_size (r.attributes hmac crc32)) =
      (r.fingerprint_place hmac, slices array_size (r.attributes hmac crc32)) := by
  cases hfingerprint : r.fingerprint with
  | false =>
    have hnone : ∀ x ∈ r.attributes hmac crc32, is_fingerprint x = false := by
      intro x hx
      simp only [attributes, fingerprint_attributes, hfingerprint, Bool.false_eq_true, if_false, List.append_nil] at hx
      exact not_is_fingerprint hmac h hx
    have hpass := @fingerprint_loop_pass (r.attributes hmac crc32)
      (header r.transaction_id (octets (r.attributes hmac crc32)).length) [] hnone
    rw [length_header h.transaction_id, List.append_nil, ← message] at hpass
    rw [slices, hpass, fingerprint_loop_replicate, fingerprint_place, hfingerprint, if_neg Bool.false_ne_true]
  | true =>
    obtain ⟨crc, -, hrow⟩ := attributes_fingerprint hmac crc32 hfingerprint
    have hloop := @fingerprint_loop_row 0x0001 _ h.transaction_id _ (0x8028, be32 crc)
      (fun x hx => not_is_fingerprint hmac h hx) rfl array_size
    rw [← hrow] at hloop
    rw [fingerprint_place, hfingerprint, if_pos rfl]
    exact hloop

theorem length_slices (hsize : (r.attributes hmac crc32).length < array_size) :
    (slices array_size (r.attributes hmac crc32)).length = array_size :=
  length_slices_row hsize

theorem check_fingerprint_message (h : r.Accepted)
    (hsize : (r.attributes hmac crc32).length < array_size) {must_be_set : Bool}
    (hmust : must_be_set = true → r.fingerprint = true) :
    check_fingerprint crc32 (r.message hmac crc32) (slices array_size (r.attributes hmac crc32)) must_be_set =
      (true, r.message hmac crc32, slices array_size (r.attributes hmac crc32)) := by
  cases hfingerprint : r.fingerprint with
  | false =>
    have hlength := r.length_message hmac crc32 h
    have hslices := length_slices hmac crc32 hsize
    have hnot : must_be_set = false := by
      cases must_be_set with
      | false => rfl
      | true => exact absurd (hmust rfl) (by simp [hfingerprint])
    rw [check_fingerprint, if_neg (by omega), fingerprint_loop_slices hmac crc32 h]
    simp [fingerprint_place, hfingerprint, hnot]
  | true =>
    obtain ⟨crc, hcrc, hrow⟩ := attributes_fingerprint hmac crc32 hfingerprint
    have hcheck := check_fingerprint_row 0x0001 h.transaction_id crc32 (fun x hx => not_is_fingerprint hmac h hx) hcrc
      (hrow ▸ hsize) must_be_set
    rw [message, header_eq, ← row_message, hrow]
    exact hcheck

theorem check_message_integrity_message (h : r.Accepted)
    (hsize : (r.attributes hmac crc32).length < array_size) {must_be_set : Bool}
    (hmust : must_be_set = true → r.integrity = true) (hlong : 44 ≤ (r.message hmac crc32).length) :
    check_message_integrity hmac (r.message hmac crc32) (slices array_size (r.attributes hmac crc32)) r.key
        must_be_set =
      (true, r.message hmac crc32, slices array_size (r.attributes hmac crc32)) := by
  cases hintegrity : r.integrity with
  | false =>
    have hslices := length_slices hmac crc32 hsize
    have hnot : must_be_set = false := by
      cases must_be_set with
      | false => rfl
      | true => exact absurd (hmust rfl) (by simp [hintegrity])
    rw [check_message_integrity, if_neg (by omega), integrity_loop_slices hmac crc32 h hsize]
    simp [integrity_place, hintegrity, hnot]
  | true =>
    obtain ⟨key, hkey, hne⟩ := h.key hintegrity
    obtain ⟨mac, hmac', hrow⟩ := attributes_integrity hmac crc32 hintegrity hkey
    have hcheck := check_message_integrity_row 0x0001 h.transaction_id hmac hne
      (fun x hx => not_is_integrity hmac crc32 h (.inl hx)) (fingerprint_follows hmac crc32) hmac'
      (hrow ▸ length_octets_lt hmac crc32 h) (hrow ▸ hsize) must_be_set
    rw [hkey, message, header_eq, ← row_message, hrow]
    exact hcheck

end BindingRequest

/-- One of the two checks. -/
inductive Check
  | integrity
  | fingerprint
deriving DecidableEq

variable (hmac : List Byte → List Byte → Vector Byte 20) (crc32 : List Byte → BitVec 32)

/-- All checks of a list pass, one after the other on the same buffer and the same slices. -/
def checks_pass (key : Option (List Byte)) (must_integrity must_fingerprint : Bool) :
    List Check → List Byte → List (Option Nat) → Bool
  | [], _, _ => true
  | .integrity :: checks, buffer, attr =>
    let (passed, buffer, attr) := check_message_integrity hmac buffer attr key must_integrity
    passed && checks_pass key must_integrity must_fingerprint checks buffer attr
  | .fingerprint :: checks, buffer, attr =>
    let (passed, buffer, attr) := check_fingerprint crc32 buffer attr must_fingerprint
    passed && checks_pass key must_integrity must_fingerprint checks buffer attr

/-- What a receiver expects of a message with some attributes: it is valid, it is cut into exactly
these attributes, and every series of checks passes. A checksum may be demanded that was asked for. -/
structure Verified (r : BindingRequest) (message : List Byte) (array_size : Nat)
    (attributes : List (BitVec 16 × List Byte)) : Prop where
  valid : frame_is_valid message = true
  sliced : ∃ places : List Nat, frame_slice message array_size =
      some (places.map some ++ List.replicate (array_size - places.length) none) ∧
    places.map (attribute_at message) = attributes
  checked : ∀ attr, frame_slice message array_size = some attr →
    ∀ must_integrity must_fingerprint : Bool, (must_integrity = true → r.integrity = true) →
      (must_fingerprint = true → r.fingerprint = true) →
        ∀ checks, checks_pass hmac crc32 r.key must_integrity must_fingerprint checks message attr = true

variable {r : BindingRequest}

theorem checks_pass_message (h : r.Accepted) {array_size : Nat}
    (hsize : (r.attributes hmac crc32).length < array_size) {must_integrity must_fingerprint : Bool}
    (hintegrity : must_integrity = true → r.integrity = true)
    (hfingerprint : must_fingerprint = true → r.fingerprint = true)
    (hlong : 44 ≤ (r.message hmac crc32).length) (checks : List Check) :
    checks_pass hmac crc32 r.key must_integrity must_fingerprint checks (r.message hmac crc32)
      (slices array_size (r.attributes hmac crc32)) = true := by
  induction checks with
  | nil => rfl
  | cons check checks ih =>
    cases check with
    | integrity =>
      rw [checks_pass, check_message_integrity_message hmac crc32 h hsize hintegrity hlong]
      exact ih
    | fingerprint =>
      rw [checks_pass, check_fingerprint_message hmac crc32 h hsize hfingerprint]
      exact ih

/-- A request is verified exactly when it is not too short for the check of its integrity, that is
when it has the integrity attribute or others of together 24 octets. -/
theorem binding_request_verified_iff (h : r.Accepted) {buffer : List Byte} {array_size : Nat}
    (hsize : (r.attributes hmac crc32).length < array_size)
    (hbuffer : (r.message hmac crc32).length ≤ buffer.length) :
    ∃ message rest, generate_binding_request hmac crc32 r buffer = some (message ++ rest, message.length) ∧
      (Verified hmac crc32 r message array_size (r.attributes hmac crc32) ↔
        r.integrity = true ∨ 24 ≤ (octets (r.attributes hmac crc32)).length) := by
  have hlength := r.length_message hmac crc32 h
  have hslice := frame_slice_message hmac crc32 h hsize
  refine ⟨_, _, generate_binding_request_eq hmac crc32 h hbuffer, ?_, ?_⟩
  · intro hverified
    have hcheck := hverified.checked _ hslice false false (by simp) (by simp) [.integrity]
    by_contra hshort
    have hlt : (r.message hmac crc32).length < 44 := by omega
    simp [checks_pass, check_message_integrity, hlt] at hcheck
  · intro hcondition
    have hlong : 44 ≤ (r.message hmac crc32).length := by
      rcases hcondition with hintegrity | hlong
      · have hsizes := length_integrity_attributes hmac (r := r)
        rw [hintegrity, if_pos rfl] at hsizes
        simp only [BindingRequest.attributes, covered_attributes, octets_append,
          List.length_append] at hlength
        omega
      · omega
    refine ⟨frame_is_valid_message hmac crc32 h, ?_, ?_⟩
    · refine ⟨offsets 20 (r.attributes hmac crc32), ?_, ?_⟩
      · rw [hslice, slices, length_offsets]
      · exact attributes_at_slices hmac crc32 h
    · intro attr hattr must_integrity must_fingerprint hintegrity hfingerprint checks
      rw [hslice, Option.some_inj] at hattr
      subst hattr
      exact checks_pass_message hmac crc32 h hsize hintegrity hfingerprint hlong checks

def named_request : BindingRequest where
  transaction_id := [1, 2, 3, 4, 5, 6, 7, 8, 9, 10, 11, 12]
  software := none
  username := some [0x61]
  realm := none
  nonce := none
  key := some [0x6b]
  integrity := true
  fingerprint := true

theorem named_request_accepted : named_request.Accepted where
  transaction_id := rfl
  username := by
    rintro content hcontent
    cases hcontent
    rfl
  realm := by rintro content ⟨⟩
  nonce := by rintro content ⟨⟩
  software := by rintro content ⟨⟩
  key := fun _ => ⟨[0x6b], rfl, by simp⟩

theorem named_request_verified :
    ∃ message rest, generate_binding_request (fun _ _ => Vector.replicate 20 7) (fun _ => 9) named_request
        (List.replicate 100 0xff) = some (message ++ rest, message.length) ∧
      Verified (fun _ _ => Vector.replicate 20 7) (fun _ => 9) named_request message 10
        (named_request.attributes (fun _ _ => Vector.replicate 20 7) fun _ => 9) := by
  obtain ⟨message, rest, hgenerate, hverified⟩ := binding_request_verified_iff
    (fun _ _ => Vector.replicate 20 7) (fun _ => 9) named_request_accepted
    (show _ < 10 by decide) (show _ ≤ (List.replicate 100 (0xff : Byte)).length by decide)
  exact ⟨message, rest, hgenerate, hverified.mpr (.inl rfl)⟩

def plain_request : BindingRequest where
  transaction_id := [1, 2, 3, 4, 5, 6, 7, 8, 9, 10, 11, 12]
  software := none
  username := none
  realm := none
  nonce := none
  key := none
  integrity := false
  fingerprint := false

/-- The plain request is generated, but the check of an integrity attribute that nobody asks for
fails on it. -/
theorem plain_request_not_verified :
    ∃ message rest, generate_binding_request (fun _ _ => Vector.replicate 20 7) (fun _ => 9) plain_request
        (List.replicate 20 0) = some (message ++ rest, message.length) ∧
      frame_slice message 10 = some (List.replicate 10 none) ∧
      (check_message_integrity (fun _ _ => Vector.replicate 20 7) message (List.replicate 10 none)
        none false).1 = false ∧
      ¬ Verified (fun _ _ => Vector.replicate 20 7) (fun _ => 9) plain_request message 10 [] := by
  refine ⟨header plain_request.transaction_id 0, [], rfl, rfl, rfl, fun h => ?_⟩
  have hcheck := h.checked (List.replicate 10 none) rfl false false (by simp) (by simp) [.integrity]
  exact absurd hcheck (by decide)

theorem TextAttribute.decode_frame {a : TextAttribute} (hmax : a.max < 2 ^ 16) {content : List Byte}
    (h : a.validate content = true) (after : List Byte) :
    a.decode (attribute_frame a.type content ++ after) = some content := by
  obtain ⟨-, hpos, hle⟩ := encoding_length_eq h
  have hmod : content.length % 2 ^ 16 = content.length := Nat.mod_eq_of_lt (by omega)
  have hlong : 8 ≤ (attribute_frame a.type content ++ after).length ∧
      content.length + 4 ≤ (attribute_frame a.type content ++ after).length := by
    rw [List.length_append, length_attribute, padding]
    split <;> omega
  have hframe : a.frame_is (attribute_frame a.type content ++ after) = true := by
    simp only [frame_is, attribute_get_type_append, attribute_get_length_append, hmod, Bool.and_eq_true, decide_eq_true_eq]
    exact ⟨⟨hlong.1, trivial⟩, ⟨hpos, hle⟩, hlong.2⟩
  have htake := attribute_drop_take a.type content after
  rw [decode, hframe, attribute_get_length_append, hmod, if_neg (by simp; omega)]
  simp only [htake, h]
  exact if_neg (by simpa using List.length_pos_iff.mp hpos)

/-- The first attribute of a type is found and decoded, wherever it stands in a row. -/
theorem decode_offsets {a : TextAttribute} (hmax : a.max < 2 ^ 16) {as : List (BitVec 16 × List Byte)}
    (has : ∀ x ∈ as.find? fun x => x.1 = a.type, a.validate x.2 = true) (before after : List Byte) :
    (attributes_get_type (before ++ (octets as ++ after)) a.type (offsets before.length as)).map
        (fun i => a.decode ((before ++ (octets as ++ after)).drop i)) =
      (as.find? fun x => x.1 = a.type).map fun x => some x.2 := by
  induction as generalizing before with
  | nil => rfl
  | cons x as ih =>
    have hsplit : before ++ (octets (x :: as) ++ after) =
        (before ++ attribute_frame x.1 x.2) ++ (octets as ++ after) := by
      simp [octets_cons]
    have hdrop : (before ++ (octets (x :: as) ++ after)).drop before.length =
        attribute_frame x.1 x.2 ++ (octets as ++ after) := by
      rw [List.drop_left, octets_cons, List.append_assoc]
    rw [offsets, attributes_get_type, hdrop, attribute_get_type_append]
    by_cases htype : x.1 = a.type
    · have hcontent := decode_frame hmax (has x (by simp [htype])) (octets as ++ after)
      rw [if_pos htype, Option.map_some, hdrop, htype, hcontent]
      simp [htype]
    have hrest := ih (by simpa [htype] using has) (before ++ attribute_frame x.1 x.2)
    rw [← hsplit, List.length_append, length_attribute, Nat.add_assoc 4] at hrest
    rw [if_neg htype, hrest]
    simp [htype]

section

variable (hmac : List Byte → List Byte → Vector Byte 20) (crc32 : List Byte → BitVec 32) {r : BindingRequest}
  {a : TextAttribute} {content : Option (List Byte)}

/-- The text attributes of a request. -/
def BindingRequest.texts (r : BindingRequest) : List (TextAttribute × Option (List Byte)) :=
  [(stun.username, r.username), (stun.realm, r.realm), (stun.nonce, r.nonce), (stun.software, r.software)]

theorem texts_cases (ha : (a, content) ∈ r.texts) : a = stun.username ∧ content = r.username ∨
    a = stun.realm ∧ content = r.realm ∨ a = stun.nonce ∧ content = r.nonce ∨
      a = stun.software ∧ content = r.software := by
  simpa [BindingRequest.texts] using ha

theorem texts_valid (h : r.Accepted) (ha : (a, content) ∈ r.texts) :
    a.max < 2 ^ 16 ∧ ∀ c ∈ content, a.validate c = true := by
  rcases texts_cases ha with ⟨rfl, rfl⟩ | ⟨rfl, rfl⟩ | ⟨rfl, rfl⟩ | ⟨rfl, rfl⟩
  · exact ⟨by decide, h.username⟩
  · exact ⟨by decide, h.realm⟩
  · exact ⟨by decide, h.nonce⟩
  · exact ⟨by decide, h.software⟩

theorem find_attributes (ha : (a, content) ∈ r.texts) :
    (r.attributes hmac crc32).find? (fun x => x.1 = a.type) = content.map fun c => (a.type, c) := by
  have hrow (b : TextAttribute) (c : Option (List Byte)) : (b.row c).find? (fun x => x.1 = a.type) =
      if b.type = a.type then c.map fun c => (b.type, c) else none := by
    cases c <;> simp [row]
  have hnone (x : BitVec 16 × List Byte)
      (hx : x ∈ r.integrity_attributes hmac ∨ x ∈ r.fingerprint_attributes hmac crc32) : x.1 ≠ a.type := by
    have hchecksum : x.1 = 0x0008 ∨ x.1 = 0x8028 :=
      hx.imp (fun hx => (mem_integrity_attributes hmac hx).1) fun hx => (mem_fingerprint_attributes hmac crc32 hx).1
    rcases hchecksum with hx | hx <;> rw [hx] <;>
      rcases texts_cases ha with ⟨rfl, -⟩ | ⟨rfl, -⟩ | ⟨rfl, -⟩ | ⟨rfl, -⟩ <;> decide
  have hintegrity : (r.integrity_attributes hmac).find? (fun x => x.1 = a.type) = none :=
    List.find?_eq_none.mpr fun x hx => by simpa using hnone x (.inl hx)
  have hfingerprint : (r.fingerprint_attributes hmac crc32).find? (fun x => x.1 = a.type) = none :=
    List.find?_eq_none.mpr fun x hx => by simpa using hnone x (.inr hx)
  simp only [BindingRequest.attributes, covered_attributes, text_attributes, List.find?_append, hintegrity,
    hfingerprint, hrow]
  rcases texts_cases ha with ⟨rfl, rfl⟩ | ⟨rfl, rfl⟩ | ⟨rfl, rfl⟩ | ⟨rfl, rfl⟩ <;>
    simp [stun.username, stun.realm, stun.nonce, stun.software]

/-- What a receiver reads of a request that was generated: it finds an attribute exactly when the request
was generated with one, and decodes what it was generated with. -/
theorem generated_texts_read (h : r.Accepted) {buffer : List Byte} {array_size : Nat}
    (hsize : (r.attributes hmac crc32).length < array_size) (hbuffer : (r.message hmac crc32).length ≤ buffer.length) :
    ∃ message rest places, generate_binding_request hmac crc32 r buffer = some (message ++ rest, message.length) ∧
      frame_slice message array_size = some (places.map some ++ List.replicate (array_size - places.length) none) ∧
      ∀ a content, (a, content) ∈ r.texts →
        (attributes_get_type message a.type places).map (fun i => a.decode (message.drop i)) = content.map some := by
  refine ⟨_, _, offsets 20 (r.attributes hmac crc32), generate_binding_request_eq hmac crc32 h hbuffer, ?_, ?_⟩
  · rw [frame_slice_message hmac crc32 h hsize, slices, length_offsets]
  intro a content ha
  obtain ⟨hmax, hvalid⟩ := texts_valid h ha
  have hfind := find_attributes hmac crc32 ha
  have hfound : ∀ x ∈ (r.attributes hmac crc32).find? (fun x => x.1 = a.type), a.validate x.2 = true := by
    rw [hfind]
    simpa using hvalid
  have hdecode := decode_offsets hmax hfound
    (message_header 0x0001 r.transaction_id (octets (r.attributes hmac crc32)).length) []
  rw [length_message_header 0x0001 h.transaction_id, hfind, List.append_nil, Option.map_map] at hdecode
  exact hdecode

end

theorem named_request_read : ∃ message rest places,
    generate_binding_request (fun _ _ => Vector.replicate 20 7) (fun _ => 9) named_request (List.replicate 100 0xff) =
        some (message ++ rest, message.length) ∧
      frame_slice message 10 = some (places.map some ++ List.replicate (10 - places.length) none) ∧
      ∀ a content, (a, content) ∈ named_request.texts →
        (attributes_get_type message a.type places).map (fun i => a.decode (message.drop i)) = content.map some :=
  generated_texts_read _ _ named_request_accepted (by decide) (by decide)

end openvocs.stun
