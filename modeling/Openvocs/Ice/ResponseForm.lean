import Mathlib.Data.List.ReduceOption
import Openvocs.Ice.Response

namespace openvocs.ice.response

open bytes stun

theorem success_header_eq {id : List Byte} (hid : id.length = 12) (rest : List Byte) :
    ∃ a b c, frame_set_success_response (List.replicate 20 0 ++ rest) = some a ∧ frame_set_magic_cookie a = some b ∧
      frame_set_method b 0x001 = some c ∧
      frame_set_transaction_id c id = some (message_header 0x0101 id 0 ++ rest) := by
  have hsize (l : List Byte) (hl : 20 ≤ l.length) : ¬ l.length < 20 := by omega
  refine ⟨[1, 0] ++ ([0, 0] ++ (List.replicate 4 0 ++ (List.replicate 12 0 ++ rest))),
    [1, 0] ++ ([0, 0] ++ ([0x21, 0x12, 0xA4, 0x42] ++ (List.replicate 12 0 ++ rest))),
    message_header 0x0101 (List.replicate 12 0) 0 ++ rest, ?_, ?_, ?_, ?_⟩
  · rw [frame_set_success_response, if_neg (hsize _ (by simp))]
    rfl
  · rw [frame_set_magic_cookie, if_neg (hsize _ (by simp))]
    rfl
  · rw [frame_set_method, if_neg (by simp)]
    rfl
  · exact frame_set_transaction_id_message 0x0101 (List.length_replicate ..) hid 0 rest

theorem xor_mapped_address_row {head buffer : List Byte} (hhead : 20 ≤ head.length) (hbuffer : 24 ≤ buffer.length)
    {sa : Address} (h : sa.WellFormed) :
    ∃ content, (content.length = 8 ∨ content.length = 20) ∧ xor_mapped_address_encode head buffer sa =
      some (attribute_frame 0x0020 content ++ buffer.drop (4 + content.length), 4 + content.length) := by
  cases sa with
  | ipv4 port ip =>
    have hcontent : ([0, 1] ++ (be16 (port ^^^ 0x2112) ++ be32 (ip ^^^ 0x2112A442))).length = 8 := rfl
    refine ⟨_, .inl hcontent, ?_⟩
    rw [xor_mapped_address_encode, if_neg (by omega), hcontent, attribute_frame, hcontent]
    simp [xor_mapped_address_frame, show padding 8 = 0 from rfl]
  | ipv6 port ip =>
    have hip : ip.length = 16 := h
    have hlength : (xor_header head ip).length = 16 := by
      simp only [xor_header, List.length_zipWith, List.length_take, List.length_drop]
      omega
    have hcontent : ([0, 2] ++ (be16 (port ^^^ 0x2112) ++ xor_header head ip)).length = 20 := by
      rw [List.length_append, List.length_append, hlength]
      rfl
    refine ⟨_, .inr hcontent, ?_⟩
    rw [xor_mapped_address_encode, if_neg (by omega), if_neg (by omega), hcontent, attribute_frame, hcontent]
    simp [xor_mapped_address_frame, show padding 20 = 0 from rfl]

section

variable (hmac : List Byte → List Byte → Vector Byte 20) (crc32 : List Byte → BitVec 32)

/-- The two attributes that are written once. -/
structure Covered (pass id content mac : List Byte) : Prop where
  content_length : content.length = 8 ∨ content.length = 20
  mac_eq : mac = (hmac pass (message_header 0x0101 id ((octets [(0x0020, content)]).length + 24) ++
    octets [(0x0020, content)])).toList

theorem success_response_eq (remote : Remote) {request pass : List Byte} (hrequest : 20 ≤ request.length)
    (hpass : pass ≠ []) :
    ∃ content mac tail, Covered hmac pass (slice request 8 12) content mac ∧ 16 ≤ tail.length ∧
      success_response hmac remote request pass =
        some (message_header 0x0101 (slice request 8 12) (octets [(0x0020, content), (0x0008, mac)]).length ++
            octets [(0x0020, content), (0x0008, mac)] ++ tail,
          20 + (octets [(0x0020, content), (0x0008, mac)]).length) := by
  have hid : (slice request 8 12).length = 12 := length_slice (by omega)
  have hzeros : List.replicate udp_payload_octets (0 : Byte) = List.replicate 20 0 ++ List.replicate 2028 0 := by
    rw [List.replicate_append_replicate]
    rfl
  have hheader : (message_header 0x0101 (slice request 8 12) 0).length = 20 := length_message_header 0x0101 hid 0
  obtain ⟨a, b, c, ha, hb, hc, hd⟩ := success_header_eq hid (List.replicate 2028 0)
  obtain ⟨content, hcontent, hencode⟩ := @xor_mapped_address_row
    (message_header 0x0101 (slice request 8 12) 0 ++ List.replicate 2028 0) (List.replicate 2028 0)
    (by rw [List.length_append, hheader]; omega) (by rw [List.length_replicate]; omega) _ remote.sa_well_formed
  have hbody : (octets [(0x0020, content)]).length = 4 + content.length ∧
      (octets [(0x0020, content)]).length % 4 = 0 := by
    rw [octets_singleton, length_attribute]
    rcases hcontent with h | h <;> rw [h] <;> exact ⟨rfl, rfl⟩
  have hadd := add_message_integrity_message hmac 0x0101 hid hpass (octets [(0x0020, content)]).length
    (octets [(0x0020, content)]) ((List.replicate 2028 0).drop (octets [(0x0020, content)]).length) hbody.2 (by
      rw [List.length_drop, List.length_replicate]
      omega)
  have hrequest' : frame_get_transaction_id request = some (slice request 8 12) := by
    rw [frame_get_transaction_id, if_neg (by omega)]
  have hrow : octets [(0x0020, content), (0x0008, (hmac pass (message_header 0x0101 (slice request 8 12)
      ((octets [(0x0020, content)]).length + 24) ++ octets [(0x0020, content)])).toList)] =
        octets [(0x0020, content)] ++ attribute_frame 0x0008 (hmac pass (message_header 0x0101 (slice request 8 12)
          ((octets [(0x0020, content)]).length + 24) ++ octets [(0x0020, content)])).toList := by
    rw [← octets_singleton 0x0008, ← octets_append, List.singleton_append]
  refine ⟨content, _, ((List.replicate 2028 0).drop (octets [(0x0020, content)]).length).drop 24, ⟨hcontent, rfl⟩,
    ?_, ?_⟩
  · rw [List.length_drop, List.length_drop, List.length_replicate]
    omega
  rw [success_response, hzeros]
  simp only [Option.bind_eq_bind, ha, hb, hc, hrequest', hd, Option.bind_some, List.drop_left' hheader,
    List.take_left' hheader, hencode, frame_set_length_message_header 0x0101 hid]
  rw [← octets_singleton 0x0020, ← List.append_assoc, ← hbody.1, hadd, hrow, List.length_append, length_attribute,
    Vector.length_toList]
  rfl

/-- The fingerprint behind a row of attributes. -/
def fingerprint (id : List Byte) (as : List (BitVec 16 × List Byte)) : BitVec 16 × List Byte :=
  (0x8028, be32 (crc32 (message_header 0x0101 id ((octets as).length + 8) ++ octets as) ^^^ 0x5354554e))

theorem attribute_set_length_eq {buffer : List Byte} (h : 20 ≤ buffer.length) (length : Nat) :
    attribute_set_length buffer length = frame_set_length buffer length := by
  rw [attribute_set_length, frame_set_length, if_neg (by omega), if_neg (by omega)]

theorem answer_pairs_cons {id : List Byte} (hid : id.length = 12) (length : Nat) (as : List (BitVec 16 × List Byte))
    {tail : List Byte} (htail : 8 ≤ tail.length) (pair : Pair) (pairs : List Pair) :
    answer_pairs crc32 (message_header 0x0101 id length ++ octets as ++ tail) (20 + (octets as).length)
        (pair :: pairs) =
      (pair, row_message 0x0101 id (as ++ [fingerprint crc32 id as])) ::
        answer_pairs crc32 (row_message 0x0101 id (as ++ [fingerprint crc32 id as]) ++ tail.drop 8)
          (20 + (octets (as ++ [fingerprint crc32 id as])).length) pairs := by
  have hlength : (octets (as ++ [fingerprint crc32 id as])).length = (octets as).length + 8 := by
    rw [octets_append, List.length_append, fingerprint, octets_singleton, length_attribute, length_be32]
    rfl
  have hrow : row_message 0x0101 id (as ++ [fingerprint crc32 id as]) =
      message_header 0x0101 id ((octets as).length + 8) ++ (octets as ++ attribute_frame 0x8028
        (be32 (crc32 (message_header 0x0101 id ((octets as).length + 8) ++ octets as) ^^^ 0x5354554e))) := by
    rw [row_message, hlength, octets_append, fingerprint, octets_singleton]
  have hset : attribute_set_length (message_header 0x0101 id length ++ octets as ++ tail)
      (20 + (octets as).length - 20) =
        some (message_header 0x0101 id (octets as).length ++ (octets as ++ tail)) := by
    rw [attribute_set_length_eq, List.append_assoc, frame_set_length_message_header 0x0101 hid, Nat.add_sub_cancel_left]
    rw [List.length_append, List.length_append, length_message_header 0x0101 hid]
    omega
  have hadd := add_fingerprint_message crc32 0x0101 hid (octets as).length (octets as) tail (octets_mod_four as) htail
  rw [answer_pairs, hset, Option.bind_some, ← List.append_assoc, hadd, ← hrow]
  dsimp only
  rw [List.take_left' (by rw [length_row_message 0x0101 hid, hlength, Nat.add_assoc]), hlength, Nat.add_assoc]

variable {as : List (BitVec 16 × List Byte)}

theorem length_octets_le (has : ∀ a ∈ as, a.2.length ≤ 20) :
    (octets as).length ≤ 27 * as.length := by
  induction as with
  | nil => rfl
  | cons a as ih =>
    have ha := has a List.mem_cons_self
    have hpad := padding_lt a.2.length
    have hrest := ih fun b hb => has b (List.mem_cons_of_mem a hb)
    rw [octets_cons, List.length_append, length_attribute, List.length_cons]
    omega

theorem row_short (has : ∀ a ∈ as, a.2.length ≤ 20)
    (hsize : as.length < stun_attr_frames) :
    (∀ a ∈ as, a.2.length < 2 ^ 16) ∧ (octets as).length < 2 ^ 16 := by
  have hoctets := length_octets_le has
  have hframes : stun_attr_frames = 50 := rfl
  refine ⟨fun a ha => ?_, by omega⟩
  have hle := has a ha
  omega

theorem attribute_types_row {id : List Byte} (hid : id.length = 12)
    (has : ∀ a ∈ as, a.2.length ≤ 20) (hsize : as.length < stun_attr_frames) :
    attribute_types (row_message 0x0101 id as) = some (as.map Prod.fst) := by
  obtain ⟨hcontents, hshort⟩ := row_short has hsize
  have hplaces : (slices stun_attr_frames as).reduceOption = offsets 20 as := by
    rw [slices, List.reduceOption_append, List.reduceOption_replicate_none, List.append_nil]
    exact List.filterMap_map.trans List.filterMap_some
  have hread := congrArg (List.map Prod.fst) (attribute_at_row 0x0101 hid hcontents)
  rw [List.map_map] at hread
  rw [attribute_types, frame_slice_row 0x0101 hid hcontents hshort hsize, Option.map_some, hplaces]
  exact congrArg some hread

variable {hmac crc32} {pass id content mac : List Byte} {as : List (BitVec 16 × List Byte)}

theorem Covered.contents (h : Covered hmac pass id content mac) :
    ∀ a ∈ [((0x0020 : BitVec 16), content), (0x0008, mac)], a.2.length ≤ 20 := by
  have hmac : mac.length = 20 := by
    rw [h.mac_eq]
    exact Vector.length_toList ..
  have hcontent := h.content_length
  simp only [List.forall_mem_cons, List.not_mem_nil, false_implies, implies_true, and_true]
  omega

theorem contents_append (has : ∀ a ∈ as, a.2.length ≤ 20) : ∀ a ∈ as ++ [fingerprint crc32 id as], a.2.length ≤ 20 := by
  intro a ha
  rcases List.mem_append.mp ha with ha | ha
  · exact has a ha
  rw [List.mem_singleton.mp ha, fingerprint, length_be32]
  decide

theorem first_well_formed (hid : id.length = 12) (hpass : pass ≠ []) (h : Covered hmac pass id content mac)
    (has : as = [(0x0020, content), (0x0008, mac)] ++ [fingerprint crc32 id [(0x0020, content), (0x0008, mac)]]) :
    WellFormed hmac crc32 pass (row_message 0x0101 id as) := by
  have hsize : as.length < stun_attr_frames := by
    rw [has]
    exact Nat.lt_of_sub_eq_succ rfl
  have hcontents : ∀ a ∈ as, a.2.length ≤ 20 := has ▸ contents_append h.contents
  obtain ⟨hshort, htotal⟩ := row_short hcontents hsize
  have hintegrity : check_message_integrity hmac (row_message 0x0101 id as) (slices stun_attr_frames as) (some pass)
      true = (true, row_message 0x0101 id as, slices stun_attr_frames as) := by
    subst has
    refine @check_message_integrity_row 0x0101 id hid _ hmac pass hpass [(0x0020, content)] [_] ?_ (.inr ⟨_, rfl, rfl⟩)
      mac h.mac_eq htotal hsize true
    simp [is_integrity]
  have hfingerprint : check_fingerprint crc32 (row_message 0x0101 id as) (slices stun_attr_frames as) true =
      (true, row_message 0x0101 id as, slices stun_attr_frames as) := by
    subst has
    refine check_fingerprint_row 0x0101 hid crc32 ?_ rfl hsize true
    simp [is_fingerprint]
  refine ⟨frame_is_valid_row 0x0101 hid ⟨rfl, rfl⟩ htotal,
    ⟨_, attribute_types_row hid hcontents hsize, ?_⟩, fun attr hattr checks => ?_⟩
  · subst has
    exact ⟨rfl, rfl, rfl, rfl⟩
  rw [frame_slice_row 0x0101 hid hshort htotal hsize, Option.some_inj] at hattr
  subst hattr
  induction checks with
  | nil => rfl
  | cons check checks ih =>
    cases check with
    | integrity =>
      rw [checks_pass, hintegrity]
      exact ih
    | fingerprint =>
      rw [checks_pass, hfingerprint]
      exact ih

theorem second_not_well_formed (hid : id.length = 12) (h : Covered hmac pass id content mac)
    (has : as = [(0x0020, content), (0x0008, mac)] ++ [fingerprint crc32 id [(0x0020, content), (0x0008, mac)]]) :
    ¬ WellFormed hmac crc32 pass (row_message 0x0101 id (as ++ [fingerprint crc32 id as])) := by
  intro hformed
  have hsize : (as ++ [fingerprint crc32 id as]).length < stun_attr_frames := by
    rw [has]
    exact Nat.lt_of_sub_eq_succ rfl
  have hcontents : ∀ a ∈ as ++ [fingerprint crc32 id as], a.2.length ≤ 20 :=
    contents_append (has ▸ contents_append h.contents)
  obtain ⟨types, htypes, -, -, hcount, -⟩ := hformed.attributes
  rw [attribute_types_row hid hcontents hsize, Option.some_inj, has] at htypes
  rw [← htypes] at hcount
  have htwo : (2 : Nat) = 1 := hcount
  cases htwo

theorem answers_well_formed_iff (hid : id.length = 12) (hpass : pass ≠ []) (h : Covered hmac pass id content mac)
    {tail : List Byte} (htail : 16 ≤ tail.length) (length : Nat) (pairs : List Pair) :
    (∀ answer ∈ answer_pairs crc32 (message_header 0x0101 id length ++
        octets [(0x0020, content), (0x0008, mac)] ++ tail)
        (20 + (octets [(0x0020, content), (0x0008, mac)]).length) pairs, WellFormed hmac crc32 pass answer.2) ↔
      pairs.length ≤ 1 := by
  cases pairs with
  | nil => exact iff_of_true (fun _ h => absurd h List.not_mem_nil) (Nat.zero_le 1)
  | cons pair pairs =>
    have hfirst := @first_well_formed hmac crc32 pass id content mac _ hid hpass h rfl
    rw [answer_pairs_cons crc32 hid _ _ (by omega)]
    cases pairs with
    | nil =>
      refine iff_of_true (fun answer hanswer => ?_) le_rfl
      rw [answer_pairs, List.mem_singleton] at hanswer
      rw [hanswer]
      exact hfirst
    | cons next pairs =>
      refine iff_of_false (fun hformed => ?_) (by simp)
      rw [row_message, answer_pairs_cons crc32 hid _ _ (by rw [List.length_drop]; omega)] at hformed
      exact second_not_well_formed hid h rfl (hformed _ (List.mem_cons_of_mem _ List.mem_cons_self))

theorem check_message_integrity_some {buffer key : List Byte} {attr : List (Option Nat)}
    (h : (check_message_integrity hmac buffer attr (some key) true).1 = true) : key ≠ [] ∧ 44 ≤ buffer.length := by
  rw [check_message_integrity] at h
  split at h
  · cases h
  rename_i hlong
  dsimp only at h
  split at h
  · cases h
  split at h
  · cases h
  rename_i hkey
  refine ⟨fun hnil => hkey ?_, by omega⟩
  rw [hnil]
  exact Nat.zero_lt_one

theorem accepted_some {s : Session} {buffer : List Byte} {attr : List (Option Nat)}
    (h : accepted hmac s buffer attr = some pass) : pass ≠ [] ∧ 44 ≤ buffer.length := by
  simp only [accepted, Option.bind_eq_bind, Option.bind_eq_some_iff, Option.guard_eq_some', Option.pure_def,
    Option.some_inj] at h
  obtain ⟨_, -, _, -, _, -, _, -, _, -, _, -, _, -, _, -, _, hintegrity, _, -, rfl⟩ := h
  exact check_message_integrity_some hintegrity

/-- All responses are well formed exactly when the request belongs to one pair at most. -/
theorem responses_well_formed_iff (s : Session) (remote : Remote) (buffer : List Byte) (attr : List (Option Nat))
    (created : Option Pair) (h : accepted hmac s buffer attr = some pass) :
    (∀ answer ∈ process_stun_request hmac crc32 s remote buffer attr created,
      WellFormed hmac crc32 pass answer.2) ↔ (matching_pairs s remote).length ≤ 1 := by
  obtain ⟨hpass, hlong⟩ := accepted_some h
  have hid : (slice buffer 8 12).length = 12 := length_slice (by omega)
  obtain ⟨content, mac, tail, hcovered, htail, hresponse⟩ :=
    @success_response_eq hmac remote buffer pass (by omega) hpass
  rw [process_stun_request, h, Option.bind_some, hresponse]
  dsimp only
  split
  · rename_i hnone
    rw [answers_well_formed_iff hid hpass hcovered htail, hnone]
    cases created <;> simp
  · rename_i hsome
    rw [answers_well_formed_iff hid hpass hcovered htail, hsome, List.length_reverse]

end

def request_attributes : List (BitVec 16 × List Byte) :=
  [(0x0006, [0x61, 0x3A, 0x62]), (0x0024, [0, 0, 0, 1]), (0x8029, [0, 0, 0, 0, 0, 0, 0, 1]),
    (0x0008, List.replicate 20 7)]

def request : List Byte := row_message 0x0001 [1, 2, 3, 4, 5, 6, 7, 8, 9, 10, 11, 12] request_attributes

def sender : Remote where
  host := [0x31]
  port := 5000
  sa := .ipv4 5000 1
  sa_well_formed := trivial

/-- A controlling session with as many pairs for the sender. -/
def session_of (pairs : Nat) : Session where
  uuid := [0x61]
  pass := [0x6B]
  controlling := true
  tiebreaker := 0
  pairs := List.replicate pairs ⟨true, [0x31], 5000⟩

/-- The responses to the request, with checksums that are always the same. -/
def responses (pairs : Nat) : List (Pair × List Byte) :=
  process_stun_request (fun _ _ => Vector.replicate 20 7) (fun _ => 9) (session_of pairs) sender request
    (slices stun_attr_frames request_attributes) none

theorem one_response_well_formed : (responses 1).length = 1 ∧
      ∀ answer ∈ responses 1, WellFormed (fun _ _ => Vector.replicate 20 7) (fun _ => 9) [0x6B] answer.2 :=
  ⟨by decide +kernel, (responses_well_formed_iff (session_of 1) sender request _ none rfl).mpr le_rfl⟩

/-- Of two responses the second one has two fingerprints. -/
theorem second_response_malformed :
    accepted (fun _ _ => Vector.replicate 20 7) (session_of 2) request (slices stun_attr_frames request_attributes) =
        some [0x6B] ∧
      ∃ second ∈ responses 2, attribute_types second.2 = some [0x0020, 0x0008, 0x8028, 0x8028] ∧
        ¬ WellFormed (fun _ _ => Vector.replicate 20 7) (fun _ => 9) [0x6B] second.2 := by
  have hall : (responses 2).map (fun answer => attribute_types answer.2) =
      [some [0x0020, 0x0008, 0x8028], some [0x0020, 0x0008, 0x8028, 0x8028]] := by decide +kernel
  have hlast : some [0x0020, 0x0008, 0x8028, 0x8028] ∈ (responses 2).map fun answer => attribute_types answer.2 := by
    rw [hall]
    exact List.mem_cons_of_mem _ List.mem_cons_self
  obtain ⟨second, hsecond, htypes⟩ := List.mem_map.mp hlast
  refine ⟨rfl, second, hsecond, htypes, fun hformed => ?_⟩
  obtain ⟨types, hsome, -, -, hcount, -⟩ := hformed.attributes
  rw [htypes, Option.some_inj] at hsome
  rw [← hsome] at hcount
  exact absurd hcount (by decide)

end openvocs.ice.response
