import Mathlib.Data.List.Infix
import Openvocs.Rtp.Rtcp

open List Option
open bytes

namespace openvocs.rtcp

/-- `decode_sdes` when nothing but the octets of the message can be read. The number of
    octets that it is called with is that of the buffer. -/
def decode_sdes_within (header : Header) (data : List Byte) : Option (Option Message) :=
  if header.count = 0 then some (message_sdes [] 0)
  else
    (parse_chunks header.count 0 (data.take header.length) data.length).map fun chunks =>
      chunks.map fun chunks => { len_octets := header_len_octets + header.length, type := .source_desc, chunks }

/-- `ov_rtcp_message_decode` when nothing but the octets of the message can be read. -/
def message_decode_within (buf : List Byte) : Option (Option Message × List Byte) :=
  match decode_header buf with
  | none => some (none, buf)
  | some (header, data) =>
    if header.length = 0 then some (none, buf)
    else if data.length < header.length then some (none, buf)
    else
      let msg :=
        if header.type = .source_desc then decode_sdes_within header data else some (decode_generic_message header)
      msg.map fun msg => (msg, data.drop header.length)

/-- Where the items of a chunk end, with the octets that were consumed, or `none` when
    the chunk is refused: the input is too short, an item is longer than the input, or
    there is no CNAME. What is read on the way is there. -/
inductive Walk (in_octets : Nat) : List Byte → Nat → Bool → Option (Nat × List Byte) → Prop
  | no_input {data : List Byte} {consumed : Nat} {found : Bool} (hin : in_octets < 1) :
      Walk in_octets data consumed found none
  | named {behind : List Byte} {consumed : Nat} (hin : 1 ≤ in_octets) :
      Walk in_octets (0 :: behind) consumed true (some (consumed, 0 :: behind))
  | unnamed {behind : List Byte} {consumed : Nat} (hin : 1 ≤ in_octets) :
      Walk in_octets (0 :: behind) consumed false none
  | no_length {type : Byte} {behind : List Byte} {consumed : Nat} {found : Bool} (hin : in_octets = 1) (htype : type ≠ 0) :
      Walk in_octets (type :: behind) consumed found none
  | overlong {type len : Byte} {behind : List Byte} {consumed : Nat} {found : Bool} (hin : 2 ≤ in_octets)
      (htype : type ≠ 0) (hlong : in_octets < len.toNat + consumed) :
      Walk in_octets (type :: len :: behind) consumed found none
  | item {type len : Byte} {behind : List Byte} {consumed : Nat} {found : Bool} {outcome : Option (Nat × List Byte)}
      (hin : 2 ≤ in_octets) (htype : type ≠ 0) (hfits : len.toNat + consumed ≤ in_octets)
      (hrest : Walk in_octets (behind.drop len.toNat) (consumed + (2 + len.toNat)) (found || decide (type = cname_type)) outcome) :
      Walk in_octets (type :: len :: behind) consumed found outcome

/-- Every chunk has a source and items that end among the octets. The next chunk begins
    where the code looks for it. -/
inductive ChunksWithin : Nat → List Byte → Nat → Prop
  | done (data : List Byte) (num_octets : Nat) : ChunksWithin 0 data num_octets
  | no_input {num_chunks : Nat} {data : List Byte} {num_octets : Nat} (hin : num_octets < 4) :
      ChunksWithin (num_chunks + 1) data num_octets
  | refused {num_chunks : Nat} {data : List Byte} {num_octets : Nat} (hin : 4 ≤ num_octets) (hthere : 4 ≤ data.length)
      (hwalk : Walk (num_octets - 4) (data.drop 4) 0 false none) : ChunksWithin (num_chunks + 1) data num_octets
  | chunk {num_chunks : Nat} {data rest : List Byte} {num_octets consumed : Nat} (hin : 4 ≤ num_octets)
      (hthere : 4 ≤ data.length) (hwalk : Walk (num_octets - 4) (data.drop 4) 0 false (some (consumed, rest)))
      (hrest : ChunksWithin num_chunks (skip_alignment rest (num_octets - 4) consumed).1
        (skip_alignment rest (num_octets - 4) consumed).2) :
      ChunksWithin (num_chunks + 1) data num_octets

/-- What `get_item` returns of a walk. -/
def arrived (in_octets : Nat) (outcome : Option (Nat × List Byte)) : Option (List Byte × Nat) :=
  outcome.map fun o => skip_alignment o.2 in_octets o.1

variable {consumed : Nat} {in_octets : Nat}

theorem walk_of_get_item {data : List Byte} {found : Option (List Byte)}
    {r : Option (List Byte × List Byte × Nat)} (h : get_item cname_type in_octets data consumed found = some r) :
    ∃ outcome, Walk in_octets data consumed found.isSome outcome ∧ r.map Prod.snd = arrived in_octets outcome := by
  fun_induction get_item cname_type in_octets data consumed found with
  | case1 data consumed found hin =>
    cases h
    exact ⟨none, .no_input hin, rfl⟩
  | case2 => cases h
  | case3 consumed found hin behind =>
    cases h
    cases found with
    | none => exact ⟨none, .unnamed (Nat.le_of_not_lt hin), rfl⟩
    | some text => exact ⟨_, .named (Nat.le_of_not_lt hin), rfl⟩
  | case4 consumed found hin type behind htype htwo =>
    cases h
    exact ⟨none, .no_length (by omega) htype, rfl⟩
  | case5 => cases h
  | case6 consumed found hin type htype htwo len body hlen hlong =>
    cases h
    exact ⟨none, .overlong (by omega) htype hlong, rfl⟩
  | case7 => cases h
  | case8 consumed found hin type htype htwo len_item_octets body len hfits hbody ih =>
    simp only [dite_eq_ite] at ih
    obtain ⟨outcome, hwalk, hr⟩ := ih h
    refine ⟨outcome, .item (by omega) htype (by omega) ?_, hr⟩
    by_cases hname : type = cname_type
    · rw [if_pos hname] at hwalk
      rw [decide_eq_true hname, Bool.or_true]
      exact hwalk
    rw [if_neg hname] at hwalk
    rw [decide_eq_false hname, Bool.or_false]
    exact hwalk

theorem Walk.length_pos {data : List Byte} {found : Bool}
    {outcome : Option (Nat × List Byte)} (h : Walk in_octets data consumed found outcome) (hin : 1 ≤ in_octets) :
    0 < data.length := by
  cases h with
  | no_input hnone => omega
  | named | unnamed | no_length | overlong | item => exact Nat.succ_pos _

theorem get_item_of_walk {data : List Byte} {known : Bool}
    {outcome : Option (Nat × List Byte)} (h : Walk in_octets data consumed known outcome)
    (found : Option (List Byte)) (hfound : found.isSome = known) :
    ∃ r, get_item cname_type in_octets data consumed found = some r ∧ r.map Prod.snd = arrived in_octets outcome := by
  induction h generalizing found with
  | no_input hin =>
    rw [get_item.eq_def, if_pos hin]
    exact ⟨none, rfl, rfl⟩
  | named hin =>
    obtain ⟨text, rfl⟩ := isSome_iff_exists.mp hfound
    rw [get_item.eq_def, if_neg (by omega)]
    exact ⟨_, rfl, rfl⟩
  | unnamed hin =>
    rw [isSome_eq_false_iff, isNone_iff_eq_none] at hfound
    subst hfound
    rw [get_item.eq_def, if_neg (by omega)]
    exact ⟨_, rfl, rfl⟩
  | no_length hin htype =>
    rw [get_item.eq_def, if_neg (by omega)]
    simp only [htype, if_false]
    rw [if_pos (by omega)]
    exact ⟨none, rfl, rfl⟩
  | overlong hin htype hlong =>
    rw [get_item.eq_def, if_neg (by omega)]
    simp only [htype, if_false]
    rw [if_neg (by omega), if_pos hlong]
    exact ⟨none, rfl, rfl⟩
  | @item type len behind consumed known outcome hin htype hfits hrest ih =>
    have hlength := hrest.length_pos (by omega)
    rw [length_drop] at hlength
    obtain ⟨r, hget, hr⟩ := ih (if type = cname_type then some (c_string (behind.take len.toNat)) else found) (by
      by_cases hname : type = cname_type
      · rw [if_pos hname, decide_eq_true hname, Bool.or_true]
        rfl
      rw [if_neg hname, decide_eq_false hname, Bool.or_false]
      exact hfound)
    refine ⟨r, ?_, hr⟩
    rw [get_item.eq_def, if_neg (by omega)]
    simp only [htype, if_false]
    rw [if_neg (by omega), if_neg (by omega), if_neg (by omega)]
    exact hget

theorem parse_chunks_isSome_iff (num_chunks chunk_index : Nat) (hcount : num_chunks + chunk_index ≤ max_num_chunks)
    (data : List Byte) (num_octets : Nat) :
    (parse_chunks num_chunks chunk_index data num_octets).isSome ↔ ChunksWithin num_chunks data num_octets := by
  induction num_chunks generalizing chunk_index data num_octets with
  | zero => exact iff_of_true rfl (.done data num_octets)
  | succ num_chunks ih =>
    have hindex : ¬ max_num_chunks ≤ chunk_index := by omega
    by_cases hin : num_octets < 4
    · refine iff_of_true ?_ (.no_input hin)
      rw [parse_chunks, parse_chunk, if_neg hindex, if_pos hin]
      rfl
    by_cases hthere : 4 ≤ data.length
    · obtain ⟨ssrc, hssrc⟩ := read32_isSome (l := data) (i := 0) hthere
      have hchunk : parse_chunk data num_octets chunk_index =
          (get_item cname_type (num_octets - 4) (data.drop 4) 0 none).map fun item =>
            item.map fun next => ({ ssrc, cname := next.1 }, next.2) := by
        rw [parse_chunk, if_neg hindex, if_neg hin, hssrc, bind_some]
      rw [parse_chunks, hchunk]
      constructor
      · intro hsome
        cases hget : get_item cname_type (num_octets - 4) (data.drop 4) 0 none with
        | none =>
          rw [hget] at hsome
          cases hsome
        | some item =>
          obtain ⟨outcome, hwalk, hr⟩ := walk_of_get_item hget
          rw [hget] at hsome
          cases outcome with
          | none => exact .refused (Nat.le_of_not_lt hin) hthere hwalk
          | some o =>
            obtain ⟨consumed, rest⟩ := o
            refine .chunk (Nat.le_of_not_lt hin) hthere hwalk ?_
            obtain ⟨⟨cname, next⟩, rfl, hnext⟩ := map_eq_some_iff.mp hr
            dsimp only at hnext
            rw [← hnext, ← ih (chunk_index + 1) (by omega)]
            simpa only [map_some, isSome_map] using hsome
      intro hwithin
      cases hwithin with
      | no_input hnone => exact absurd hnone hin
      | refused _ _ hwalk =>
        obtain ⟨r, hget, hr⟩ := get_item_of_walk hwalk none rfl
        obtain rfl : r = none := by
          cases r with
          | none => rfl
          | some item => cases hr
        rw [hget]
        rfl
      | chunk _ _ hwalk hrest =>
        obtain ⟨r, hget, hr⟩ := get_item_of_walk hwalk none rfl
        obtain ⟨⟨cname, next⟩, rfl, hnext⟩ := map_eq_some_iff.mp hr
        dsimp only at hnext
        rw [← hnext, ← ih (chunk_index + 1) (by omega)] at hrest
        rw [hget]
        simpa only [map_some, isSome_map] using hrest
    · refine iff_of_false ?_ ?_
      · have hshort : read32 data 0 = none := by
          cases hread : read32 data 0 with
          | none => rfl
          | some x =>
            have hslice := congrArg List.length (read32_eq_some.mp hread)
            rw [length_be32, slice, length_take, drop_zero] at hslice
            omega
        rw [parse_chunks, parse_chunk, if_neg hindex, if_neg hin, hshort]
        exact Bool.false_ne_true
      intro hwithin
      cases hwithin with
      | no_input hnone => exact hin hnone
      | refused _ hlength _ => exact hthere hlength
      | chunk _ hlength _ _ => exact hthere hlength

theorem get_item_isSome (item_type : Byte) {data : List Byte}
    (found : Option (List Byte)) (hconsumed : consumed ≤ in_octets + 2)
    (hlength : in_octets + 4 ≤ consumed + data.length) :
    (get_item item_type in_octets data consumed found).isSome := by
  fun_induction get_item item_type in_octets data consumed found with
  | case1 | case3 | case4 | case6 => rfl
  | case2 =>
    rw [length_nil] at hlength
    omega
  | case5 =>
    rw [length_singleton] at hlength
    omega
  | case7 consumed found hin type htype htwo len_item_octets body len hfits hbody =>
    simp only [length_cons] at hlength
    omega
  | case8 consumed found hin type htype htwo len_item_octets body len hfits hbody ih =>
    simp only [length_cons] at hlength
    apply ih
    · omega
    rw [length_drop]
    omega

theorem get_item_of_longer {item_type : Byte} {data more : List Byte}
    {found : Option (List Byte)} {r : Option (List Byte × List Byte × Nat)} (hmore : data <+: more)
    (h : get_item item_type in_octets data consumed found = some r) :
    ∃ r', get_item item_type in_octets more consumed found = some r' ∧
      Option.Rel (fun item item' => item'.1 = item.1 ∧ item.2.1 <+: item'.2.1 ∧ item'.2.2 = item.2.2) r r' := by
  fun_induction get_item item_type in_octets data consumed found generalizing more with
  | case1 data consumed found hin =>
    cases h
    rw [get_item.eq_def, if_pos hin]
    exact ⟨none, rfl, .none⟩
  | case2 => cases h
  | case3 consumed found hin behind =>
    cases h
    obtain ⟨tail, rfl⟩ := hmore
    rw [get_item.eq_def, if_neg hin]
    refine ⟨_, rfl, ?_⟩
    cases found with
    | none => exact .none
    | some text => exact .some ⟨rfl, List.IsPrefix.drop (prefix_append (0 :: behind) tail) _, rfl⟩
  | case4 consumed found hin type behind htype htwo =>
    cases h
    obtain ⟨tail, rfl⟩ := hmore
    rw [get_item.eq_def, if_neg hin]
    simp only [List.cons_append, htype, if_false, htwo, if_true]
    exact ⟨none, rfl, .none⟩
  | case5 => cases h
  | case6 consumed found hin type htype htwo len body =>
    rename_i hlong
    cases h
    obtain ⟨tail, rfl⟩ := hmore
    rw [get_item.eq_def, if_neg hin]
    simp only [List.cons_append, htype, if_false, htwo]
    rw [if_pos hlong]
    exact ⟨none, rfl, .none⟩
  | case7 => cases h
  | case8 consumed found hin type htype htwo len_item_octets body =>
    rename_i hfits hbody ih
    obtain ⟨tail, rfl⟩ := hmore
    -- the item that follows is among the first octets, so the text is too
    have hlen : len_item_octets.toNat ≤ body.length := by
      by_contra hshort
      rw [drop_eq_nil_of_le (by omega), get_item.eq_def, if_neg hin] at h
      cases h
    obtain ⟨r', hget, hrel⟩ := ih (List.IsPrefix.drop (prefix_append body tail) _) h
    refine ⟨r', ?_, hrel⟩
    have hbody' : ¬ (type = item_type ∧ (body ++ tail).length < len_item_octets.toNat) := by
      rw [length_append]
      omega
    rw [get_item.eq_def, if_neg hin]
    simp only [List.cons_append, htype, if_false, htwo, hbody', take_append_of_le_length hlen]
    rw [if_neg hfits]
    simp only [dite_eq_ite] at hget
    exact hget

theorem read32_of_longer {data more : List Byte} (hmore : data <+: more) {x : BitVec 32} (h : read32 data 0 = some x) :
    read32 more 0 = some x := by
  obtain ⟨tail, rfl⟩ := hmore
  rw [read32_eq_some] at h ⊢
  have hlength := congrArg List.length h
  rw [length_be32, slice, drop_zero, length_take] at hlength
  rw [← h, slice, slice, drop_zero, drop_zero, take_append_of_le_length (by omega)]

theorem parse_chunks_of_longer (num_chunks : Nat) {chunk_index : Nat} {data more : List Byte} {num_octets : Nat}
    {r : Option (List Chunk)} (hmore : data <+: more)
    (h : parse_chunks num_chunks chunk_index data num_octets = some r) :
    parse_chunks num_chunks chunk_index more num_octets = some r := by
  induction num_chunks generalizing chunk_index data more num_octets r with
  | zero => exact h
  | succ num_chunks ih =>
    rw [parse_chunks] at h ⊢
    rw [parse_chunk] at h ⊢
    by_cases hindex : max_num_chunks ≤ chunk_index
    · simp only [if_pos hindex] at h ⊢
      exact h
    by_cases hin : num_octets < 4
    · simp only [if_neg hindex, if_pos hin] at h ⊢
      exact h
    simp only [if_neg hindex, if_neg hin] at h ⊢
    cases hread : read32 data 0 with
    | none =>
      rw [hread] at h
      cases h
    | some ssrc =>
      rw [hread, bind_some] at h
      rw [read32_of_longer hmore hread, bind_some]
      cases hget : get_item cname_type (num_octets - 4) (data.drop 4) 0 none with
      | none =>
        rw [hget] at h
        cases h
      | some item =>
        obtain ⟨item', hget', hrel⟩ := get_item_of_longer (List.IsPrefix.drop hmore 4) hget
        rw [hget] at h
        rw [hget']
        cases hrel with
        | none => exact h
        | some hsame =>
          rename_i found found'
          obtain ⟨cname, rest, left⟩ := found
          obtain ⟨cname', rest', left'⟩ := found'
          obtain ⟨hcname, hrest, hleft⟩ := hsame
          dsimp only at hcname hrest hleft
          subst hcname hleft
          simp only [map_some, map_eq_some_iff] at h ⊢
          obtain ⟨chunks, hchunks, hr⟩ := h
          exact ⟨chunks, ih hrest hchunks, hr⟩

/-- Nothing but the octets of the announced message is read. -/
def ReadsWithin (buf : List Byte) : Prop := (message_decode_within buf).isSome

/-- The octets of a source description are as many chunks as the header counts. -/
def Contained (buf : List Byte) : Prop :=
  ∀ header data, decode_header buf = some (header, data) → header.type = .source_desc → header.length ≠ 0 →
    header.length ≤ data.length → header.count ≠ 0 →
      ChunksWithin header.count (data.take header.length) data.length

theorem decode_header_eq_some {buf data : List Byte} {header : Header} (h : decode_header buf = some (header, data)) :
    data = buf.drop 4 ∧ 4 ≤ buf.length ∧ header.count < 32 ∧ ∃ words, header.length = 4 * words := by
  unfold decode_header at h
  split at h
  · rename_i b0 b1 b2 b3 behind
    split at h
    · cases h
    cases h
    refine ⟨rfl, by simp only [length_cons]; omega, Nat.mod_lt _ (by decide), ?_⟩
    exact ⟨(b2 ++ b3 : BitVec 16).toNat, Nat.mul_comm _ _⟩
  · cases h

theorem readsWithin_iff (buf : List Byte) : ReadsWithin buf ↔ Contained buf := by
  rw [ReadsWithin, message_decode_within]
  cases hheader : decode_header buf with
  | none => exact iff_of_true rfl fun header data h => by rw [hheader] at h; cases h
  | some found =>
    obtain ⟨header, data⟩ := found
    have hcount := (decode_header_eq_some hheader).2.2.1
    have hcontained : Contained buf ↔ (header.type = .source_desc → header.length ≠ 0 →
        header.length ≤ data.length → header.count ≠ 0 →
          ChunksWithin header.count (data.take header.length) data.length) := by
      constructor
      · exact fun h => h header data hheader
      intro h other behind hother
      rw [hheader] at hother
      cases hother
      exact h
    rw [hcontained]
    dsimp only
    by_cases hzero : header.length = 0
    · rw [if_pos hzero]
      exact iff_of_true rfl fun _ hne => absurd hzero hne
    rw [if_neg hzero]
    by_cases hshort : data.length < header.length
    · rw [if_pos hshort]
      exact iff_of_true rfl fun _ _ hle => absurd hshort (Nat.not_lt_of_le hle)
    rw [if_neg hshort, isSome_map]
    by_cases htype : header.type = .source_desc
    · rw [if_pos htype, decode_sdes_within]
      by_cases hnone : header.count = 0
      · rw [if_pos hnone]
        exact iff_of_true rfl fun _ _ _ hne => absurd hnone hne
      rw [if_neg hnone, isSome_map, parse_chunks_isSome_iff header.count 0 (by rw [max_num_chunks]; omega)]
      exact ⟨fun h _ _ _ _ => h, fun h => h htype hzero (by omega) hnone⟩
    rw [if_neg htype]
    exact iff_of_true rfl fun hdesc => absurd hdesc htype

theorem message_decode_of_within {buf : List Byte} {r : Option Message × List Byte}
    (h : message_decode_within buf = some r) : message_decode buf = some r := by
  rw [message_decode_within] at h
  rw [message_decode]
  cases hheader : decode_header buf with
  | none =>
    rw [hheader] at h
    exact h
  | some found =>
    obtain ⟨header, data⟩ := found
    rw [hheader] at h
    dsimp only at h ⊢
    by_cases hzero : header.length = 0
    · rw [if_pos hzero] at h ⊢
      exact h
    rw [if_neg hzero] at h ⊢
    by_cases hshort : data.length < header.length
    · rw [if_pos hshort] at h ⊢
      exact h
    rw [if_neg hshort] at h ⊢
    obtain ⟨msg, hmsg, hr⟩ := map_eq_some_iff.mp h
    rw [map_eq_some_iff]
    refine ⟨msg, ?_, hr⟩
    by_cases htype : header.type = .source_desc
    · rw [if_pos htype, decode_sdes_within] at hmsg
      rw [if_pos htype, decode_sdes]
      by_cases hcount : header.count = 0
      · rw [if_pos hcount] at hmsg ⊢
        exact hmsg
      rw [if_neg hcount] at hmsg ⊢
      obtain ⟨chunks, hchunks, heq⟩ := map_eq_some_iff.mp hmsg
      rw [parse_chunks_of_longer header.count ( take_prefix header.length data) hchunks]
      exact congrArg some heq
    rw [if_neg htype] at hmsg ⊢
    exact hmsg

theorem message_decode_advances {buf rest : List Byte} {msg : Message} (h : message_decode buf = some (some msg, rest)) :
    ∃ header data, decode_header buf = some (header, data) ∧ 0 < header.length ∧
      4 + header.length ≤ buf.length ∧ rest = buf.drop (4 + header.length) := by
  rw [message_decode] at h
  cases hheader : decode_header buf with
  | none =>
    rw [hheader] at h
    cases h
  | some found =>
    obtain ⟨header, data⟩ := found
    obtain ⟨rfl, hfour, _⟩ := decode_header_eq_some hheader
    rw [hheader] at h
    dsimp only at h
    split at h
    · cases h
    split at h
    · cases h
    obtain ⟨found, _, hr⟩ := map_eq_some_iff.mp h
    rw [length_drop] at *
    cases hr
    refine ⟨header, _, rfl, by omega, by omega, ?_⟩
    rw [drop_drop]

theorem decode_times_bounded (n : Nat) {buf rest : List Byte} {msgs : List Message}
    (h : decode_times n buf = some (msgs.map some, rest)) : 8 * n + rest.length ≤ buf.length := by
  induction n generalizing buf msgs with
  | zero =>
    simp only [decode_times, some.injEq, Prod.mk.injEq] at h
    rw [h.2]
    omega
  | succ n ih =>
    simp only [decode_times, bind_eq_some_iff, map_eq_some_iff, Prod.mk.injEq] at h
    obtain ⟨⟨msg, middle⟩, hmsg, ⟨others, last⟩, hothers, hcons, rfl⟩ := h
    cases msgs with
    | nil => cases hcons
    | cons first later =>
      rw [map_cons, List.cons.injEq] at hcons
      dsimp only at hcons hothers
      rw [hcons.1] at hmsg
      rw [hcons.2] at hothers
      obtain ⟨header, data, hheader, hpos, hfits, rfl⟩ := message_decode_advances hmsg
      obtain ⟨_, _, _, words, hwords⟩ := decode_header_eq_some hheader
      have hrest := ih hothers
      rw [length_drop] at hrest
      omega

/-- Nothing but the message is read if and only if a source description is made of its
    chunks; then the octets behind it do not matter. The loop over the items ends by its
    own checks, a message is taken from the buffer as a whole, and the messages of a
    packet come to an end. -/
theorem decode_within_when (buf : List Byte) : (ReadsWithin buf ↔ Contained buf) ∧
    (∀ r, message_decode_within buf = some r → message_decode buf = some r) ∧
    (∀ item_type in_octets found, in_octets + 4 ≤ buf.length → (get_item item_type in_octets buf 0 found).isSome) ∧
    (∀ msg rest, message_decode buf = some (some msg, rest) → ∃ header data, decode_header buf = some (header, data) ∧
      4 + header.length ≤ buf.length ∧ rest = buf.drop (4 + header.length)) ∧
    ∀ n msgs rest, decode_times n buf = some (List.map some msgs, rest) → 8 * n + rest.length ≤ buf.length := by
  refine ⟨readsWithin_iff buf, fun r => message_decode_of_within, fun item_type in_octets found hlength => ?_,
    fun msg rest h => ?_, fun n msgs rest => decode_times_bounded n⟩
  · apply get_item_isSome item_type found <;> omega
  · obtain ⟨header, data, hheader, _, hfits, hrest⟩ := message_decode_advances h
    exact ⟨header, data, hheader, hfits, hrest⟩

/-- A source description whose name of six octets fills it: the items go on behind the
    message. -/
def filled : List Byte := [0x81, 202, 0, 3, 0, 0, 16, 26, 1, 6, 97, 108, 98, 101, 114, 103]

theorem filled_read_behind : ¬ ∀ buf, ReadsWithin buf := by
  intro h
  have hcontained := (readsWithin_iff filled).mp (h filled)
    { type := .source_desc, length := 12, count := 1 } (filled.drop 4) rfl rfl (by decide) (by decide) (by decide)
  have hwalk : ∃ outcome, Walk 8 [1, 6, 97, 108, 98, 101, 114, 103] 0 false outcome := by
    cases hcontained with
    | no_input hin => exact absurd hin (by decide)
    | refused _ _ hwalk => exact ⟨_, hwalk⟩
    | chunk _ _ hwalk _ => exact ⟨_, hwalk⟩
  obtain ⟨outcome, hwalk⟩ := hwalk
  cases hwalk with
  | no_input hin => exact absurd hin (by decide)
  | no_length hin => exact absurd hin (by decide)
  | overlong _ _ hlong => exact absurd hlong (by decide)
  | item _ _ _ hrest => exact absurd (hrest.length_pos (by decide)) (by decide)

end openvocs.rtcp
