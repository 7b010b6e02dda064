import Mathlib.Data.List.Forall2
import Openvocs.Lib.Bytes

/-!
A read behind the end of the buffer is `none`, a message that is refused is `some none`.
-/

open List Option
open bytes

namespace openvocs.rtcp

inductive MessageType where
  | invalid
  | sender_report
  | receiver_report
  | source_desc
  | bye
  deriving DecidableEq

def to_type (n : Byte) : MessageType :=
  if n = 200 then .sender_report
  else if n = 201 then .receiver_report
  else if n = 202 then .source_desc
  else if n = 203 then .bye
  else .invalid

structure Chunk where
  ssrc : BitVec 32 := 0
  cname : List Byte := []

/-- `ov_rtcp_message`, with the chunks of `sdes_message` that are set. -/
structure Message where
  len_octets : Nat
  type : MessageType
  chunks : List Chunk := []

def header_len_octets : Nat := 4

def max_num_chunks : Nat := 31

def cname_type : Byte := 1

/-- What a C string is of some octets. -/
def c_string (text : List Byte) : List Byte := text.takeWhile (· ≠ 0)

def pad_octets_to_align (num_unaligned_octets : Nat) : Nat := (4 - num_unaligned_octets % 4) % 4

def calculate_sdes_msg_len (cname : List Byte) : Nat :=
  4 + 2 + cname.length + pad_octets_to_align (4 + 2 + cname.length)

def message_sdes (cname : List Byte) (ssrc : BitVec 32) : Option Message :=
  if cname.length < 256 then
    some
      { len_octets := header_len_octets + calculate_sdes_msg_len cname
        type := .source_desc
        chunks := [{ ssrc, cname }] }
  else none

namespace Message

variable (self : Message)

def sdes_ssrc (chunk_index : Nat) : BitVec 32 :=
  if self.type = .source_desc ∧ chunk_index < max_num_chunks then (self.chunks[chunk_index]?.getD {}).ssrc else 0

def canonize_cname (cname : List Byte) : Option (List Byte) := if cname = [] then none else some cname

def sdes_cname (chunk_index : Nat) : Option (List Byte) :=
  if self.type = .source_desc ∧ chunk_index < max_num_chunks then
    canonize_cname (self.chunks[chunk_index]?.getD {}).cname
  else none

end Message

/-! ## Encoding

The parts of the encoder yield what they write and how much of the buffer is left. -/

def encode_header (self : Message) (out_len : Nat) : Option (List Byte × Nat) :=
  if 4 ≤ out_len then
    some ([0x81, 202] ++ be16 (BitVec.ofNat 16 ((self.len_octets - 4) / 4)), out_len - 4)
  else none

def encode_ssrc (ssrc : BitVec 32) (out_len : Nat) : Option (List Byte × Nat) :=
  if 4 ≤ out_len then some (be32 ssrc, out_len - 4) else none

def encode_cname_entry (cname : Option (List Byte)) (out_len : Nat) : Option (List Byte × Nat) :=
  match cname with
  | none => none
  | some cname =>
    if cname.length < 256 ∧ cname.length + 2 ≤ out_len then
      some ([cname_type, BitVec.ofNat 8 cname.length] ++ cname, out_len - (cname.length + 2))
    else none

/-- It is `none` when zeros are written behind the buffer. -/
def align_to_32_bit_boundary (consumed_octets out_len : Nat) : Option (List Byte × Nat) :=
  let num_octets_to_pad := pad_octets_to_align consumed_octets
  if num_octets_to_pad ≤ out_len then
    some (List.replicate num_octets_to_pad 0, out_len - num_octets_to_pad)
  else none

def encode_sdes (self : Message) (out_len : Nat) : Option (Option (List Byte × Nat)) :=
  match encode_ssrc (self.sdes_ssrc 0) out_len with
  | none => some none
  | some (ssrc, out_len) =>
    match encode_cname_entry (self.sdes_cname 0) out_len with
    | none => some none
    | some (entry, out_len) =>
      (align_to_32_bit_boundary (ssrc ++ entry).length out_len).map fun (padding, out_len) =>
        some (ssrc ++ entry ++ padding, out_len)

def encode_message (self : Message) (out_len : Nat) : Option (Option (List Byte × Nat)) :=
  match encode_header self out_len with
  | none => some none
  | some (header, out_len) =>
    match self.type with
    | .source_desc =>
      (encode_sdes self out_len).map fun encoded => encoded.map fun (payload, out_len) => (header ++ payload, out_len)
    | _ => some none

def calc_required_octets (msgs : List Message) : Nat :=
  if msgs.any (fun msg => decide (msg.len_octets < 4)) then 0 else (msgs.map Message.len_octets).sum

/-- The loop of `ov_rtcp_messages_encode`. -/
def encode_each : List Message → Nat → Option (Option (List Byte))
  | [], _ => some (some [])
  | msg :: msgs, out_len =>
    match encode_message msg out_len with
    | none => none
    | some none => some none
    | some (some (octets, out_len)) => (encode_each msgs out_len).map fun rest => rest.map (octets ++ ·)

def messages_encode (msgs : List Message) : Option (Option (List Byte)) :=
  if calc_required_octets msgs < 4 then some none else encode_each msgs (calc_required_octets msgs)

structure Header where
  type : MessageType
  length : Nat
  count : Nat

/-- `decode_header`. The count is cut to the 5 bits of its field. -/
def decode_header : List Byte → Option (Header × List Byte)
  | b0 :: b1 :: b2 :: b3 :: data =>
    if 0x80 ≠ b0 &&& 0xc0 then none
    else some ({ type := to_type b1, length := (b2 ++ b3 : BitVec 16).toNat * 4, count := (b0 &&& 0x8f).toNat % 32 }, data)
  | _ => none

/-- `skip_alignment`, on a length of type `size_t`. -/
def skip_alignment (data : List Byte) (num_octets consumed_octets : Nat) : List Byte × Nat :=
  (data.drop (consumed_octets % 4), (num_octets + 2 ^ 64 - consumed_octets % 4) % 2 ^ 64)

/-- `get_item`, with the text found so far. The number of octets never changes in
    the loop. -/
def get_item (item_type : Byte) (in_octets : Nat) (data : List Byte) (consumed_octets : Nat)
    (found : Option (List Byte)) : Option (Option (List Byte × List Byte × Nat)) :=
  if in_octets < 1 then some none
  else
    match data with
    | [] => none
    | type :: behind =>
      if type = 0 then
        some (found.map fun text => (text, skip_alignment (type :: behind) in_octets consumed_octets))
      else if in_octets < 2 then some none
      else
        match behind with
        | [] => none
        | len_item_octets :: body =>
          let len := len_item_octets.toNat
          if in_octets < len + consumed_octets then some none
          else if type = item_type ∧ body.length < len then none
          else
            get_item item_type in_octets (body.drop len) (consumed_octets + (2 + len))
              (if type = item_type then some (c_string (body.take len)) else found)
termination_by data.length
decreasing_by
  simp only [length_drop, length_cons]
  omega

def parse_chunk (data : List Byte) (num_octets chunk_index : Nat) : Option (Option (Chunk × List Byte × Nat)) :=
  if max_num_chunks ≤ chunk_index then some none
  else if num_octets < 4 then some none
  else
    (read32 data 0).bind fun ssrc =>
      (get_item cname_type (num_octets - 4) (data.drop 4) 0 none).map fun item =>
        item.map fun (cname, data, num_octets) => ({ ssrc, cname }, data, num_octets)

/-- `parse_chunks`, from the given index on. -/
def parse_chunks : Nat → Nat → List Byte → Nat → Option (Option (List Chunk))
  | 0, _, _, _ => some (some [])
  | num_chunks + 1, chunk_index, data, num_octets =>
    match parse_chunk data num_octets chunk_index with
    | none => none
    | some none => some none
    | some (some (chunk, data, num_octets)) =>
      (parse_chunks num_chunks (chunk_index + 1) data num_octets).map fun chunks => chunks.map (chunk :: ·)

def decode_sdes (header : Header) (data : List Byte) : Option (Option Message) :=
  if header.count = 0 then some (message_sdes [] 0)
  else
    (parse_chunks header.count 0 data data.length).map fun chunks =>
      chunks.map fun chunks => { len_octets := header_len_octets + header.length, type := .source_desc, chunks }

def decode_generic_message (header : Header) : Option Message :=
  if 4 ≤ header.length then some { len_octets := header_len_octets + header.length, type := header.type } else none

/-- `ov_rtcp_message_decode`, with the octets behind the message. -/
def message_decode (buf : List Byte) : Option (Option Message × List Byte) :=
  match decode_header buf with
  | none => some (none, buf)
  | some (header, data) =>
    if header.length = 0 then some (none, buf)
    else if data.length < header.length then some (none, buf)
    else
      let msg := if header.type = .source_desc then decode_sdes header data else some (decode_generic_message header)
      msg.map fun msg => (msg, data.drop header.length)

/-- A number of calls of `ov_rtcp_message_decode` in a row. -/
def decode_times : Nat → List Byte → Option (List (Option Message) × List Byte)
  | 0, buf => some ([], buf)
  | n + 1, buf =>
    (message_decode buf).bind fun (msg, rest) => (decode_times n rest).map fun (msgs, last) => (msg :: msgs, last)

/-! ## Items

The text of an item list: items up to a null octet. -/

structure Item where
  type : Byte
  text : List Byte

/-- The octets begin with the items and a null octet behind them. -/
inductive ItemList : List Byte → List Item → Prop
  | null (rest : List Byte) : ItemList (0 :: rest) []
  | item {type : Byte} {text rest : List Byte} {items : List Item} (htype : type ≠ 0) (hshort : text.length < 256)
      (hrest : ItemList rest items) :
      ItemList (type :: BitVec.ofNat 8 text.length :: (text ++ rest)) ({ type, text } :: items)

theorem ItemList.length_pos {data : List Byte} {items : List Item} (h : ItemList data items) : 0 < data.length := by
  cases h <;> simp

/-- The text of the last item of a type, or what was there before. -/
def last_text (item_type : Byte) (found : Option (List Byte)) (items : List Item) : Option (List Byte) :=
  items.foldl (fun found item => if item.type = item_type then some (c_string item.text) else found) found

theorem toNat_length {text : List Byte} (h : text.length < 256) : (BitVec.ofNat 8 text.length).toNat = text.length := by
  rw [BitVec.toNat_ofNat]
  omega

variable {consumed_octets : Nat} {in_octets : Nat}

theorem get_item_cons (item_type : Byte) {type : Byte} {text : List Byte} (rest : List Byte) (found : Option (List Byte)) (htype : type ≠ 0) (hshort : text.length < 256)
    (hoctets : consumed_octets + 2 + text.length ≤ in_octets) :
    get_item item_type in_octets (type :: BitVec.ofNat 8 text.length :: (text ++ rest)) consumed_octets found =
      get_item item_type in_octets rest (consumed_octets + (2 + text.length))
        (if type = item_type then some (c_string text) else found) := by
  rw [get_item.eq_def]
  have hone : ¬ in_octets < 1 := by omega
  have htwo : ¬ in_octets < 2 := by omega
  have hfits : ¬ in_octets < text.length + consumed_octets := by omega
  have hbody : ¬ (type = item_type ∧ (text ++ rest).length < text.length) := by
    rw [length_append]
    omega
  simp only [hone, if_false, htype, htwo, toNat_length hshort, hfits, hbody, drop_left, take_left]

theorem get_item_of_items {item_type : Byte} {data : List Byte} {items : List Item}
    (h : ItemList data items) (hoctets : consumed_octets + data.length ≤ in_octets)
    (found : Option (List Byte)) :
    ∃ rest, get_item item_type in_octets data consumed_octets found =
      some ((last_text item_type found items).map fun text => (text, rest)) := by
  induction h generalizing consumed_octets found with
  | null behind =>
    have hone : ¬ in_octets < 1 := by
      rw [length_cons] at hoctets
      omega
    rw [get_item.eq_def]
    simp only [hone, if_false, if_true]
    exact ⟨_, rfl⟩
  | item htype hshort hrest ih =>
    rename_i type text behind items
    simp only [length_cons, length_append] at hoctets
    rw [get_item_cons item_type behind found htype hshort (by omega)]
    exact ih (by omega) _

theorem items_of_get_item {item_type : Byte} {data : List Byte}
    {found : Option (List Byte)} {text rest : List Byte} {num_octets : Nat}
    (h : get_item item_type in_octets data consumed_octets found = some (some (text, rest, num_octets))) :
    ∃ items, ItemList data items ∧ last_text item_type found items = some text := by
  fun_induction get_item item_type in_octets data consumed_octets found with
  | case1 | case2 | case4 | case5 | case6 | case7 => simp at h
  | case3 consumed_octets found hone behind =>
    simp only [some.injEq, map_eq_some_iff, Prod.mk.injEq] at h
    obtain ⟨_, hfound, heq, _⟩ := h
    exact ⟨[], ItemList.null behind, by rw [last_text, foldl_nil, hfound, heq]⟩
  | case8 consumed_octets found hone type htype htwo len_item_octets body len hfits hbody ih =>
    simp only [dite_eq_ite] at ih
    obtain ⟨items, hitems, htext⟩ := ih h
    -- the walk ends inside of the data, so the text does too
    have hlength : len < body.length := by
      have hpos := hitems.length_pos
      rw [length_drop] at hpos
      omega
    have htake : (body.take len).length = len := by
      rw [length_take]
      omega
    have hshort : (body.take len).length < 256 := by
      rw [htake]
      exact len_item_octets.isLt
    have hitem := ItemList.item htype hshort hitems
    rw [htake, take_append_drop, BitVec.ofNat_toNat, BitVec.setWidth_eq] at hitem
    exact ⟨_, hitem, htext⟩

theorem get_item_eq_iff {item_type : Byte} {data : List Byte}
    (hoctets : consumed_octets + data.length ≤ in_octets) {found : Option (List Byte)} {text : List Byte} :
    (∃ rest, get_item item_type in_octets data consumed_octets found = some (some (text, rest))) ↔
      ∃ items, ItemList data items ∧ last_text item_type found items = some text := by
  constructor
  · rintro ⟨rest, h⟩
    exact items_of_get_item h
  rintro ⟨items, hitems, htext⟩
  obtain ⟨rest, hget⟩ := get_item_of_items hitems hoctets found
  rw [htext] at hget
  exact ⟨rest, hget⟩

/-- What `ov_rtcp_message_sdes` is called with. -/
structure Description where
  cname : List Byte
  ssrc : BitVec 32
  nonempty : cname ≠ []
  short : cname.length ≤ 255
  plain : 0 ∉ cname

namespace Description

variable (d : Description)

def message : Message where
  len_octets := header_len_octets + calculate_sdes_msg_len d.cname
  type := .source_desc
  chunks := [{ ssrc := d.ssrc, cname := d.cname }]

def padding : List Byte := List.replicate (pad_octets_to_align (4 + 2 + d.cname.length)) 0

/-- The items of the message. -/
def entry : List Byte := cname_type :: BitVec.ofNat 8 d.cname.length :: d.cname

/-- The octets of the message. -/
def octets : List Byte :=
  [0x81, 202] ++ be16 (BitVec.ofNat 16 (calculate_sdes_msg_len d.cname / 4)) ++ be32 d.ssrc ++ d.entry ++ d.padding

theorem message_sdes_eq : message_sdes d.cname d.ssrc = some d.message := by
  have hshort : d.cname.length < 256 := Nat.lt_succ_of_le d.short
  simp [message_sdes, hshort, message]

theorem aligned : calculate_sdes_msg_len d.cname % 4 = 0 := by
  simp only [calculate_sdes_msg_len, pad_octets_to_align]
  omega

theorem length_octets : d.octets.length = d.message.len_octets := by
  simp [octets, entry, padding, message, header_len_octets, calculate_sdes_msg_len]
  omega

theorem len_octets_eq : d.message.len_octets =
    8 + (2 + d.cname.length) + pad_octets_to_align (4 + 2 + d.cname.length) := by
  simp only [message, header_len_octets, calculate_sdes_msg_len]
  omega

theorem sdes_cname_message : d.message.sdes_cname 0 = some d.cname := by
  simp [message, Message.sdes_cname, Message.canonize_cname, max_num_chunks, d.nonempty]

theorem sdes_ssrc_message : d.message.sdes_ssrc 0 = d.ssrc := by
  simp [message, Message.sdes_ssrc, max_num_chunks]

theorem encode_message_eq {out_len : Nat} (h : d.message.len_octets ≤ out_len) :
    encode_message d.message out_len = some (some (d.octets, out_len - d.message.len_octets)) := by
  have hshort : d.cname.length < 256 := Nat.lt_succ_of_le d.short
  have hlen := d.len_octets_eq
  have hheader : encode_header d.message out_len =
      some ([0x81, 202] ++ be16 (BitVec.ofNat 16 (calculate_sdes_msg_len d.cname / 4)), out_len - 4) := by
    rw [encode_header, if_pos (by omega)]
    simp [message, header_len_octets]
  have hssrc : encode_ssrc d.ssrc (out_len - 4) = some (be32 d.ssrc, out_len - 8) := by
    rw [encode_ssrc, if_pos (by omega)]
    congr 2
  have hentry : encode_cname_entry (some d.cname) (out_len - 8) =
      some (d.entry, out_len - 8 - (d.cname.length + 2)) := by
    simp only [encode_cname_entry]
    rw [if_pos ⟨hshort, by omega⟩]
    rfl
  have hconsumed : (be32 d.ssrc ++ d.entry).length = 4 + 2 + d.cname.length := by
    simp [entry]
    omega
  have halign : align_to_32_bit_boundary (be32 d.ssrc ++ d.entry).length (out_len - 8 - (d.cname.length + 2)) =
      some (d.padding, out_len - d.message.len_octets) := by
    simp only [align_to_32_bit_boundary, hconsumed]
    rw [if_pos (by omega), padding]
    congr 2
    omega
  have hsdes : encode_sdes d.message (out_len - 4) =
      some (some (be32 d.ssrc ++ d.entry ++ d.padding, out_len - d.message.len_octets)) := by
    simp only [encode_sdes, sdes_ssrc_message, sdes_cname_message, hssrc, hentry, halign, map_some]
  have htype : d.message.type = .source_desc := rfl
  simp [encode_message, hheader, htype, hsdes, octets]

end Description

/-- The octets of some messages in a row. -/
def all_octets (ds : List Description) : List Byte := ds.flatMap Description.octets

theorem length_all_octets (ds : List Description) :
    (all_octets ds).length = ((ds.map Description.message).map Message.len_octets).sum := by
  induction ds with
  | nil => rfl
  | cons d ds ih =>
    simp only [all_octets, flatMap_cons, length_append, map_cons, List.sum_cons] at ih ⊢
    rw [ih, d.length_octets]

theorem encode_each_eq (ds : List Description) {out_len : Nat} (h : (all_octets ds).length ≤ out_len) :
    encode_each (ds.map Description.message) out_len = some (some (all_octets ds)) := by
  induction ds generalizing out_len with
  | nil => rfl
  | cons d ds ih =>
    have hsplit : (all_octets (d :: ds)).length = d.message.len_octets + (all_octets ds).length := by
      simp [all_octets, d.length_octets]
    rw [map_cons, encode_each, d.encode_message_eq (by omega)]
    simp only [ih (show (all_octets ds).length ≤ out_len - d.message.len_octets by omega), map_some]
    simp [all_octets]

theorem messages_encode_eq {ds : List Description} (h : ds ≠ []) :
    messages_encode (ds.map Description.message) = some (some (all_octets ds)) := by
  have hlong : ¬ (ds.map Description.message).any (fun msg => decide (msg.len_octets < 4)) = true := by
    simp only [List.any_map, List.any_eq_true, Function.comp, decide_eq_true_eq, not_exists, not_and]
    intro d _
    rw [d.len_octets_eq]
    omega
  have hrequired : calc_required_octets (ds.map Description.message) = (all_octets ds).length := by
    rw [calc_required_octets, if_neg hlong, length_all_octets]
  have hfour : 4 ≤ (all_octets ds).length := by
    obtain ⟨d, rest, rfl⟩ := exists_cons_of_ne_nil h
    have := d.len_octets_eq
    simp only [all_octets, flatMap_cons, length_append, d.length_octets]
    omega
  rw [messages_encode, hrequired, if_neg (by omega)]
  exact encode_each_eq ds (Nat.le_refl _)

variable (d : Description)

theorem decode_header_octets (rest : List Byte) : decode_header (d.octets ++ rest) =
      some ({ type := .source_desc, length := calculate_sdes_msg_len d.cname, count := 1 },
        be32 d.ssrc ++ (d.entry ++ (d.padding ++ rest))) := by
  have hwords : (BitVec.ofNat 16 (calculate_sdes_msg_len d.cname / 4)).toNat * 4 = calculate_sdes_msg_len d.cname := by
    have haligned := d.aligned
    have hshort := d.short
    have hbound : calculate_sdes_msg_len d.cname ≤ 264 := by
      simp only [calculate_sdes_msg_len, pad_octets_to_align]
      omega
    rw [BitVec.toNat_ofNat]
    omega
  have htype : to_type 202 = .source_desc := by decide
  have hcount : ((0x81 : Byte) &&& 0x8f).toNat % 32 = 1 := by decide
  have hversion : ¬ ((0x80 : Byte) ≠ 0x81 &&& 0xc0) := by decide
  simp only [Description.octets, be16, List.cons_append, nil_append, append_assoc, decode_header, hversion,
    if_false, htype, hcount, append_be16, hwords]

/-- The message that is decoded when a text is found. -/
def decoded (d : Description) (cname : List Byte) : Message where
  len_octets := header_len_octets + calculate_sdes_msg_len d.cname
  type := .source_desc
  chunks := [{ ssrc := d.ssrc, cname }]

theorem message_decode_octets (rest : List Byte) : message_decode (d.octets ++ rest) =
      (get_item cname_type (d.entry ++ (d.padding ++ rest)).length (d.entry ++ (d.padding ++ rest)) 0 none).map
        fun item => (item.map fun found => decoded d found.1, rest) := by
  have hpayload : (be32 d.ssrc ++ (d.entry ++ (d.padding ++ rest))).length =
      calculate_sdes_msg_len d.cname + rest.length := by
    simp [Description.entry, Description.padding, calculate_sdes_msg_len]
    omega
  have hpositive : ¬ calculate_sdes_msg_len d.cname = 0 := by
    rw [calculate_sdes_msg_len]
    omega
  have hread : read32 (be32 d.ssrc ++ (d.entry ++ (d.padding ++ rest))) 0 = some d.ssrc :=
    read32_eq_some.mpr (slice_mid [] (be32 d.ssrc) _ rfl rfl)
  have hbehind : (be32 d.ssrc ++ (d.entry ++ (d.padding ++ rest))).drop 4 = d.entry ++ (d.padding ++ rest) := rfl
  have hskip : (be32 d.ssrc ++ (d.entry ++ (d.padding ++ rest))).drop (calculate_sdes_msg_len d.cname) = rest := by
    have hfront : (be32 d.ssrc ++ d.entry ++ d.padding).length = calculate_sdes_msg_len d.cname := by
      simp [Description.entry, Description.padding, calculate_sdes_msg_len]
      omega
    rw [← append_assoc, ← append_assoc, ← hfront, drop_left]
  have hfour : ¬ (be32 d.ssrc ++ (d.entry ++ (d.padding ++ rest))).length < 4 := by simp [length_append]
  have hminus : (be32 d.ssrc ++ (d.entry ++ (d.padding ++ rest))).length - 4 = (d.entry ++ (d.padding ++ rest)).length := by
    simp [length_append]
  have hchunk : parse_chunk (be32 d.ssrc ++ (d.entry ++ (d.padding ++ rest)))
      (be32 d.ssrc ++ (d.entry ++ (d.padding ++ rest))).length 0 =
      (get_item cname_type (d.entry ++ (d.padding ++ rest)).length (d.entry ++ (d.padding ++ rest)) 0 none).map
        fun item => item.map fun (cname, data, num_octets) => ({ ssrc := d.ssrc, cname }, data, num_octets) := by
    rw [parse_chunk, if_neg (by decide), if_neg hfour, hread, hbehind, hminus]
    rfl
  simp only [message_decode, decode_header_octets, hpositive, if_false, hpayload]
  rw [if_neg (by omega)]
  simp only [if_true, hskip, decode_sdes]
  rw [if_neg (by decide)]
  simp only [parse_chunks, hchunk]
  generalize get_item cname_type (d.entry ++ (d.padding ++ rest)).length (d.entry ++ (d.padding ++ rest)) 0 none = item
  cases item with
  | none => rfl
  | some item => cases item <;> rfl

/-- The octets, read on as items, come to a null octet, and no other CNAME is found
    among them. -/
def Continued (d : Description) (rest : List Byte) : Prop :=
  ∃ items, ItemList rest items ∧ last_text cname_type (some d.cname) items = some d.cname

theorem c_string_eq {text : List Byte} (h : 0 ∉ text) : c_string text = text := by
  induction text with
  | nil => rfl
  | cons x text ih =>
    simp only [mem_cons, not_or] at h
    have hx : decide (x ≠ 0) = true := by simpa using Ne.symm h.1
    rw [c_string, takeWhile_cons, if_pos hx]
    exact congrArg (x :: ·) (ih h.2)

theorem get_item_entry_iff (rest : List Byte) :
    (∃ behind, get_item cname_type (d.entry ++ (d.padding ++ rest)).length (d.entry ++ (d.padding ++ rest)) 0 none =
      some (some (d.cname, behind))) ↔ (d.cname.length % 4 = 2 → Continued d rest) := by
  have hlength : (d.entry ++ (d.padding ++ rest)).length = 0 + (2 + d.cname.length) + (d.padding ++ rest).length := by
    simp only [Description.entry, length_append, length_cons]
    omega
  generalize hoctets : (d.entry ++ (d.padding ++ rest)).length = in_octets at hlength
  have hfirst : get_item cname_type in_octets (d.entry ++ (d.padding ++ rest)) 0 none =
      get_item cname_type in_octets (d.padding ++ rest) (0 + (2 + d.cname.length)) (some d.cname) := by
    have hcons := get_item_cons cname_type (d.padding ++ rest) none (by decide : cname_type ≠ 0)
      (Nat.lt_succ_of_le d.short) (by omega : 0 + 2 + d.cname.length ≤ in_octets)
    rwa [if_pos rfl, c_string_eq d.plain] at hcons
  rw [hfirst, get_item_eq_iff (by omega)]
  by_cases htwo : d.cname.length % 4 = 2
  · have hpadding : d.padding = [] := by
      rw [Description.padding, show pad_octets_to_align (4 + 2 + d.cname.length) = 0 by
        rw [pad_octets_to_align]; omega]
      rfl
    simp [hpadding, Continued, htwo]
  -- the padding begins with a null octet
  obtain ⟨n, hn⟩ : ∃ n, pad_octets_to_align (4 + 2 + d.cname.length) = n + 1 :=
    Nat.exists_eq_add_one.mpr (by rw [pad_octets_to_align]; omega)
  have hpadding : d.padding ++ rest = 0 :: (List.replicate n 0 ++ rest) := by
    rw [Description.padding, hn, replicate_succ, List.cons_append]
  rw [hpadding]
  exact ⟨fun _ h => absurd h htwo, fun _ => ⟨[], ItemList.null _, rfl⟩⟩

/-- The message has the name and the source of the description. -/
def Message.Describes (self : Message) (d : Description) : Prop :=
  self.sdes_cname 0 = some d.cname ∧ self.sdes_ssrc 0 = d.ssrc

theorem decoded_describes {d : Description} {cname : List Byte} : (decoded d cname).Describes d ↔ cname = d.cname := by
  have hssrc : (decoded d cname).sdes_ssrc 0 = d.ssrc := by simp [decoded, Message.sdes_ssrc, max_num_chunks]
  have hcname : (decoded d cname).sdes_cname 0 = Message.canonize_cname cname := by
    simp [decoded, Message.sdes_cname, max_num_chunks]
  simp only [Message.Describes, hssrc, hcname, Message.canonize_cname, and_true]
  by_cases hempty : cname = []
  · simp [hempty, d.nonempty.symm]
  · simp [hempty]

theorem message_decode_iff (rest : List Byte) :
    (∃ msg, message_decode (d.octets ++ rest) = some (some msg, rest) ∧ msg.Describes d) ↔
      (d.cname.length % 4 = 2 → Continued d rest) := by
  rw [← get_item_entry_iff, message_decode_octets]
  constructor
  · rintro ⟨msg, hdecode, hdescribes⟩
    simp only [map_eq_some_iff, Prod.mk.injEq] at hdecode
    obtain ⟨item, hitem, ⟨⟨cname, behind⟩, hfound, hmsg⟩, _⟩ := hdecode
    rw [← hmsg, decoded_describes] at hdescribes
    exact ⟨behind, by rw [hitem, hfound, ← hdescribes]⟩
  rintro ⟨behind, hitem⟩
  exact ⟨decoded d d.cname, by rw [hitem]; rfl, decoded_describes.mpr rfl⟩

theorem message_decode_rest {d : Description} {rest last : List Byte} {msg : Option Message}
    (h : message_decode (d.octets ++ rest) = some (msg, last)) : last = rest := by
  rw [message_decode_octets] at h
  simp only [map_eq_some_iff, Prod.mk.injEq] at h
  obtain ⟨_, _, _, hrest⟩ := h
  exact hrest.symm

theorem decode_times_iff (ds : List Description) :
    (∃ msgs, decode_times ds.length (all_octets ds) = some (msgs.map some, []) ∧
      List.Forall₂ Message.Describes msgs ds) ↔
      ∀ d after, d :: after <:+ ds → d.cname.length % 4 = 2 → Continued d (all_octets after) := by
  induction ds with
  | nil => simp [decode_times, all_octets]
  | cons d ds ih =>
    have hsplit : all_octets (d :: ds) = d.octets ++ all_octets ds := by simp [all_octets]
    have hsuffix : (∀ e after, e :: after <:+ d :: ds → e.cname.length % 4 = 2 → Continued e (all_octets after)) ↔
        (d.cname.length % 4 = 2 → Continued d (all_octets ds)) ∧
          ∀ e after, e :: after <:+ ds → e.cname.length % 4 = 2 → Continued e (all_octets after) := by
      constructor
      · intro h
        exact ⟨h d ds (suffix_refl _), fun e after he => h e after (he.trans (suffix_cons d ds))⟩
      rintro ⟨hd, hds⟩ e after he
      rw [suffix_cons_iff] at he
      obtain heq | hlater := he
      · simp only [List.cons.injEq] at heq
        rw [heq.1, heq.2]
        exact hd
      · exact hds e after hlater
    rw [hsuffix, ← message_decode_iff, ← ih, hsplit, length_cons]
    constructor
    · rintro ⟨msgs, hdecode, hdescribes⟩
      simp only [decode_times, bind_eq_some_iff, map_eq_some_iff, Prod.mk.injEq] at hdecode
      obtain ⟨⟨msg, rest⟩, hmsg, ⟨others, last⟩, hothers, hcons, hlast⟩ := hdecode
      have hrest := message_decode_rest hmsg
      cases hdescribes with
      | cons hfirst hlater =>
        rename_i first later
        simp only [map_cons, List.cons.injEq] at hcons
        refine ⟨⟨first, ?_, hfirst⟩, later, ?_, hlater⟩
        · rw [hmsg, hcons.1, hrest]
        rw [← hrest, hothers, hcons.2]
        exact congrArg (fun l => some (later.map some, l)) hlast
    rintro ⟨⟨msg, hmsg, hfirst⟩, msgs, hmsgs, hlater⟩
    exact ⟨msg :: msgs, by simp [decode_times, hmsg, hmsgs], List.Forall₂.cons hfirst hlater⟩

/-- The messages are made and encoded in as many octets as they say, and as many
    calls of the decoder return them and consume all octets. -/
def RoundTrip (ds : List Description) : Prop :=
  ∃ msgs buffer decoded, ds.map (fun d => message_sdes d.cname d.ssrc) = msgs.map some ∧
    messages_encode msgs = some (some buffer) ∧ buffer.length = (msgs.map Message.len_octets).sum ∧
    decode_times ds.length buffer = some (decoded.map some, []) ∧ List.Forall₂ Message.Describes decoded ds

theorem roundTrip_iff_decode_times {ds : List Description} (h : ds ≠ []) :
    RoundTrip ds ↔ ∃ decoded, decode_times ds.length (all_octets ds) = some (decoded.map some, []) ∧
      List.Forall₂ Message.Describes decoded ds := by
  have hmake : ds.map (fun d => message_sdes d.cname d.ssrc) = (ds.map Description.message).map some := by
    simp [Description.message_sdes_eq]
  constructor
  · rintro ⟨msgs, buffer, decoded, hmsgs, hencode, _, hdecode, hdescribes⟩
    have hmessages : ds.map Description.message = msgs :=
      map_injective_iff.mpr (fun _ _ => some.inj) (hmake.symm.trans hmsgs)
    rw [← hmessages, messages_encode_eq h] at hencode
    simp only [some.injEq] at hencode
    exact ⟨decoded, hencode ▸ hdecode, hdescribes⟩
  rintro ⟨decoded, hdecode, hdescribes⟩
  exact ⟨_, _, decoded, hmake, messages_encode_eq h, length_all_octets ds, hdecode, hdescribes⟩

/-- The round trip works exactly when behind every message without padding the
    other messages happen to read like the end of its items. -/
theorem sdes_round_trip_iff (ds : List Description) (h : ds ≠ []) : RoundTrip ds ↔
      ∀ d after, d :: after <:+ ds → d.cname.length % 4 = 2 → Continued d (all_octets after) := by
  rw [roundTrip_iff_decode_times h]
  exact decode_times_iff ds

def albergt : Description where
  cname := [97, 108, 98, 101, 114, 103, 116]
  ssrc := 1922222
  nonempty := by decide
  short := by decide
  plain := by decide

def belbert : Description where
  cname := [98, 101, 108, 98, 101, 114, 116]
  ssrc := 3
  nonempty := by decide
  short := by decide
  plain := by decide

theorem sdes_round_trip_albergt_belbert : [albergt, belbert] ≠ [] ∧ RoundTrip [albergt, belbert] := by
  refine ⟨by simp, (sdes_round_trip_iff [albergt, belbert] (by simp)).mpr fun d after hsuffix htwo => ?_⟩
  have hmem : d ∈ [albergt, belbert] := hsuffix.subset (mem_cons_self)
  simp only [mem_cons, not_mem_nil, or_false] at hmem
  obtain rfl | rfl := hmem <;> exact absurd htwo (by decide)

def alberg : Description where
  cname := [97, 108, 98, 101, 114, 103]
  ssrc := 4122
  nonempty := by decide
  short := by decide
  plain := by decide

/-- The name of six octets fills its message, and the decoder reads on behind the
    buffer. -/
theorem alberg_read_behind_end : ¬ RoundTrip [alberg] := by
  rw [roundTrip_iff_decode_times (by simp), decode_times_iff]
  intro h
  obtain ⟨items, hitems, _⟩ := h alberg [] (suffix_refl _) (by decide)
  have hlength := hitems.length_pos
  simp [all_octets] at hlength

end openvocs.rtcp
