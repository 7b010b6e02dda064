import Openvocs.Sip.Serialize

open List Option

namespace openvocs.sip

open cstring reader

/-- The name of a header that a caller may set. -/
def IsName (s : Text) : Prop := colon ∉ s ∧ sp ∉ s ∧ cr ∉ s ∧ lf ∉ s ∧ 0 ∉ s

/-- The value of a header that a caller may set. -/
def IsValue (s : Text) : Prop := trim s = s ∧ cr ∉ s ∧ lf ∉ s ∧ 0 ∉ s

instance (s : Text) : Decidable (IsName s) := inferInstanceAs (Decidable (_ ∧ _ ∧ _ ∧ _ ∧ _))

instance (s : Text) : Decidable (IsValue s) := inferInstanceAs (Decidable (_ ∧ _ ∧ _ ∧ _))

/-- The start line that a caller may give. -/
def Start.Plain : Start → Prop
  | .request method uri =>
    (sp ∉ method ∧ cr ∉ method ∧ lf ∉ method ∧ 0 ∉ method) ∧ (sp ∉ uri ∧ cr ∉ uri ∧ lf ∉ uri ∧ 0 ∉ uri)
  | .response code reason => (100 ≤ code ∧ code ≤ 699) ∧ (cr ∉ reason ∧ lf ∉ reason ∧ 0 ∉ reason)

instance : ∀ start : Start, Decidable start.Plain
  | .request _ _ => inferInstanceAs (Decidable ((_ ∧ _ ∧ _ ∧ _) ∧ (_ ∧ _ ∧ _ ∧ _)))
  | .response _ _ => inferInstanceAs (Decidable ((_ ∧ _) ∧ (_ ∧ _ ∧ _)))

/-- What a caller gives for a message. The body comes with its type, and is set last. -/
structure Draft where
  start : Start
  headers : List (Text × Text)
  body : Option (Text × Text)
  plain : start.Plain
  pairs : ∀ header ∈ headers, IsName header.1 ∧ IsValue header.2
  type : ∀ content ∈ body, IsValue content.2

namespace Draft

variable (draft : Draft)

/-- The value of a header before the body is set. -/
def setting (name : Text) : Option Text := latest draft.headers name (default_field name)

/-- The value of a header. -/
def header (name : Text) : Option Text :=
  match draft.body with
  | none => draft.setting name
  | some (body, type) =>
    if name = header_content_type then some type
    else if name = header_content_length then some (decimal body.length)
    else draft.setting name

def value (name : Text) : Text := (draft.header name).getD []

/-- The octets of the body. -/
def octets : Text := (draft.body.map Prod.fst).getD []

/-- A value that the message keeps. -/
def kept (name : Text) : Bool := decide ((draft.value name).length < string_default_size)

variable (bucket : Text → Nat)

/-- The message that is built. -/
def message : Message :=
  let message := fresh_message bucket (draft.start.kept ov_string_dup)
  let message := { message with headers := filled bucket draft.headers message.headers }
  match draft.body with
  | none => message
  | some (body, type) => body_set bucket message body type

/-- The names of the headers, in the order of the table. -/
def names : List Text := (draft.message bucket).headers.keys

/-- The line of a header. -/
def line (name : Text) : Text := header_line name (draft.value name)

def lines : List Text := (draft.names bucket).map draft.line

/-- The complete text of the message. -/
def text : Text := head draft.start.text (draft.lines bucket) ++ draft.octets

/-- The text up to the first header whose value was lost. -/
def headed : Text :=
  draft.start.text ++ crlf ++ (((draft.names bucket).takeWhile draft.kept).map draft.line).flatMap (· ++ crlf)

end Draft

section

variable (bucket : Text → Nat) (draft : Draft)

theorem get_message (name : Text) :
    (draft.message bucket).headers.get name = (draft.header name).map ov_string_dup := by
  have hfilled : (filled bucket draft.headers
      (fresh_message bucket (draft.start.kept ov_string_dup)).headers).get name =
      (draft.setting name).map ov_string_dup := by
    apply get_filled
    exact get_built bucket (draft.start.kept ov_string_dup) [] name
  rw [Draft.message, Draft.header]
  cases draft.body with
  | none => exact hfilled
  | some content =>
    simp only [get_body_set, hfilled]
    by_cases htype : name = header_content_type
    · rw [if_pos htype, if_pos htype, map_some]
    by_cases hlength : name = header_content_length
    · rw [if_neg htype, if_neg htype, if_pos hlength, if_pos hlength, map_some]
    · rw [if_neg htype, if_neg htype, if_neg hlength, if_neg hlength]

theorem message_start : (draft.message bucket).start = draft.start.kept ov_string_dup := by
  rw [Draft.message]
  cases draft.body <;> rfl

theorem message_body : (draft.message bucket).body = draft.body.map Prod.fst := by
  rw [Draft.message]
  cases draft.body <;> rfl

theorem mem_names_iff (name : Text) : name ∈ draft.names bucket ↔ draft.header name ≠ none := by
  rw [Draft.names, Dict.mem_keys_iff, get_message, ne_eq, ne_eq, map_eq_none_iff]

theorem mem_entries {entry : Text × Option Text} (h : entry ∈ (draft.message bucket).headers.entries) :
    entry.2 = ov_string_dup (draft.value entry.1) := by
  have hget := Dict.mem_entries_iff.mp (show (entry.1, entry.2) ∈ _ from h)
  rw [get_message, map_eq_some_iff] at hget
  obtain ⟨value, hvalue, hentry⟩ := hget
  rw [Draft.value, hvalue, getD_some, hentry]

theorem header_text_eq {entries : List (Text × Option Text)}
    (h : ∀ entry ∈ entries, entry.2 = ov_string_dup (draft.value entry.1)) :
    header_text entries = (((entries.map Prod.fst).takeWhile draft.kept).map draft.line).flatMap (· ++ crlf) := by
  induction entries with
  | nil => rfl
  | cons entry entries ih =>
    obtain ⟨name, value⟩ := entry
    have hvalue : value = ov_string_dup (draft.value name) := h (name, value) mem_cons_self
    have hrest := ih fun other hmem => h other (mem_cons_of_mem _ hmem)
    by_cases hshort : (draft.value name).length < string_default_size
    · have hkept : draft.kept name = true := decide_eq_true hshort
      rw [hvalue, ov_string_dup_short hshort, header_text, hrest, map_cons, takeWhile_cons_of_pos hkept,
        map_cons, flatMap_cons]
      rfl
    have hlost : ¬ draft.kept name = true := by simpa [Draft.kept] using hshort
    rw [hvalue, ov_string_dup, if_neg hshort, header_text, map_cons, takeWhile_cons_of_neg hlost]
    rfl

theorem serialize_start_line_kept {start : Start} (hplain : start.Plain) :
    serialize_start_line (start.kept ov_string_dup) = if start.Storable then some (start.text ++ crlf) else none := by
  cases start with
  | request method uri =>
    rw [Start.kept, ov_string_dup, ov_string_dup]
    by_cases hmethod : method.length < string_default_size
    · by_cases huri : uri.length < string_default_size
      · rw [if_pos hmethod, if_pos huri, if_pos (show Start.Storable (.request method uri) from ⟨hmethod, huri⟩)]
        rfl
      rw [if_pos hmethod, if_neg huri, if_neg fun h : Start.Storable (.request method uri) => huri h.2]
      rfl
    rw [if_neg hmethod, if_neg fun h : Start.Storable (.request method uri) => hmethod h.1]
    rfl
  | response code reason =>
    have hplaces : 3 - (decimal code).length = 0 := by
      have hlong : 2 < (decimal code).length := lt_length_decimal (Nat.le_trans (by decide) hplain.1.1)
      omega
    rw [Start.kept, ov_string_dup]
    by_cases hreason : reason.length < string_default_size
    · rw [if_pos hreason, if_pos (show Start.Storable (.response code reason) from hreason), serialize_start_line,
        hplaces]
      rfl
    rw [if_neg hreason, if_neg fun h : Start.Storable (.response code reason) => hreason h]
    rfl

/-- All values of the headers are kept. -/
def Draft.Kept : Prop := ∀ name ∈ draft.names bucket, draft.kept name = true

instance : Decidable (draft.Kept bucket) := inferInstanceAs (Decidable (∀ name ∈ draft.names bucket, _))

theorem impl_serialize_draft (hstart : draft.start.Storable) : impl_serialize (draft.message bucket) = some (
      if buffer_size < (draft.headed bucket).length then (false, none)
      else if buffer_size < (draft.headed bucket).length + 2 then (true, none)
      else if buffer_size < (draft.headed bucket).length + 2 + draft.octets.length then (false, none)
      else (true, some (draft.headed bucket ++ crlf ++ draft.octets))) := by
  have hline : serialize_start_line (draft.message bucket).start = some (draft.start.text ++ crlf) := by
    rw [message_start, serialize_start_line_kept draft.plain, if_pos hstart]
  have htext : draft.start.text ++ crlf ++ header_text (draft.message bucket).headers.entries = draft.headed bucket := by
    rw [header_text_eq draft fun entry hmem => mem_entries bucket draft hmem]
    rfl
  have hbody : (draft.message bucket).body.getD [] = draft.octets := by rw [message_body, Draft.octets]
  rw [impl_serialize_eq hline, htext, hbody]

theorem impl_serialize_no_start (hstart : ¬ draft.start.Storable) :
    impl_serialize (draft.message bucket) = some (false, none) := by
  rw [impl_serialize, message_start, serialize_start_line_kept draft.plain, if_neg hstart]

theorem headed_eq_text_iff : draft.headed bucket ++ crlf ++ draft.octets = draft.text bucket ↔ draft.Kept bucket := by
  constructor
  · intro heq name hmem
    by_contra hlost
    have hsplit := takeWhile_append_dropWhile (p := draft.kept) (l := draft.names bucket)
    have hne : (draft.names bucket).dropWhile draft.kept ≠ [] := by
      rw [ne_eq, dropWhile_eq_nil_iff]
      exact fun hall => hlost (hall name hmem)
    obtain ⟨first, rest, hrest⟩ := exists_cons_of_ne_nil hne
    have hlength := congrArg List.length heq
    rw [Draft.text, head, Draft.lines, ← hsplit, hrest, Draft.headed] at hlength
    simp only [map_append, flatMap_append, map_cons, flatMap_cons, length_append] at hlength
    have hcrlf : crlf.length = 2 := rfl
    omega
  intro hkept
  have hall : (draft.names bucket).takeWhile draft.kept = draft.names bucket :=
    takeWhile_eq_self_iff.mpr hkept
  rw [Draft.text, head, Draft.headed, hall]
  rfl

/-- The text was written, and nothing else, if and only if the result says so. -/
def Draft.Written : Prop :=
  ∀ result sent, impl_serialize (draft.message bucket) = some (result, sent) →
    (result = true ↔ sent = some (draft.text bucket))

/-- The start line and the headers up to the first value that was lost leave room for the
    empty line, and nothing was lost if the body has room, too. Or nothing is written anyway. -/
def Draft.Honest : Prop :=
  ¬ draft.start.Storable ∨ buffer_size < (draft.headed bucket).length ∨
    ((draft.headed bucket).length + 2 ≤ buffer_size ∧
      (draft.Kept bucket ∨ buffer_size < (draft.headed bucket).length + 2 + draft.octets.length))

/-- Nothing was lost, and there is room for the whole text. -/
def Draft.Sent : Prop :=
  draft.start.Storable ∧ draft.Kept bucket ∧ (draft.headed bucket).length + 2 + draft.octets.length ≤ buffer_size

theorem written_iff_honest : draft.Written bucket ↔ draft.Honest bucket := by
  by_cases hstart : draft.start.Storable
  · rw [Draft.Written, impl_serialize_draft bucket draft hstart, Draft.Honest]
    by_cases hlong : buffer_size < (draft.headed bucket).length
    · simp [hlong]
    by_cases hline : buffer_size < (draft.headed bucket).length + 2
    · have hnot : ¬ (draft.headed bucket).length + 2 ≤ buffer_size := by omega
      simp [hlong, hline, hnot, hstart]
    have hroom : (draft.headed bucket).length + 2 ≤ buffer_size := by omega
    by_cases hbody : buffer_size < (draft.headed bucket).length + 2 + draft.octets.length
    · simp [hlong, hline, hbody, hroom]
    have htext := headed_eq_text_iff bucket draft
    simp [hlong, hline, hbody, hroom, hstart, ← htext]
  · simp [Draft.Written, Draft.Honest, impl_serialize_no_start bucket draft hstart, hstart]

theorem sent_iff (result : Bool) :
    impl_serialize (draft.message bucket) = some (result, some (draft.text bucket)) ↔
      result = true ∧ draft.Sent bucket := by
  by_cases hstart : draft.start.Storable
  · rw [impl_serialize_draft bucket draft hstart, Draft.Sent]
    by_cases hroom : (draft.headed bucket).length + 2 + draft.octets.length ≤ buffer_size
    · rw [if_neg (by omega), if_neg (by omega), if_neg (by omega), some.injEq, Prod.mk.injEq,
        some.injEq, headed_eq_text_iff]
      constructor
      · exact fun h => ⟨h.1.symm, hstart, h.2, hroom⟩
      · exact fun h => ⟨h.1.symm, h.2.2.1⟩
    constructor
    · intro h
      rw [some.injEq] at h
      split_ifs at h <;> simp at h
      omega
    · exact fun h => absurd h.2.2.2 hroom
  rw [impl_serialize_no_start bucket draft hstart, Draft.Sent]
  simp [hstart]

end

theorem trim_of_no_space {s : Text} (h : sp ∉ s) : trim s = s := by
  have hdrop : s.rdropWhile (· = sp) = s := by
    rw [rdropWhile_eq_self_iff]
    intro hne hlast
    exact h (of_decide_eq_true hlast ▸ getLast_mem hne)
  rw [trim, hdrop]
  cases s with
  | nil => rfl
  | cons c s =>
    apply dropWhile_cons_of_neg
    simp only [decide_eq_true_eq]
    exact fun heq => h (heq ▸ mem_cons_self)

theorem trim_cons_space (s : Text) : trim (sp :: s) = trim s := by
  rw [← rdropWhile_dropWhile, ← rdropWhile_dropWhile, dropWhile_cons_of_pos (by simp)]

theorem parts_header_line {name value : Text} (hname : IsName name) (hvalue : IsValue value) :
    parts (header_line name value) = (name, value) := by
  have hne : ∀ c ∈ name, decide (c ≠ colon) = true := by
    intro c hc
    simp only [decide_eq_true_eq]
    exact fun heq => hname.1 (heq ▸ hc)
  rw [parts, header_name, header_value, header_line, takeWhile_append_of_pos hne,
    dropWhile_append_of_pos hne, takeWhile_cons_of_neg (by simp), dropWhile_cons_of_neg (by simp),
    List.append_nil, tail_cons, trim_cons_space, trim_of_no_space hname.2.1, hvalue.1]

theorem isName_content_length : IsName header_content_length := by decide +kernel

theorem isName_content_type : IsName header_content_type := by decide +kernel

theorem isValue_decimal (n : Nat) : IsValue (decimal n) := by
  have hdigit := (isNumber_decimal n).2
  have hnot : ∀ c : Byte, is_digit c = false → c ∉ decimal n := by
    intro c hc hmem
    rw [hdigit c hmem] at hc
    simp at hc
  exact ⟨trim_of_no_space (hnot sp (by decide)), hnot cr (by decide), hnot lf (by decide), hnot 0 (by decide)⟩

theorem setting_valid {draft : Draft} {name value : Text} (h : draft.setting name = some value) :
    IsName name ∧ IsValue value := by
  obtain hmem | hdefault := latest_eq_some h
  · exact draft.pairs (name, value) hmem
  obtain ⟨rfl, rfl⟩ := default_field_eq_some hdefault
  exact ⟨isName_content_length, by decide +kernel⟩

theorem header_valid {draft : Draft} {name value : Text} (h : draft.header name = some value) :
    IsName name ∧ IsValue value := by
  rw [Draft.header] at h
  cases hbody : draft.body with
  | none =>
    rw [hbody] at h
    exact setting_valid h
  | some content =>
    rw [hbody] at h
    simp only at h
    by_cases htype : name = header_content_type
    · rw [if_pos htype, some.injEq] at h
      rw [htype, ← h]
      exact ⟨isName_content_type, draft.type content hbody⟩
    by_cases hlength : name = header_content_length
    · rw [if_neg htype, if_pos hlength, some.injEq] at h
      rw [hlength, ← h]
      exact ⟨isName_content_length, isValue_decimal _⟩
    rw [if_neg htype, if_neg hlength] at h
    exact setting_valid h

theorem header_content_length_ne_none (draft : Draft) : draft.header header_content_length ≠ none := by
  have hsetting : draft.setting header_content_length ≠ none := by
    apply latest_ne_none
    rw [default_field, if_pos rfl]
    simp
  rw [Draft.header]
  cases draft.body with
  | none => exact hsetting
  | some content => simp [show header_content_length ≠ header_content_type by decide]

theorem isLine_of_no_lf {line : Text} (hlength : line.length ≤ 998) (hzero : 0 ∉ line) (hlf : lf ∉ line) :
    IsLine line := by
  refine ⟨hlength, hzero, fun hpart => hlf (hpart.subset ?_)⟩
  simp [crlf]

theorem not_mem_spaced {c : Byte} {a b d : Text} (hsp : c ≠ sp) (ha : c ∉ a) (hb : c ∉ b) (hd : c ∉ d) :
    c ∉ a ++ sp :: (b ++ sp :: d) := by
  simp only [mem_append, mem_cons, not_or]
  exact ⟨ha, hsp, hb, hsp, hd⟩

theorem Start.isLine {start : Start} (h : start.Plain) (hlength : start.text.length ≤ 998) : IsLine start.text := by
  cases start with
  | request method uri =>
    obtain ⟨⟨-, -, hlf, hzero⟩, -, -, hlf', hzero'⟩ := h
    apply isLine_of_no_lf hlength
    · exact not_mem_spaced (by decide) hzero hzero' (by decide)
    · exact not_mem_spaced (by decide) hlf hlf' (by decide)
  | response code reason =>
    obtain ⟨-, -, hlf, hzero⟩ := h
    obtain ⟨-, -, hlf', hzero'⟩ := isValue_decimal code
    apply isLine_of_no_lf hlength
    · exact not_mem_spaced (by decide) (by decide) hzero' hzero
    · exact not_mem_spaced (by decide) (by decide) hlf' hlf

theorem Start.valid_of_plain {start : Start} (h : start.Plain)
    (hmethod : ∀ method uri, start = .request method uri → method ≠ sip_version) : start.Valid := by
  cases start with
  | request method uri => exact ⟨h.1.1, h.2.1, hmethod method uri rfl⟩
  | response code reason => exact h.1

theorem not_mem_header_line {c : Byte} {name value : Text} (hcolon : c ≠ colon) (hsp : c ≠ sp) (hname : c ∉ name)
    (hvalue : c ∉ value) : c ∉ header_line name value := by
  simp only [header_line, mem_append, mem_cons, not_or]
  exact ⟨hname, hcolon, hsp, hvalue⟩

section

variable {bucket : Text → Nat} {draft : Draft}

theorem line_of_name {name : Text} (hmem : name ∈ draft.names bucket) :
    parts (draft.line name) = (name, draft.value name) ∧ colon ∈ draft.line name ∧ 0 ∉ draft.line name ∧
      lf ∉ draft.line name := by
  obtain ⟨value, hvalue⟩ := ne_none_iff_exists'.mp ((mem_names_iff bucket draft name).mp hmem)
  obtain ⟨hname, hvalid⟩ := header_valid hvalue
  rw [Draft.line, Draft.value, hvalue, getD_some]
  refine ⟨parts_header_line hname hvalid, ?_, ?_, ?_⟩
  · simp [header_line]
  · exact not_mem_header_line (by decide) (by decide) hname.2.2.2.2 hvalid.2.2.2
  · exact not_mem_header_line (by decide) (by decide) hname.2.2.2.1 hvalid.2.2.1

theorem isLine_lines (hlines : ∀ line ∈ draft.lines bucket, line.length ≤ 998) :
    ∀ line ∈ draft.lines bucket, IsLine line ∧ colon ∈ line := by
  intro line hmem
  obtain ⟨name, hname, rfl⟩ := List.mem_map.mp hmem
  obtain ⟨-, hcolon, hzero, hlf⟩ := line_of_name hname
  exact ⟨isLine_of_no_lf (hlines _ hmem) hzero hlf, hcolon⟩

theorem field_lines (name : Text) : field (draft.lines bucket) name = draft.header name := by
  have hfold : ∀ (names : List Text), (∀ other ∈ names, other ∈ draft.names bucket) → ∀ found,
      latest ((names.map draft.line).map parts) name found =
        if name ∈ names then some (draft.value name) else found := by
    intro names
    induction names with
    | nil => exact fun _ _ => rfl
    | cons other names ih =>
      intro hnames found
      have hparts := (line_of_name (hnames other mem_cons_self)).1
      rw [map_cons, map_cons, latest, foldl_cons, ← latest, hparts,
        ih fun other hmem => hnames other (mem_cons_of_mem _ hmem)]
      by_cases hmem : name ∈ names
      · rw [if_pos hmem, if_pos (mem_cons_of_mem _ hmem)]
      by_cases hother : other = name
      · rw [if_neg hmem, if_pos hother, hother, if_pos mem_cons_self]
      have hnot : name ∉ other :: names := by simpa using ⟨Ne.symm hother, hmem⟩
      rw [if_neg hmem, if_neg hother, if_neg hnot]
  rw [field, Draft.lines, hfold _ fun other hmem => hmem]
  by_cases hmem : name ∈ draft.names bucket
  · obtain ⟨value, hvalue⟩ := ne_none_iff_exists'.mp ((mem_names_iff bucket draft name).mp hmem)
    rw [if_pos hmem, Draft.value, hvalue, getD_some]
  have hnone : draft.header name = none := by
    by_contra hsome
    exact hmem ((mem_names_iff bucket draft name).mpr hsome)
  have hname : name ≠ header_content_length := fun heq => header_content_length_ne_none draft (heq ▸ hnone)
  rw [if_neg hmem, hnone, default_field, if_neg hname]

end

/-- The message has the same content. The order of the headers does not count. -/
structure Same (message other : Message) : Prop where
  start : message.start = other.start
  headers : ∀ name, message.headers.get name = other.headers.get name
  body : message.body = other.body

section

variable (bucket : Text → Nat) (draft : Draft)

/-- The text is read back as the message it was written for. -/
def Draft.Parsed : Prop :=
  ∃ message serde, feed_all bucket [draft.text bucket] {} = some ([message], serde) ∧
    Same message (draft.message bucket) ∧ Holds serde idle

/-- The length of the body that a reader takes from the headers. -/
def Draft.announced : Nat := (to_uint 32 (draft.value header_content_length)).getD 0

/-- A request is not taken for a response, no body is announced that does not follow, and
    the body is not empty. -/
structure Draft.Readable : Prop where
  method : ∀ method uri, draft.start = .request method uri → method ≠ sip_version
  length : draft.body = none → draft.announced = 0
  body : ∀ type, draft.body ≠ some ([], type)

theorem Holds.eq_idle {serde : Serde} {pending : Pending} (h : Holds serde pending) (hidle : Holds serde idle) :
    pending = idle := by
  obtain ⟨⟨hphase, hmessage, hline⟩, -⟩ := hidle
  cases pending with
  | line message line =>
    rw [← h.1.message, ← h.1.line, hmessage, hline]
    rfl
  | body message octets =>
    rw [h.1.phase] at hphase
    simp at hphase

theorem parsed_iff_run :
    draft.Parsed bucket ↔ ∃ message, reader.run (octet bucket) idle (draft.text bucket) = some ([message], idle) ∧
      Same message (draft.message bucket) := by
  have hfed := feed_all_fed bucket holds_new [draft.text bucket]
  rw [flatten_singleton] at hfed
  constructor
  · rintro ⟨message, serde, hresult, hsame, hidle⟩
    rw [hresult] at hfed
    cases hrun : reader.run (octet bucket) idle (draft.text bucket) with
    | none =>
      rw [hrun] at hfed
      simp [Fed] at hfed
    | some read =>
      rw [hrun] at hfed
      obtain ⟨serde', heq, hholds⟩ := hfed
      rw [some.injEq, Prod.mk.injEq] at heq
      rw [← heq.2] at hholds
      refine ⟨message, ?_, hsame⟩
      rw [heq.1, ← hholds.eq_idle hidle]
  rintro ⟨message, hrun, hsame⟩
  rw [hrun] at hfed
  obtain ⟨serde, hresult, hholds⟩ := hfed
  exact ⟨message, serde, hresult, hsame, hholds⟩

variable {bucket draft}

theorem kept_dup (hkept : draft.Kept bucket) {name value : Text} (h : draft.header name = some value) :
    ov_string_dup value = some value := by
  have hmem : name ∈ draft.names bucket := by
    rw [mem_names_iff, h]
    simp
  have hshort := of_decide_eq_true (hkept name hmem)
  rw [Draft.value, h, getD_some] at hshort
  exact ov_string_dup_short hshort

theorem get_built_lines (start : StartLine) (name : Text) :
    (built bucket start (draft.lines bucket)).headers.get name = (draft.message bucket).headers.get name := by
  rw [get_built, field_lines, get_message]

theorem content_length_lines (hkept : draft.Kept bucket) (start : StartLine) :
    content_length (built bucket start (draft.lines bucket)) = some draft.announced := by
  obtain ⟨value, hvalue⟩ := ne_none_iff_exists'.mp (header_content_length_ne_none draft)
  rw [content_length, get_built_lines, get_message, hvalue, map_some, kept_dup hkept hvalue, join_some,
    map_some, Draft.announced, Draft.value, hvalue, getD_some]

theorem announced_body {body type : Text} (hbody : draft.body = some (body, type)) (hsmall : body.length < 2 ^ 32) :
    draft.announced = body.length := by
  have hvalue : draft.value header_content_length = decimal body.length := by
    rw [Draft.value, Draft.header, hbody]
    simp [show header_content_length ≠ header_content_type by decide]
  rw [Draft.announced, hvalue, to_uint_decimal (by omega), if_pos hsmall, getD_some]

theorem run_draft {start : StartLine} (hkept : draft.Kept bucket) (hsmall : draft.octets.length < 2 ^ 32)
    (hlines : ∀ line ∈ draft.start.text :: draft.lines bucket, line.length ≤ 998)
    (hstart : message_from_line bucket draft.start.text = some (fresh_message bucket start)) :
    reader.run (octet bucket) idle (draft.text bucket) = some (
      match draft.body with
      | none =>
        if draft.announced = 0 then ([built bucket start (draft.lines bucket)], idle)
        else ([], .body (built bucket start (draft.lines bucket)) [])
      | some (body, type) =>
        if body = [] then ([built bucket start (draft.lines bucket)], idle)
        else ([body_set bucket (built bucket start (draft.lines bucket)) body type], idle)) := by
  have hline := Start.isLine draft.plain (hlines _ mem_cons_self)
  have hlength := content_length_lines hkept start
  rw [Draft.text, run_append, run_head bucket hstart hline draft.start.text_ne_nil
    (isLine_lines fun line hmem => hlines line (mem_cons_of_mem _ hmem)), hlength, map_some, Draft.octets]
  cases hbody : draft.body with
  | none =>
    by_cases hzero : draft.announced = 0
    · simp [hzero, follow, reader.run]
    · simp [hzero, follow, reader.run]
  | some content =>
    obtain ⟨body, type⟩ := content
    have hoctets : draft.octets = body := by rw [Draft.octets, hbody]; rfl
    have hannounced := announced_body hbody (hoctets ▸ hsmall)
    rw [hannounced] at hlength ⊢
    by_cases hempty : body = []
    · simp [hempty, follow, reader.run]
    have hne : body.length ≠ 0 := fun hzero => hempty (length_eq_zero_iff.mp hzero)
    have hheader : draft.header header_content_type = some type := by rw [Draft.header, hbody]; simp
    have htype : content_type (built bucket start (draft.lines bucket)) = some type := by
      rw [content_type_built, field_lines, hheader, bind_some, kept_dup hkept hheader]
    rw [if_neg hne, follow_nil, map_some, getD_some, run_body bucket hlength hempty, htype, map_some]
    simp [hempty]

theorem message_from_line_version {uri : Text} (huri : sp ∉ uri) :
    message_from_line bucket (Start.request sip_version uri).text = none ∨
      ∃ code reason, message_from_line bucket (Start.request sip_version uri).text =
        some (fresh_message bucket (.response code reason)) := by
  have hversion : sp ∉ sip_version := by decide
  rw [message_from_line, Start.text, cut_append hversion]
  simp only [bind_some, cut_append huri, generate_message, if_true]
  cases to_uint 16 uri with
  | none => exact .inl rfl
  | some code =>
    rw [bind_some]
    split
    · exact .inr ⟨code, _, rfl⟩
    · exact .inl rfl

theorem body_set_same {start : StartLine} {body type : Text} (hbody : draft.body = some (body, type)) (name : Text) :
    (body_set bucket (built bucket start (draft.lines bucket)) body type).headers.get name =
      (draft.message bucket).headers.get name := by
  rw [get_body_set, get_built_lines, get_message, Draft.header, hbody]
  simp only
  by_cases htype : name = header_content_type
  · rw [if_pos htype, if_pos htype, map_some]
  by_cases hlength : name = header_content_length
  · rw [if_neg htype, if_pos hlength, if_neg htype, if_pos hlength, map_some]
  · rw [if_neg htype, if_neg hlength]

theorem parsed_of_readable (hsent : draft.Sent bucket)
    (hlines : ∀ line ∈ draft.start.text :: draft.lines bucket, line.length ≤ 998) (h : draft.Readable) :
    draft.Parsed bucket := by
  obtain ⟨-, hkept, hroom⟩ := hsent
  have hsmall : draft.octets.length < 2 ^ 32 := by
    rw [buffer_size] at hroom
    omega
  have hvalid := Start.valid_of_plain draft.plain h.method
  have hrun := run_draft hkept hsmall hlines (message_from_line_text bucket hvalid)
  rw [parsed_iff_run]
  cases hbody : draft.body with
  | none =>
    rw [hbody] at hrun
    simp only [h.length hbody, if_true] at hrun
    refine ⟨_, hrun, (message_start bucket draft).symm, get_built_lines _, ?_⟩
    rw [message_body, hbody]
    rfl
  | some content =>
    obtain ⟨body, type⟩ := content
    have hne : body ≠ [] := fun hempty => h.body type (by rw [hbody, hempty])
    rw [hbody] at hrun
    simp only [hne, if_false] at hrun
    refine ⟨_, hrun, (message_start bucket draft).symm, body_set_same hbody, ?_⟩
    rw [message_body, hbody]
    rfl

theorem readable_of_start {start : StartLine} (hkept : draft.Kept bucket) (hsmall : draft.octets.length < 2 ^ 32)
    (hlines : ∀ line ∈ draft.start.text :: draft.lines bucket, line.length ≤ 998)
    (hstart : message_from_line bucket draft.start.text = some (fresh_message bucket start)) {message : Message}
    (hrun : reader.run (octet bucket) idle (draft.text bucket) = some ([message], idle))
    (hsame : Same message (draft.message bucket)) :
    start = draft.start.kept ov_string_dup ∧ (draft.body = none → draft.announced = 0) ∧
      ∀ type, draft.body ≠ some ([], type) := by
  have hread := run_draft hkept hsmall hlines hstart
  have hkeep := hsame.start
  have hbodies := hsame.body
  rw [message_start] at hkeep
  rw [message_body] at hbodies
  rw [hrun] at hread
  cases hbody : draft.body with
  | none =>
    rw [hbody] at hread
    by_cases hzero : draft.announced = 0
    · simp only [hzero, if_true, some.injEq, Prod.mk.injEq, List.cons.injEq, and_true] at hread
      rw [hread] at hkeep
      exact ⟨hkeep, fun _ => hzero, by simp⟩
    · simp [hzero] at hread
  | some content =>
    obtain ⟨body, type⟩ := content
    rw [hbody] at hread hbodies
    by_cases hempty : body = []
    · simp only [hempty, if_true, some.injEq, Prod.mk.injEq, List.cons.injEq, and_true] at hread
      rw [hread] at hbodies
      simp [built] at hbodies
    simp only [hempty, if_false, some.injEq, Prod.mk.injEq, List.cons.injEq, and_true] at hread
    rw [hread] at hkeep
    refine ⟨hkeep, by simp, fun other heq => hempty ?_⟩
    rw [some.injEq, Prod.mk.injEq] at heq
    exact heq.1

theorem readable_of_parsed (hsent : draft.Sent bucket)
    (hlines : ∀ line ∈ draft.start.text :: draft.lines bucket, line.length ≤ 998) (h : draft.Parsed bucket) :
    draft.Readable := by
  obtain ⟨-, hkept, hroom⟩ := hsent
  have hsmall : draft.octets.length < 2 ^ 32 := by
    rw [buffer_size] at hroom
    omega
  obtain ⟨message, hrun, hsame⟩ := (parsed_iff_run bucket draft).mp h
  have hmethod : ∀ method uri, draft.start = .request method uri → method ≠ sip_version := by
    rintro method uri hstart rfl
    have hplain := draft.plain
    rw [hstart] at hplain
    obtain hnone | ⟨code, reason, hsome⟩ := @message_from_line_version bucket uri hplain.2.1
    · rw [← hstart] at hnone
      have hline := Start.isLine draft.plain (hlines _ mem_cons_self)
      rw [Draft.text, run_append, run_lines bucket hline draft.start.text_ne_nil
        (isLine_lines fun line hmem => hlines line (mem_cons_of_mem _ hmem)), hnone] at hrun
      simp [follow] at hrun
    rw [← hstart] at hsome
    have hkeep := (readable_of_start hkept hsmall hlines hsome hrun hsame).1
    rw [hstart] at hkeep
    simp [Start.kept] at hkeep
  have hvalid := Start.valid_of_plain draft.plain hmethod
  obtain ⟨-, hlength, hbody⟩ :=
    readable_of_start hkept hsmall hlines (message_from_line_text bucket hvalid) hrun hsame
  exact ⟨hmethod, hlength, hbody⟩

/-- The buffer is not exceeded, a success means that the complete text was written, and
    the text is read back if its lines are not too long. -/
structure Draft.Correct (bucket : Text → Nat) (draft : Draft) : Prop where
  within : impl_serialize (draft.message bucket) ≠ none
  written : draft.Written bucket
  parsed : ∀ result, impl_serialize (draft.message bucket) = some (result, some (draft.text bucket)) →
    (∀ line ∈ draft.start.text :: draft.lines bucket, line.length ≤ 998) → draft.Parsed bucket

theorem impl_serialize_within : impl_serialize (draft.message bucket) ≠ none := by
  by_cases hstart : draft.start.Storable
  · rw [impl_serialize_draft bucket draft hstart]
    simp
  rw [impl_serialize_no_start bucket draft hstart]
  simp

theorem Draft.Correct.conditions (h : draft.Correct bucket) : draft.Honest bucket ∧ (draft.Sent bucket →
      (∀ line ∈ draft.start.text :: draft.lines bucket, line.length ≤ 998) → draft.Readable) := by
  refine ⟨(written_iff_honest bucket draft).mp h.written, fun hsent hlines => ?_⟩
  exact readable_of_parsed hsent hlines (h.parsed true ((sent_iff bucket draft true).mpr ⟨rfl, hsent⟩) hlines)

end

/-- When a message is written and read back as it should be. -/
theorem impl_serialize_correct_iff (bucket : Text → Nat) (draft : Draft) :
    draft.Correct bucket ↔ draft.Honest bucket ∧ (draft.Sent bucket →
      (∀ line ∈ draft.start.text :: draft.lines bucket, line.length ≤ 998) → draft.Readable) := by
  constructor
  · exact fun h => h.conditions
  · rintro ⟨hhonest, hreadable⟩
    refine ⟨impl_serialize_within, (written_iff_honest bucket draft).mpr hhonest, fun result hresult hlines => ?_⟩
    have hsent := ((sent_iff bucket draft result).mp hresult).2
    exact parsed_of_readable hsent hlines (hreadable hsent hlines)

def long_draft : Draft where
  start := .response 200 (ascii "OK")
  headers := [(ascii "Subject", List.replicate 255 (97 : Byte))]
  body := none
  plain := by decide +kernel
  pairs := by decide +kernel
  type := by decide +kernel

/-- A header of 255 octets is left out, and the result is a success. -/
theorem long_draft_not_correct : ¬ ∀ (bucket : Text → Nat) (draft : Draft), draft.Correct bucket := by
  intro h
  have hhonest := (h (fun _ => 0) long_draft).conditions.1
  have hsize : (long_draft.headed fun _ => 0).length = 35 := by decide +kernel
  have hkept : ¬ long_draft.Kept fun _ => 0 := by decide +kernel
  rw [Draft.Honest, hsize] at hhonest
  obtain hstart | hlong | ⟨-, hall | hbody⟩ := hhonest
  · exact hstart (by decide +kernel)
  · simp [buffer_size] at hlong
  · exact hkept hall
  · rw [show long_draft.octets = [] from rfl] at hbody
    simp [buffer_size] at hbody

section

variable {bucket : Text → Nat} {drafts : List Draft}

theorem run_drafts (hsent : ∀ draft ∈ drafts, draft.Sent bucket)
    (hlines : ∀ draft ∈ drafts, ∀ line ∈ draft.start.text :: draft.lines bucket, line.length ≤ 998)
    (h : ∀ draft ∈ drafts, draft.Readable) :
    ∃ messages, reader.run (octet bucket) idle (drafts.flatMap fun draft => draft.text bucket) = some (messages, idle) ∧
      Forall₂ (fun message draft => Same message (draft.message bucket)) messages drafts := by
  induction drafts with
  | nil => exact ⟨[], rfl, .nil⟩
  | cons draft drafts ih =>
    rw [forall_mem_cons] at hsent hlines h
    obtain ⟨message, hrun, hsame⟩ :=
      (parsed_iff_run bucket draft).mp (parsed_of_readable hsent.1 hlines.1 h.1)
    obtain ⟨messages, hmessages, hall⟩ := ih hsent.2 hlines.2 h.2
    refine ⟨message :: messages, ?_, .cons hsame hall⟩
    rw [flatMap_cons, run_append, hrun]
    simp [follow, hmessages]

end

/-- Messages that were written one after the other are read back in their order, however their octets are
cut into chunks, and nothing is left behind. -/
theorem feed_all_drafts (bucket : Text → Nat) (drafts : List Draft) (chunks : List Text)
    (hsent : ∀ draft ∈ drafts, impl_serialize (draft.message bucket) = some (true, some (draft.text bucket)))
    (hlines : ∀ draft ∈ drafts, ∀ line ∈ draft.start.text :: draft.lines bucket, line.length ≤ 998)
    (hreadable : ∀ draft ∈ drafts, draft.Readable)
    (hchunks : chunks.flatten = drafts.flatMap fun draft => draft.text bucket) :
    ∃ messages serde, feed_all bucket chunks {} = some (messages, serde) ∧
      Forall₂ (fun message draft => Same message (draft.message bucket)) messages drafts ∧ Holds serde idle := by
  obtain ⟨messages, hrun, hall⟩ :=
    run_drafts (fun draft hmem => ((sent_iff bucket draft true).mp (hsent draft hmem)).2) hlines hreadable
  have hfed := feed_all_fed bucket holds_new chunks
  rw [hchunks, hrun] at hfed
  obtain ⟨serde, hserde, hidle⟩ := hfed
  exact ⟨messages, serde, hserde, hall, hidle⟩

def short_draft : Draft where
  start := .request (ascii "MESSAGE") (ascii "sip:a")
  headers := []
  body := some (ascii "hi", ascii "text/plain")
  plain := by decide +kernel
  pairs := by decide +kernel
  type := by decide +kernel

theorem feed_all_drafts_two : ∃ messages serde,
    feed_all (fun _ => 0) [(short_draft.text fun _ => 0).take 23,
        (short_draft.text fun _ => 0).drop 23 ++ short_draft.text fun _ => 0] {} = some (messages, serde) ∧
      Forall₂ (fun message draft => Same message (draft.message fun _ => 0)) messages [short_draft, short_draft] ∧
      Holds serde idle := by
  refine feed_all_drafts _ [short_draft, short_draft] _ ?_ ?_ ?_ ?_
  · simp only [forall_mem_cons]
    decide +kernel
  · decide +kernel
  · have hreadable : short_draft.Readable :=
      ⟨fun _ _ h => by cases h; decide +kernel, fun h => (by cases h), fun _ h => by cases h⟩
    simp [hreadable]
  · simp [← List.append_assoc]

end openvocs.sip
