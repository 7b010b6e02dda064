import Openvocs.Sip.Octets

open List Option

namespace openvocs.sip

open cstring reader

/-- A text without the spaces around it. -/
def trim (s : Text) : Text := (s.rdropWhile (· = sp)).dropWhile (· = sp)

theorem rdropWhile_cons (c : Byte) (s : Text) : (c :: s).rdropWhile (· = sp) =
      if s.rdropWhile (· = sp) = [] then (if c = sp then [] else [c]) else c :: s.rdropWhile (· = sp) := by
  simp only [List.rdropWhile, reverse_cons, dropWhile_append, List.isEmpty_iff, reverse_eq_nil_iff]
  split
  · by_cases hc : c = sp <;> simp [hc]
  · simp

theorem rdropWhile_dropWhile (s : Text) : (s.dropWhile (· = sp)).rdropWhile (· = sp) = trim s := by
  rw [trim]
  induction s with
  | nil => rfl
  | cons c s ih =>
    rw [rdropWhile_cons]
    by_cases hc : c = sp
    · rw [dropWhile_cons_of_pos (by simpa using hc), ih]
      by_cases hnil : s.rdropWhile (· = sp) = []
      · rw [if_pos hnil, if_pos hc, hnil]
      · rw [if_neg hnil, dropWhile_cons_of_pos (by simpa using hc)]
    rw [dropWhile_cons_of_neg (by simpa using hc), rdropWhile_cons]
    by_cases hnil : s.rdropWhile (· = sp) = []
    · rw [if_pos hnil, if_neg hc, dropWhile_cons_of_neg (by simpa using hc)]
    · rw [if_neg hnil, dropWhile_cons_of_neg (by simpa using hc)]

theorem rtrim_ltrim (s : Text) : rtrim (ltrim (ltrim s)) = trim s := by
  have hidem : ltrim (ltrim s) = ltrim s := dropWhile_idempotent _ s
  rw [hidem, rtrim, ltrim, rdropWhile_dropWhile, ← rdropWhile_dropWhile]
  split
  · rename_i hnil
    rw [rdropWhile_eq_nil_iff] at hnil
    cases hcase : s.dropWhile (· = sp) with
    | nil => rfl
    | cons c rest =>
      have hhead := head_dropWhile_not (fun c : Byte => decide (c = sp)) (l := s) (by rw [hcase]; simp)
      have hc : c = sp := by simpa using hnil c (by rw [hcase]; exact mem_cons_self)
      simp [hcase, hc] at hhead
  · rfl

theorem ltrim_rtrim (s : Text) : ltrim (rtrim (rtrim s)) = trim s := by
  rw [trim, ltrim]
  by_cases hnil : s.rdropWhile (· = sp) = []
  · have hfirst : rtrim s = s.take 1 := by rw [rtrim, if_pos hnil]
    rw [hfirst, hnil]
    rw [rdropWhile_eq_nil_iff] at hnil
    cases s with
    | nil => rfl
    | cons c s =>
      have hc : c = sp := by simpa using hnil c mem_cons_self
      rw [hc]
      rfl
  have hfirst : rtrim s = s.rdropWhile (· = sp) := by rw [rtrim, if_neg hnil]
  have hsecond : rtrim (s.rdropWhile (· = sp)) = s.rdropWhile (· = sp) := by
    rw [rtrim, rdropWhile_idempotent, if_neg hnil]
  rw [hfirst, hsecond]

/-- The name in a header line. -/
def header_name (line : Text) : Text := trim (line.takeWhile (· ≠ colon))

/-- The value in a header line. -/
def header_value (line : Text) : Text := trim (line.dropWhile (· ≠ colon)).tail

theorem cut_append {c : Byte} {s : Text} (h : c ∉ s) (rest : Text) : cut c (s ++ c :: rest) = (s, some rest) := by
  have hne : ∀ x ∈ s, (decide (x ≠ c)) = true := by
    intro x hx
    simp only [decide_eq_true_eq]
    exact fun heq => h (heq ▸ hx)
  rw [cut, takeWhile_append_of_pos hne, dropWhile_append_of_pos hne]
  simp

theorem parse_header_line (bucket : Text → Nat) (headers : Dict Text (Option Text)) {line : Text} (h : colon ∈ line) :
    parse_header bucket headers line = some (header_set bucket headers (header_name line) (header_value line)) := by
  have hcut : (cut colon line).2 = some (line.dropWhile (· ≠ colon)).tail := by
    rw [cut]
    cases hcase : line.dropWhile (· ≠ colon) with
    | nil =>
      rw [dropWhile_eq_nil_iff] at hcase
      have hcolon := hcase colon h
      simp at hcolon
    | cons c rest => rfl
  rw [parse_header, hcut, map_some, rtrim_ltrim, ltrim_rtrim]
  rfl

/-- A line that does not end too early. -/
def IsLine (line : Text) : Prop := line.length ≤ 998 ∧ 0 ∉ line ∧ ¬ crlf <:+: line

instance (line : Text) : Decidable (IsLine line) := inferInstanceAs (Decidable (_ ∧ _ ∧ _))

/-- The start line of a packet. -/
inductive Start where
  | request (method uri : Text)
  | response (code : Nat) (reason : Text)

namespace Start

def text : Start → Text
  | .request method uri => method ++ sp :: (uri ++ sp :: sip_version)
  | .response code reason => sip_version ++ sp :: (decimal code ++ sp :: reason)

def Valid : Start → Prop
  | .request method uri => sp ∉ method ∧ sp ∉ uri ∧ method ≠ sip_version
  | .response code _ => 100 ≤ code ∧ code ≤ 699

instance : ∀ start : Start, Decidable start.Valid
  | .request _ _ => inferInstanceAs (Decidable (_ ∧ _ ∧ _))
  | .response _ _ => inferInstanceAs (Decidable (_ ∧ _))

/-- The start line of a message, with a way to keep a string. -/
def kept (keep : Text → Option Text) : Start → StartLine
  | .request method uri => .request (keep method) (keep uri)
  | .response code reason => .response code (keep reason)

def Storable : Start → Prop
  | .request method uri => method.length < string_default_size ∧ uri.length < string_default_size
  | .response _ reason => reason.length < string_default_size

instance : ∀ start : Start, Decidable start.Storable
  | .request _ _ => inferInstanceAs (Decidable (_ ∧ _))
  | .response _ _ => inferInstanceAs (Decidable (_ < _))

end Start

/-- The value of a header before any line is read. -/
def default_field (name : Text) : Option Text := if name = header_content_length then some (ascii "0") else none

/-- The value that a header has after some were set: the last one for its name counts. -/
def latest (headers : List (Text × Text)) (name : Text) (found : Option Text) : Option Text :=
  headers.foldl (fun found header => if header.1 = name then some header.2 else found) found

/-- The name and the value in a header line. -/
def parts (line : Text) : Text × Text := (header_name line, header_value line)

/-- The value of a header that was sent in some lines. -/
def field (lines : List Text) (name : Text) : Option Text := latest (lines.map parts) name (default_field name)

/-- A message as it is sent. -/
structure Packet where
  start : Start
  lines : List Text
  body : Text
  start_line : IsLine start.text
  start_valid : start.Valid
  header_lines : ∀ line ∈ lines, IsLine line ∧ colon ∈ line
  length : ∃ digits, field lines header_content_length = some digits ∧ IsNumber digits ∧
    cstring.value digits = body.length
  type : body ≠ [] → field lines header_content_type ≠ none

namespace Packet

variable (packet : Packet)


def text : Text := packet.start.text ++ crlf ++ packet.lines.flatMap (· ++ crlf) ++ crlf ++ packet.body

/-- The value of a header. The length of a body that is there is written without zeros in front. -/
def header (name : Text) : Option Text :=
  if packet.body ≠ [] ∧ name = header_content_length then some (decimal packet.body.length)
  else field packet.lines name

/-- All strings of the packet can be kept, and its length can be read. -/
structure Storable : Prop where
  start : packet.start.Storable
  headers : ∀ line ∈ packet.lines, ∀ value ∈ field packet.lines (header_name line), value.length < string_default_size
  body : packet.body.length < 2 ^ 32

end Packet

/-- The message has the start line, the headers and the body of the packet. -/
structure Carries (message : Message) (packet : Packet) : Prop where
  start : message.start = packet.start.kept some
  headers : ∀ name, message.headers.get name = (packet.header name).map some
  body : message.body = if packet.body = [] then none else some packet.body

section

variable (bucket : Text → Nat)

theorem run_line (message : Option Message) (before line : Text) (hline : IsLine (before ++ line)) :
    reader.run (octet bucket) (.line message before) (line ++ crlf) =
      (after_line bucket message (before ++ line)).map fun (out, pending) => (out.toList, pending) := by
  induction line generalizing before with
  | nil =>
    rw [List.append_nil] at hline ⊢
    obtain ⟨hlength, hzero, -⟩ := hline
    have hroom : ¬ max_line_length < before.length + 1 := by
      rw [max_line_length]
      omega
    have hcr : octet bucket (.line message before) cr = some (none, .line message (before ++ [cr])) := by
      rw [octet, if_neg (by simp [cr, lf]), if_neg hroom]
    have hlf : octet bucket (.line message (before ++ [cr])) lf = after_line bucket message before := by
      rw [octet, if_pos ⟨rfl, by simp⟩, dropLast_concat, of_eq_self hzero]
    rw [nil_append, crlf, run_silent hcr, run_singleton, hlf]
  | cons c line ih =>
    have hassoc : before ++ c :: line = (before ++ [c]) ++ line := by simp
    have hnot : ¬ (c = lf ∧ before.getLast? = some cr) := by
      rintro ⟨rfl, hlast⟩
      obtain ⟨front, rfl⟩ := getLast?_eq_some_iff.mp hlast
      apply hline.2.2
      exact ⟨front, line, by simp [crlf]⟩
    have hroom : ¬ max_line_length < before.length + 1 := by
      have hlength := hline.1
      rw [hassoc, length_append, length_append, length_singleton] at hlength
      rw [max_line_length]
      omega
    have hoctet : octet bucket (.line message before) c = some (none, .line message (before ++ [c])) := by
      rw [octet, if_neg hnot, if_neg hroom]
    rw [hassoc] at hline ⊢
    rw [List.cons_append, run_silent hoctet, ih (before ++ [c]) hline]

theorem generate_message_request {method uri : Text} (h : method ≠ sip_version) :
    generate_message bucket method uri sip_version =
      some (fresh_message bucket (.request (ov_string_dup method) (ov_string_dup uri))) := by
  rw [generate_message, if_neg h, if_pos rfl]

theorem generate_message_response {code : Nat} (h : 100 ≤ code ∧ code ≤ 699) (reason : Text) :
    generate_message bucket sip_version (decimal code) reason =
      some (fresh_message bucket (.response code (ov_string_dup reason))) := by
  rw [generate_message, if_pos rfl, to_uint_decimal (by omega), if_pos (by omega), bind_some, if_pos h]

theorem sp_not_mem_decimal (n : Nat) : sp ∉ decimal n := by
  intro hmem
  have hdigit := (isNumber_decimal n).2 sp hmem
  simp [is_digit, sp] at hdigit

theorem message_from_line_text {start : Start} (h : start.Valid) :
    message_from_line bucket start.text = some (fresh_message bucket (start.kept ov_string_dup)) := by
  cases start with
  | request method uri =>
    obtain ⟨hmethod, huri, hversion⟩ := h
    rw [message_from_line, Start.text, cut_append hmethod]
    simp only [bind_some, cut_append huri]
    exact generate_message_request bucket hversion
  | response code reason =>
    have hversion : sp ∉ sip_version := by decide
    rw [message_from_line, Start.text, cut_append hversion]
    simp only [bind_some, cut_append (sp_not_mem_decimal code)]
    exact generate_message_response bucket h reason

theorem Start.text_ne_nil (start : Start) : start.text ≠ [] := by
  cases start <;> simp [Start.text]

/-- The table after some headers were set. -/
def filled (headers : List (Text × Text)) (table : Dict Text (Option Text)) : Dict Text (Option Text) :=
  headers.foldl (fun table header => header_set bucket table header.1 header.2) table

theorem run_header_lines {lines : List Text} (hlines : ∀ line ∈ lines, IsLine line ∧ colon ∈ line) (message : Message) :
    reader.run (octet bucket) (.line (some message) []) (lines.flatMap (· ++ crlf)) =
      some ([], .line (some { message with headers := filled bucket (lines.map parts) message.headers }) []) := by
  induction lines generalizing message with
  | nil => rfl
  | cons line lines ih =>
    obtain ⟨hline, hcolon⟩ := hlines line mem_cons_self
    have hne : line ≠ [] := ne_nil_of_mem hcolon
    have hafter : after_line bucket (some message) line = some (none, .line (some
        { message with headers := header_set bucket message.headers (header_name line) (header_value line) }) []) := by
      rw [after_line, if_neg hne, parse_header_line bucket message.headers hcolon, map_some]
    rw [flatMap_cons, run_append, run_line bucket (some message) [] line hline, nil_append, hafter]
    exact (follow_nil _ _).trans (ih (fun line hmem => hlines line (mem_cons_of_mem _ hmem)) _)

/-- The message that a start line and header lines make. -/
def built (start : StartLine) (lines : List Text) : Message where
  start := start
  headers := filled bucket (lines.map parts) (header_set bucket .empty header_content_length (ascii "0"))

/-- The lines in front of a body, each with its end. -/
def head (start : Text) (lines : List Text) : Text := start ++ crlf ++ lines.flatMap (· ++ crlf) ++ crlf

theorem run_lines {start : Text} {lines : List Text} (hstart : IsLine start) (hne : start ≠ [])
    (hlines : ∀ line ∈ lines, IsLine line ∧ colon ∈ line) :
    reader.run (octet bucket) idle (head start lines) = (message_from_line bucket start).bind fun message =>
      (content_length { message with headers := filled bucket (lines.map parts) message.headers }).map fun length =>
        if length = 0 then ([{ message with headers := filled bucket (lines.map parts) message.headers }], idle)
        else ([], .body { message with headers := filled bucket (lines.map parts) message.headers } []) := by
  have hfirst : reader.run (octet bucket) idle (start ++ crlf) =
      (message_from_line bucket start).map fun message => ([], .line (some message) []) := by
    rw [idle, run_line bucket none [] start hstart, nil_append, after_line, if_neg hne, Option.map_map]
    rfl
  rw [head, run_append, run_append, hfirst]
  cases message_from_line bucket start with
  | none => rfl
  | some message =>
    have hlast := run_line bucket (some { message with headers := filled bucket (lines.map parts) message.headers }) [] []
      (by decide)
    rw [map_some, follow_nil, run_header_lines bucket hlines message, follow_nil, bind_some]
    refine hlast.trans ?_
    rw [after_line, List.append_nil, if_pos rfl, Option.map_map]
    congr 1
    funext length
    by_cases hzero : length = 0 <;> simp [hzero]

theorem run_head {line : Text} {start : StartLine} {lines : List Text}
    (hstart : message_from_line bucket line = some (fresh_message bucket start)) (hline : IsLine line)
    (hne : line ≠ []) (hlines : ∀ line ∈ lines, IsLine line ∧ colon ∈ line) :
    reader.run (octet bucket) idle (head line lines) =
      (content_length (built bucket start lines)).map fun length =>
        if length = 0 then ([built bucket start lines], idle) else ([], .body (built bucket start lines) []) := by
  rw [run_lines bucket hline hne hlines, hstart]
  rfl

theorem run_body {message : Message} {body : Text} (hlength : content_length message = some body.length)
    (hbody : body ≠ []) :
    reader.run (octet bucket) (.body message []) body =
      (content_type message).map fun type => ([body_set bucket message body type], idle) := by
  rw [run_eq_first, first_body bucket hlength [] body (length_pos_iff.mpr hbody), nil_append,
    if_neg (Nat.lt_irrefl _), take_length, drop_length]
  cases content_type message <;> rfl

theorem get_filled (headers : List (Text × Text)) (name : Text) {table : Dict Text (Option Text)} {found : Option Text}
    (h : table.get name = found.map ov_string_dup) :
    (filled bucket headers table).get name = (latest headers name found).map ov_string_dup := by
  induction headers generalizing table found with
  | nil => exact h
  | cons header headers ih =>
    rw [filled, latest, foldl_cons, foldl_cons, ← filled, ← latest]
    apply ih
    rw [header_set, Dict.get_set]
    by_cases hname : name = header.1
    · rw [if_pos hname, if_pos hname.symm, map_some]
    · rw [if_neg hname, if_neg (Ne.symm hname), h]

theorem get_built (start : StartLine) (lines : List Text) (name : Text) :
    (built bucket start lines).headers.get name = (field lines name).map ov_string_dup := by
  apply get_filled
  rw [header_set, Dict.get_set, default_field]
  by_cases hname : name = header_content_length
  · rw [if_pos hname, if_pos hname]
    rfl
  rw [if_neg hname, if_neg hname]
  rfl

end

theorem ov_string_dup_eq_some {s t : Text} : ov_string_dup s = some t ↔ s.length < string_default_size ∧ t = s := by
  rw [ov_string_dup]
  by_cases hshort : s.length < string_default_size
  · rw [if_pos hshort, some.injEq]
    exact ⟨fun heq => ⟨hshort, heq.symm⟩, fun h => h.2.symm⟩
  rw [if_neg hshort]
  exact ⟨fun h => by simp at h, fun h => absurd h.1 hshort⟩

theorem ov_string_dup_short {s : Text} (h : s.length < string_default_size) : ov_string_dup s = some s :=
  ov_string_dup_eq_some.mpr ⟨h, rfl⟩

theorem Start.kept_eq_iff (start : Start) : start.kept ov_string_dup = start.kept some ↔ start.Storable := by
  cases start with
  | request method uri =>
    simp only [Start.kept, StartLine.request.injEq, ov_string_dup_eq_some, and_true, Start.Storable]
  | response code reason =>
    simp [Start.kept, StartLine.response.injEq, ov_string_dup_eq_some, Start.Storable]

theorem latest_ne_none {headers : List (Text × Text)} {name : Text} {found : Option Text} (h : found ≠ none) :
    latest headers name found ≠ none := by
  induction headers generalizing found with
  | nil => exact h
  | cons header headers ih =>
    rw [latest, foldl_cons, ← latest]
    apply ih
    split
    · simp
    · exact h

theorem latest_eq_some {headers : List (Text × Text)} {name value : Text} {found : Option Text}
    (h : latest headers name found = some value) : (name, value) ∈ headers ∨ found = some value := by
  induction headers generalizing found with
  | nil => exact .inr h
  | cons header headers ih =>
    rw [latest, foldl_cons, ← latest] at h
    obtain hmem | hfound := ih h
    · exact .inl (mem_cons_of_mem _ hmem)
    by_cases hname : header.1 = name
    · rw [if_pos hname, some.injEq] at hfound
      rw [← hname, ← hfound]
      exact .inl mem_cons_self
    rw [if_neg hname] at hfound
    exact .inr hfound

theorem default_field_eq_some {name value : Text} (h : default_field name = some value) :
    name = header_content_length ∧ value = ascii "0" := by
  rw [default_field] at h
  split at h
  · rename_i hname
    exact ⟨hname, (some.inj h).symm⟩
  · simp at h

theorem values_short_iff (lines : List Text) :
    (∀ line ∈ lines, ∀ value ∈ field lines (header_name line), value.length < string_default_size) ↔
      ∀ name value, field lines name = some value → value.length < string_default_size := by
  constructor
  · intro h name value hvalue
    obtain hmem | hdefault := latest_eq_some hvalue
    · obtain ⟨line, hline, hparts⟩ := List.mem_map.mp hmem
      have hname : header_name line = name := congrArg Prod.fst hparts
      exact h line hline value (by rw [hname]; exact hvalue)
    rw [(default_field_eq_some hdefault).2]
    decide
  · exact fun h line _ value hvalue => h (header_name line) value hvalue

section

variable (bucket : Text → Nat)

/-- The message that the lines of a packet make. -/
def Packet.built (packet : Packet) : Message := sip.built bucket (packet.start.kept ov_string_dup) packet.lines

theorem content_length_built {packet : Packet} {digits : Text}
    (hfield : field packet.lines header_content_length = some digits) (hnumber : IsNumber digits)
    (hvalue : cstring.value digits = packet.body.length) :
    content_length (packet.built bucket) =
      if digits.length < string_default_size then
        some (if packet.body.length < 2 ^ 32 then packet.body.length else 0)
      else none := by
  have hread := to_uint_number (show 32 ≤ 62 by omega) hnumber
  rw [content_length, Packet.built, get_built, hfield, map_some, join_some, ov_string_dup]
  by_cases hshort : digits.length < string_default_size
  · rw [if_pos hshort, if_pos hshort, map_some, hread, hvalue]
    by_cases hsmall : packet.body.length < 2 ^ 32
    · rw [if_pos hsmall, if_pos hsmall, getD_some]
    · rw [if_neg hsmall, if_neg hsmall, getD_none]
  · rw [if_neg hshort, if_neg hshort, map_none]

theorem content_type_built (start : StartLine) (lines : List Text) :
    content_type (built bucket start lines) = (field lines header_content_type).bind ov_string_dup := by
  rw [content_type, get_built]
  cases field lines header_content_type <;> rfl

theorem get_body_set (message : Message) (body type name : Text) :
    (body_set bucket message body type).headers.get name =
      if name = header_content_type then some (ov_string_dup type)
      else if name = header_content_length then some (ov_string_dup (decimal body.length))
      else message.headers.get name := by
  rw [body_set, header_set, Dict.get_set, header_set, Dict.get_set]

theorem Packet.run_head (packet : Packet) :
    reader.run (octet bucket) idle (head packet.start.text packet.lines) =
      (content_length (packet.built bucket)).map fun length =>
        if length = 0 then ([packet.built bucket], idle) else ([], .body (packet.built bucket) []) :=
  sip.run_head bucket (message_from_line_text bucket packet.start_valid) packet.start_line packet.start.text_ne_nil
    packet.header_lines

theorem run_text {packet : Packet} (h : packet.Storable) :
    ∃ message, reader.run (octet bucket) idle packet.text = some ([message], idle) ∧ Carries message packet := by
  obtain ⟨digits, hfield, hnumber, hvalue⟩ := packet.length
  have hshort := (values_short_iff packet.lines).mp h.headers
  have hlength := content_length_built bucket hfield hnumber hvalue
  rw [if_pos (hshort _ _ hfield), if_pos h.body] at hlength
  have hget : ∀ name, (packet.built bucket).headers.get name = (field packet.lines name).map some := by
    intro name
    rw [Packet.built, get_built]
    cases hname : field packet.lines name with
    | none => rfl
    | some value => rw [map_some, map_some, ov_string_dup_short (hshort name value hname)]
  rw [Packet.text, ← head, run_append, Packet.run_head, hlength, map_some]
  by_cases hbody : packet.body = []
  · rw [hbody, length_nil, if_pos rfl]
    refine ⟨packet.built bucket, rfl, packet.start.kept_eq_iff.mpr h.start, ?_, (if_pos hbody).symm⟩
    intro name
    rw [Packet.header, if_neg fun hboth => hboth.1 hbody, hget]
  obtain ⟨type, htype⟩ := ne_none_iff_exists'.mp (packet.type hbody)
  have hkept : content_type (packet.built bucket) = some type := by
    rw [Packet.built, content_type_built, htype, bind_some, ov_string_dup_short (hshort _ _ htype)]
  have hdecimal : (decimal packet.body.length).length < string_default_size := by
    have hbound : packet.body.length < 10 ^ 10 := Nat.lt_trans h.body (by decide)
    have hle := length_decimal_le (by omega) hbound
    rw [string_default_size]
    omega
  have hne : packet.body.length ≠ 0 := fun hzero => hbody (length_eq_zero_iff.mp hzero)
  rw [if_neg hne, follow_nil, run_body bucket hlength hbody, hkept, map_some]
  refine ⟨body_set bucket (packet.built bucket) packet.body type, rfl, packet.start.kept_eq_iff.mpr h.start, ?_,
    (if_neg hbody).symm⟩
  intro name
  rw [get_body_set, Packet.header, hget]
  by_cases hname : name = header_content_type
  · have hother : header_content_type ≠ header_content_length := by decide
    rw [if_pos hname, hname, if_neg fun hboth => hother hboth.2, htype, map_some,
      ov_string_dup_short (hshort _ _ htype)]
  by_cases hlengths : name = header_content_length
  · rw [if_neg hname, if_pos hlengths, if_pos ⟨hbody, hlengths⟩, map_some, ov_string_dup_short hdecimal]
  · rw [if_neg hname, if_neg hlengths, if_neg fun hboth => hlengths hboth.2]

theorem run_text_carries {packet : Packet} {rest : Text} {messages : List Message} {pending : Pending}
    (h : reader.run (octet bucket) idle (packet.text ++ rest) = some (messages, pending)) :
    ∃ message more, messages = message :: more ∧ (Carries message packet → packet.Storable) := by
  obtain ⟨digits, hfield, hnumber, hvalue⟩ := packet.length
  have hlength := content_length_built bucket hfield hnumber hvalue
  rw [Packet.text, ← head, append_assoc, run_append, Packet.run_head, hlength] at h
  by_cases hdigits : digits.length < string_default_size
  · rw [if_pos hdigits] at h hlength
    by_cases hlarge : packet.body.length < 2 ^ 32
    · rw [if_pos hlarge] at h hlength
      by_cases hbody : packet.body = []
      · rw [hbody, length_nil, map_some, if_pos rfl] at h
        simp only [follow, bind_some, map_eq_some_iff, Prod.mk.injEq] at h
        obtain ⟨⟨more, last⟩, -, rfl, -⟩ := h
        refine ⟨_, more, rfl, fun hcarries => ⟨packet.start.kept_eq_iff.mp hcarries.start, ?_, hlarge⟩⟩
        rw [values_short_iff]
        intro name value hname
        have hget := hcarries.headers name
        rw [Packet.built, get_built, Packet.header, if_neg fun hboth => hboth.1 hbody, hname, map_some, map_some,
          some.injEq, ov_string_dup_eq_some] at hget
        exact hget.1
      have hne : packet.body.length ≠ 0 := fun hzero => hbody (length_eq_zero_iff.mp hzero)
      rw [map_some, if_neg hne, follow_nil, run_append, run_body bucket hlength hbody,
        Packet.built, content_type_built] at h
      obtain ⟨type, htype⟩ := ne_none_iff_exists'.mp (packet.type hbody)
      rw [htype, bind_some] at h
      by_cases hshort : type.length < string_default_size
      · rw [ov_string_dup_short hshort] at h
        simp only [follow, map_some, bind_some, map_eq_some_iff, Prod.mk.injEq] at h
        obtain ⟨⟨more, last⟩, -, rfl, -⟩ := h
        refine ⟨_, more, rfl, fun hcarries => ⟨packet.start.kept_eq_iff.mp hcarries.start, ?_, hlarge⟩⟩
        rw [values_short_iff]
        intro name value hname
        by_cases htypes : name = header_content_type
        · rw [htypes, htype] at hname
          rw [← some.inj hname]
          exact hshort
        by_cases hlengths : name = header_content_length
        · rw [hlengths, hfield] at hname
          rw [← some.inj hname]
          exact hdigits
        have hget := hcarries.headers name
        rw [get_body_set, if_neg htypes, if_neg hlengths, get_built, Packet.header,
          if_neg fun hboth => hlengths hboth.2, hname, map_some, map_some,
          some.injEq, ov_string_dup_eq_some] at hget
        exact hget.1
      rw [ov_string_dup, if_neg hshort] at h
      simp [follow] at h
    · rw [if_neg hlarge, map_some, if_pos rfl] at h
      simp only [follow, bind_some, map_eq_some_iff, Prod.mk.injEq] at h
      obtain ⟨⟨more, last⟩, -, rfl, -⟩ := h
      refine ⟨_, more, rfl, fun hcarries => ?_⟩
      have hbody : packet.body ≠ [] := by
        intro hnil
        rw [hnil] at hlarge
        exact hlarge (by decide)
      have hnone := hcarries.body
      rw [if_neg hbody] at hnone
      simp [Packet.built, built] at hnone
  · rw [if_neg hdigits] at h
    simp [follow] at h

/-- The packets are delivered one after the other, and nothing is left behind. -/
def Delivers (chunks : List Text) (packets : List Packet) : Prop :=
  ∃ messages serde, feed_all bucket chunks {} = some (messages, serde) ∧ List.Forall₂ Carries messages packets ∧
    Holds serde idle

variable {packets : List Packet}

theorem run_texts (h : ∀ packet ∈ packets, packet.Storable) :
    ∃ messages, reader.run (octet bucket) idle (packets.flatMap Packet.text) = some (messages, idle) ∧
      List.Forall₂ Carries messages packets := by
  induction packets with
  | nil => exact ⟨[], rfl, .nil⟩
  | cons packet packets ih =>
    obtain ⟨message, hmessage, hcarries⟩ := run_text bucket (h packet mem_cons_self)
    obtain ⟨messages, hmessages, hall⟩ := ih fun other hmem => h other (mem_cons_of_mem _ hmem)
    refine ⟨message :: messages, ?_, .cons hcarries hall⟩
    rw [flatMap_cons, run_append, hmessage]
    simp [follow, hmessages]

theorem run_texts_storable {messages : List Message} {pending : Pending}
    (h : reader.run (octet bucket) idle (packets.flatMap Packet.text) = some (messages, pending))
    (hall : List.Forall₂ Carries messages packets) : ∀ packet ∈ packets, packet.Storable := by
  induction packets generalizing messages pending with
  | nil => simp
  | cons packet packets ih =>
    rw [flatMap_cons] at h
    obtain ⟨message, more, rfl, hstorable⟩ := run_text_carries bucket h
    cases hall with
    | cons hcarries hmore =>
      -- the packet was read as it was sent, so the others are read from the beginning
      obtain ⟨first, hfirst, -⟩ := run_text bucket (hstorable hcarries)
      rw [run_append, hfirst] at h
      simp only [follow, bind_some, map_eq_some_iff, Prod.mk.injEq] at h
      obtain ⟨⟨others, last⟩, hothers, heq, -⟩ := h
      rw [singleton_append, List.cons.injEq] at heq
      obtain ⟨-, rfl⟩ := heq
      exact forall_mem_cons.mpr ⟨hstorable hcarries, ih hothers hmore⟩

theorem delivers_of_storable {chunks : List Text}
    (hchunks : chunks.flatten = packets.flatMap Packet.text) (h : ∀ packet ∈ packets, packet.Storable) :
    Delivers bucket chunks packets := by
  obtain ⟨messages, hrun, hall⟩ := run_texts bucket h
  have hfed := feed_all_fed bucket holds_new chunks
  rw [hchunks, hrun] at hfed
  obtain ⟨serde, hserde, hidle⟩ := hfed
  exact ⟨messages, serde, hserde, hall, hidle⟩

theorem storable_of_delivers {chunks : List Text}
    (hchunks : chunks.flatten = packets.flatMap Packet.text) (h : Delivers bucket chunks packets) :
    ∀ packet ∈ packets, packet.Storable := by
  obtain ⟨messages, serde, hserde, hall, -⟩ := h
  have hfed := feed_all_fed bucket holds_new chunks
  rw [hchunks] at hfed
  cases hrun : reader.run (octet bucket) idle (packets.flatMap Packet.text) with
  | none =>
    rw [hrun] at hfed
    rw [show feed_all bucket chunks {} = none from hfed] at hserde
    simp at hserde
  | some read =>
    rw [hrun] at hfed
    obtain ⟨serde', hserde', -⟩ := hfed
    rw [hserde', some.injEq, Prod.mk.injEq] at hserde
    rw [← hserde.1] at hall
    exact run_texts_storable bucket hrun hall

/-- However the octets of some packets are cut into chunks, the parser delivers the packets
    if and only if all their strings can be kept. -/
theorem feed_all_delivers_iff (packets : List Packet) (chunks : List Text)
    (hchunks : chunks.flatten = packets.flatMap Packet.text) :
    Delivers bucket chunks packets ↔ ∀ packet ∈ packets, packet.Storable :=
  ⟨storable_of_delivers bucket hchunks, delivers_of_storable bucket hchunks⟩

end

def short_packet : Packet where
  start := .request (ascii "MESSAGE") (ascii "sip:a")
  lines := [ascii "Content-Type: text/plain", ascii "Content-Length: 2"]
  body := ascii "hi"
  start_line := by decide +kernel
  start_valid := by decide +kernel
  header_lines := by decide +kernel
  length := ⟨ascii "2", by decide +kernel⟩
  type := by decide +kernel

theorem short_packet_storable : short_packet.Storable :=
  ⟨by decide +kernel, by decide +kernel, by decide +kernel⟩

/-- The second chunk begins in the middle of the end of a line, the third one in the body. -/
theorem feed_all_delivers_three_chunks :
    Delivers (fun _ => 0) [short_packet.text.take 23, bytes.slice short_packet.text 23 47, short_packet.text.drop 70]
      [short_packet] := by
  refine (feed_all_delivers_iff _ _ _ ?_).mpr ?_
  · decide +kernel
  · simp [short_packet_storable]

def long_packet : Packet where
  start := .response 200 (ascii "OK")
  lines := [ascii "Subject: " ++ List.replicate 255 (97 : Byte)]
  body := []
  start_line := by decide +kernel
  start_valid := by decide +kernel
  header_lines := by decide +kernel
  length := ⟨ascii "0", by decide +kernel⟩
  type := by decide +kernel

/-- The value of a header of 255 octets is lost. -/
theorem long_packet_not_delivered : ¬ ∀ (bucket : Text → Nat) (packets : List Packet) (chunks : List Text),
      (∀ chunk ∈ chunks, chunk ≠ []) → chunks.flatten = packets.flatMap Packet.text →
        Delivers bucket chunks packets := by
  intro h
  have hdelivers := h (fun _ => 0) [long_packet] [long_packet.text] (by decide +kernel) (by simp)
  have hstorable := storable_of_delivers _ (by simp) hdelivers long_packet mem_cons_self
  have hlong := hstorable.headers (ascii "Subject: " ++ List.replicate 255 (97 : Byte)) (by decide +kernel)
    (List.replicate 255 (97 : Byte)) (by decide +kernel)
  rw [length_replicate, string_default_size] at hlong
  omega

end openvocs.sip
