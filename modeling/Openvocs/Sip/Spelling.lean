import Openvocs.Lib.Pieces
import Openvocs.Lib.Strtod
import Openvocs.Sip.Packets
import Openvocs.Sip.Popped

open List Option

namespace openvocs.sip

open reader

/-- Names that differ only in the case of their letters. -/
def SameName (name name' : Text) : Prop := name.map cstring.lower = name'.map cstring.lower

/-- Header lines that differ only in the case of the letters in front of the colon. -/
def Respelled (line line' : Text) : Prop :=
  SameName (line.takeWhile (· ≠ colon)) (line'.takeWhile (· ≠ colon)) ∧
    line.dropWhile (· ≠ colon) = line'.dropWhile (· ≠ colon)

instance (name name' : Text) : Decidable (SameName name name') := inferInstanceAs (Decidable (_ = _))

instance (line line' : Text) : Decidable (Respelled line line') := inferInstanceAs (Decidable (_ ∧ _))

/-- A message as RFC 3261 has it, with header names in any case. The length of the body is
    the one that is given, and is given if there is a body. -/
structure Sent where
  start : Start
  lines : List Text
  body : Text
  start_line : IsLine start.text
  start_valid : start.Valid
  header_lines : ∀ line ∈ lines, IsLine line ∧ colon ∈ line
  length : ∀ line ∈ lines, SameName (header_name line) header_content_length →
    cstring.IsNumber (header_value line) ∧ cstring.value (header_value line) = body.length
  present : body ≠ [] → ∃ line ∈ lines, SameName (header_name line) header_content_length
  size : body.length < 2 ^ 32

namespace Sent

def head (sent : Sent) : Text := sip.head sent.start.text sent.lines

def text (sent : Sent) : Text := sent.head ++ sent.body

/-- The same message with other letters in its header names. -/
def Respelled (sent sent' : Sent) : Prop :=
  sent.start = sent'.start ∧ List.Forall₂ sip.Respelled sent.lines sent'.lines ∧ sent.body = sent'.body

end Sent

/-- The octets that were received so far of some messages. -/
def stream (sent : List Sent) (n : Nat) : Text := (sent.flatMap Sent.text).take n

/-- All lines in front of the body of a message were received. -/
def Received (sent : List Sent) (n : Nat) (message : Sent) : Prop :=
  ∃ before after, sent = before ++ message :: after ∧ (before.flatMap Sent.text ++ message.head).length ≤ n

/-- What is compared of the messages: their start lines and their bodies. -/
def observed (messages : List Message) : List (StartLine × Option Text) :=
  messages.map fun message => (message.start, message.body)

/-- Two streams lead to the same messages, however their octets are cut into chunks. -/
def SameMessages (bucket : Text → Nat) (s s' : Text) : Prop :=
  ∀ chunks chunks' : List Text, chunks.flatten = s → chunks'.flatten = s' →
    observed (popped bucket chunks {}) = observed (popped bucket chunks' {})

theorem same_messages_outputs {bucket : Text → Nat} {s s' : Text} : SameMessages bucket s s' ↔
      observed (outputs (octet bucket) idle s) = observed (outputs (octet bucket) idle s') := by
  constructor
  · intro h
    have hwhole := h [s] [s'] (by simp) (by simp)
    rwa [popped_eq bucket holds_new, popped_eq bucket holds_new, flatten_singleton, flatten_singleton] at hwhole
  intro h chunks chunks' hchunks hchunks'
  rw [popped_eq bucket holds_new, popped_eq bucket holds_new, hchunks, hchunks']
  exact h

section

variable (bucket : Text → Nat)

theorem outputs_part (message : Option Message) {before p line : Text} (hline : ¬ crlf <:+: line)
    (h : before ++ p <+: line ++ [cr]) : outputs (octet bucket) (.line message before) p = [] := by
  induction p generalizing before with
  | nil => rfl
  | cons c p ih =>
    have hassoc : before ++ c :: p = (before ++ [c]) ++ p := by simp
    have hnot : ¬ (c = lf ∧ before.getLast? = some cr) := by
      rintro ⟨rfl, hlast⟩
      obtain ⟨front, rfl⟩ := getLast?_eq_some_iff.mp hlast
      have hinfix : crlf <:+: line ++ [cr] := by
        obtain ⟨rest, hrest⟩ := h
        exact ⟨front, p ++ rest, by rw [← hrest]; simp [crlf]⟩
      rw [infix_concat_iff] at hinfix
      obtain hsuffix | hinside := hinfix
      · have hend : crlf.getLast? = (line ++ [cr]).getLast? := by
          obtain ⟨rest, hrest⟩ := hsuffix
          rw [← hrest]
          simp [crlf]
        rw [getLast?_concat] at hend
        simp [crlf, cr, lf] at hend
      · exact hline hinside
    rw [outputs, octet, if_neg hnot]
    by_cases hlong : max_line_length < before.length + 1
    · rw [if_pos hlong]
    rw [if_neg hlong]
    rw [hassoc] at h
    exact ih h

namespace Sent

/-- The message that the lines of a message make. -/
def built (sent : Sent) : Message := sip.built bucket (sent.start.kept ov_string_dup) sent.lines

theorem run_open (sent : Sent) {lines : List Text} (hlines : ∀ line ∈ lines, IsLine line ∧ colon ∈ line) :
    reader.run (octet bucket) idle ((sent.start.text :: lines).flatMap (· ++ crlf)) =
      some ([], .line (some (sip.built bucket (sent.start.kept ov_string_dup) lines)) []) := by
  have hfirst : reader.run (octet bucket) idle (sent.start.text ++ crlf) =
      some ([], .line (some (fresh_message bucket (sent.start.kept ov_string_dup))) []) := by
    rw [idle, run_line bucket none [] sent.start.text sent.start_line, nil_append, after_line,
      if_neg sent.start.text_ne_nil, message_from_line_text bucket sent.start_valid]
    rfl
  rw [flatMap_cons, run_append, hfirst, follow_nil, run_header_lines bucket hlines]
  rfl

theorem head_eq (sent : Sent) : sent.head = (sent.start.text :: sent.lines).flatMap (· ++ crlf) ++ crlf := by
  rw [head, sip.head, flatMap_cons]

theorem outputs_head (sent : Sent) (rest : Text) : outputs (octet bucket) idle (sent.head ++ rest) =
      match content_length (sent.built bucket) with
      | none => []
      | some length =>
        if length = 0 then sent.built bucket :: outputs (octet bucket) idle rest
        else outputs (octet bucket) (.body (sent.built bucket) []) rest := by
  have hcr : octet bucket (.line (some (sent.built bucket)) []) cr =
      some (none, .line (some (sent.built bucket)) [cr]) := by
    rw [octet, if_neg (by simp), if_neg (by simp [max_line_length])]
    rfl
  have hlf : octet bucket (.line (some (sent.built bucket)) [cr]) lf =
      (content_length (sent.built bucket)).map fun length =>
        if length = 0 then (some (sent.built bucket), idle) else (none, .body (sent.built bucket) []) := by
    rw [octet, if_pos ⟨rfl, rfl⟩]
    rfl
  rw [head_eq, append_assoc, outputs_append _ (run_open bucket sent sent.header_lines), nil_append, crlf,
    List.cons_append, singleton_append, outputs, ← built, hcr]
  simp only [toList_none, nil_append]
  rw [outputs, hlf]
  cases content_length (sent.built bucket) with
  | none => rfl
  | some length =>
    by_cases hzero : length = 0
    · simp [hzero]
    · simp [hzero]

theorem outputs_head_take (sent : Sent) {n : Nat} (hn : n < sent.head.length) :
    outputs (octet bucket) idle (sent.head.take n) = [] := by
  have hlines : ∀ line ∈ sent.start.text :: (sent.lines ++ [[]]), ¬ crlf <:+: line := by
    intro line hline
    rw [mem_cons, mem_append, mem_singleton] at hline
    obtain rfl | hmem | rfl := hline
    · exact sent.start_line.2.2
    · exact (sent.header_lines line hmem).1.2.2
    · decide
  have hhead : (sent.start.text :: (sent.lines ++ [[]])).flatMap (· ++ crlf) = sent.head.take n ++ sent.head.drop n := by
    rw [take_append_drop, head_eq, ← List.cons_append, flatMap_append, flatMap_singleton, nil_append]
  obtain ⟨done, todo, p, hitems, hp, htodo, hkept⟩ := pieces.cut hhead
  rw [hp]
  cases todo with
  | nil =>
    rw [show p = [] from hkept, nil_append, flatMap_nil, eq_comm, drop_eq_nil_iff] at htodo
    omega
  | cons line todo =>
    obtain ⟨q, hq, hline⟩ := hkept
    -- the part does not hold the last octet of its line
    have hpart : p <+: line ++ [cr] := by
      rcases eq_nil_or_concat' q with rfl | ⟨front, c, rfl⟩
      · exact absurd rfl hq
      have hsplit : (line ++ [cr]) ++ [lf] = (p ++ front) ++ [c] := by simpa [crlf] using hline
      exact ⟨front, (append_inj' hsplit rfl).1.symm⟩
    have hcalm : ¬ crlf <:+: line := hlines line (by rw [hitems]; simp)
    cases done with
    | nil => exact outputs_part bucket none hcalm hpart
    | cons first done =>
      rw [List.cons_append, List.cons.injEq] at hitems
      obtain ⟨rfl, hitems⟩ := hitems
      have hdone : ∀ line ∈ done, line ∈ sent.lines := by
        obtain ⟨a, rfl, ha⟩ | ⟨a, ha, -⟩ := append_eq_append_iff.mp hitems
        · have hlength := congrArg List.length ha
          simp only [length_append, length_cons, length_nil] at hlength
          obtain rfl : a = [] := length_eq_zero_iff.mp (by omega)
          simp
        rw [ha]
        exact fun line hmem => mem_append_left _ hmem
      have hrun := run_open bucket sent (fun line hmem => sent.header_lines line (hdone line hmem))
      rw [outputs_append _ hrun, nil_append]
      exact outputs_part bucket _ hcalm hpart

end Sent

theorem outputs_body {message : Message} {length : Nat} (hlength : content_length message = some length)
    (hpos : 0 < length) (rest : Text) :
    outputs (octet bucket) (.body message []) rest =
      if rest.length < length then []
      else
        match content_type message with
        | none => []
        | some type =>
          body_set bucket message (rest.take length) type :: outputs (octet bucket) idle (rest.drop length) := by
  rw [outputs_eq_first, first_body bucket hlength [] rest hpos, nil_append]
  by_cases hshort : rest.length < length
  · rw [if_pos hshort, if_pos hshort]
  rw [if_neg hshort, if_neg hshort]
  cases content_type message <;> rfl

/-- The parser finds the length of the body, and the type if there is a body. -/
def Sent.Framed (sent : Sent) : Prop :=
  content_length (sent.built bucket) = some sent.body.length ∧
    (sent.body ≠ [] → content_type (sent.built bucket) ≠ none)

end

/-- What is to be delivered of some messages of which some octets were received. -/
def delivered : List Sent → Nat → List (StartLine × Option Text)
  | [], _ => []
  | message :: sent, n =>
    if n < message.text.length then []
    else
      (message.start.kept ov_string_dup, if message.body = [] then none else some message.body) ::
        delivered sent (n - message.text.length)

theorem Received.cons {message other : Sent} {sent : List Sent} {n : Nat} (hn : message.text.length ≤ n)
    (h : Received sent (n - message.text.length) other) : Received (message :: sent) n other := by
  obtain ⟨before, after, rfl, hle⟩ := h
  refine ⟨message :: before, after, rfl, ?_⟩
  rw [flatMap_cons, append_assoc, length_append]
  omega

theorem stream_nil (n : Nat) : stream [] n = [] := take_nil

theorem stream_cons_short {message : Sent} {n : Nat} (hn : n < message.head.length) (sent : List Sent) :
    stream (message :: sent) n = message.head.take n := by
  rw [stream, flatMap_cons, Sent.text, append_assoc, take_append_of_le_length (by omega)]

theorem stream_cons {message : Sent} {n : Nat} (hn : message.head.length ≤ n) (sent : List Sent) :
    stream (message :: sent) n =
      message.head ++ (message.body ++ sent.flatMap Sent.text).take (n - message.head.length) := by
  rw [stream, flatMap_cons, Sent.text, append_assoc, take_append, take_of_length_le hn]

theorem Sent.text_length (message : Sent) : message.text.length = message.head.length + message.body.length :=
  length_append

theorem observed_framed (bucket : Text → Nat) {sent : List Sent} {n : Nat}
    (h : ∀ message, Received sent n message → message.Framed bucket) :
    observed (outputs (octet bucket) idle (stream sent n)) = delivered sent n := by
  induction sent generalizing n with
  | nil =>
    rw [stream_nil]
    rfl
  | cons message sent ih =>
    have htext := message.text_length
    by_cases hhead : n < message.head.length
    · rw [stream_cons_short hhead, message.outputs_head_take bucket hhead, delivered, if_pos (by omega)]
      rfl
    obtain ⟨hlength, htype⟩ := h message ⟨[], sent, rfl, by simpa using hhead⟩
    have hrest : message.text.length ≤ n →
        observed (outputs (octet bucket) idle (stream sent (n - message.text.length))) =
          delivered sent (n - message.text.length) :=
      fun hn => ih fun other hother => h other (hother.cons hn)
    rw [stream_cons (by omega), message.outputs_head bucket, hlength, delivered]
    simp only [length_eq_zero_iff]
    by_cases hbody : message.body = []
    · rw [hbody, length_nil] at htext
      rw [if_pos hbody, if_neg (by omega), if_pos hbody, ← hrest (by omega), hbody, nil_append, htext]
      rfl
    rw [if_neg hbody, outputs_body bucket hlength (length_pos_iff.mpr hbody)]
    obtain ⟨type, htype⟩ := ne_none_iff_exists'.mp (htype hbody)
    by_cases hcut : n < message.text.length
    · rw [if_pos hcut, if_pos (by rw [length_take, length_append]; omega)]
      rfl
    rw [if_neg hcut, if_neg (by rw [length_take, length_append]; omega), htype, if_neg hbody,
      ← hrest (by omega), take_take, Nat.min_eq_left (by omega), take_left, drop_take, drop_left,
      Nat.sub_sub, ← htext]
    rfl

theorem lower_eq_iff {c d : Byte} (hd : d = sp ∨ d = colon ∨ d = cr ∨ d = lf ∨ d = 0) : cstring.lower c = d ↔ c = d := by
  have hall : ∀ c d : Byte, (d = sp ∨ d = colon ∨ d = cr ∨ d = lf ∨ d = 0) → (cstring.lower c = d ↔ c = d) := by
    intro c d hd
    obtain rfl | rfl | rfl | rfl | rfl := hd
    all_goals
      revert c
      decide +kernel
  exact hall c d hd

theorem trim_map_lower (s : Text) : trim (s.map cstring.lower) = (trim s).map cstring.lower := by
  have hsp : ((fun c : Byte => decide (c = sp)) ∘ cstring.lower) = fun c => decide (c = sp) := by
    funext c
    simp only [Function.comp, lower_eq_iff (.inl rfl)]
  rw [trim, trim, List.rdropWhile, List.rdropWhile, ← map_reverse, dropWhile_map, hsp, ← map_reverse,
    dropWhile_map, hsp]

namespace Respelled

variable {line line' : Text}

section

variable (h : Respelled line line')

include h

theorem lower : line.map cstring.lower = line'.map cstring.lower := by
  rw [← takeWhile_append_dropWhile (p := fun c : Byte => decide (c ≠ colon)) (l := line),
    ← takeWhile_append_dropWhile (p := fun c : Byte => decide (c ≠ colon)) (l := line'), map_append,
    map_append, h.1, h.2]

theorem header_value_eq : header_value line = header_value line' := by
  rw [header_value, header_value, h.2]

theorem header_name_same : SameName (header_name line) (header_name line') := by
  rw [SameName, header_name, header_name, ← trim_map_lower, ← trim_map_lower, h.1]

theorem colon_mem (hcolon : colon ∈ line) : colon ∈ line' := by
  have hmem : colon ∈ line.map cstring.lower := List.mem_map.mpr ⟨colon, hcolon, rfl⟩
  rw [h.lower] at hmem
  obtain ⟨c, hc, hlower⟩ := List.mem_map.mp hmem
  rwa [(lower_eq_iff (.inr (.inl rfl))).mp hlower] at hc

theorem isLine (hline : IsLine line) : IsLine line' := by
  obtain ⟨hlength, hzero, hcrlf⟩ := hline
  have hmap := h.lower
  refine ⟨?_, ?_, ?_⟩
  · have hlengths := congrArg List.length hmap
    rw [length_map, length_map] at hlengths
    omega
  · intro hmem
    have hzero' : (0 : Byte) ∈ line'.map cstring.lower := List.mem_map.mpr ⟨0, hmem, rfl⟩
    rw [← hmap] at hzero'
    obtain ⟨c, hc, hlower⟩ := List.mem_map.mp hzero'
    rw [(lower_eq_iff (by simp)).mp hlower] at hc
    exact hzero hc
  intro hinfix
  have hinfix' := hinfix.map cstring.lower
  rw [← hmap, infix_map_iff] at hinfix'
  obtain ⟨l, hl, heq⟩ := hinfix'
  rw [show crlf.map cstring.lower = [cr, lf] from rfl, eq_comm, map_eq_cons_iff] at heq
  obtain ⟨c, rest, rfl, hc, heq⟩ := heq
  obtain ⟨d, rfl, hd⟩ := map_eq_singleton_iff.mp heq
  rw [(lower_eq_iff (by simp)).mp hc, (lower_eq_iff (by simp)).mp hd] at hl
  exact hcrlf hl

end

end Respelled

/-- A header line with another text in front of its colon. -/
def renamed (name line : Text) : Text := name ++ line.dropWhile (· ≠ colon)

theorem renamed_parts {name : Text} (hname : colon ∉ name) (line : Text) :
    (renamed name line).takeWhile (· ≠ colon) = name ∧
      (renamed name line).dropWhile (· ≠ colon) = line.dropWhile (· ≠ colon) := by
  have hne : ∀ c ∈ name, decide (c ≠ colon) = true := by
    intro c hc
    simp only [decide_eq_true_eq]
    exact fun heq => hname (heq ▸ hc)
  have hrest : (line.dropWhile (· ≠ colon)).takeWhile (· ≠ colon) = [] := by
    cases hcase : line.dropWhile (· ≠ colon) with
    | nil => rfl
    | cons c rest =>
      have hhead := head_dropWhile_not (fun c : Byte => decide (c ≠ colon)) (l := line) (by rw [hcase]; simp)
      simp only [hcase, List.head_cons] at hhead
      exact takeWhile_cons_of_neg (by simp [hhead])
  rw [renamed, takeWhile_append_of_pos hne, dropWhile_append_of_pos hne, hrest, List.append_nil, dropWhile_idempotent]
  exact ⟨rfl, rfl⟩

theorem renamed_respelled {name line : Text} (hname : colon ∉ name)
    (h : SameName (line.takeWhile (· ≠ colon)) name) : Respelled line (renamed name line) := by
  obtain ⟨htake, hdrop⟩ := renamed_parts hname line
  rw [Respelled, htake, hdrop]
  exact ⟨h, rfl⟩

theorem colon_not_mem_name (line : Text) : colon ∉ line.takeWhile (· ≠ colon) := by
  intro hmem
  have hcolon := mem_takeWhile_imp hmem
  simp at hcolon

/-- A header line with small letters only in its name. -/
def lowered (line : Text) : Text := renamed ((line.takeWhile (· ≠ colon)).map cstring.lower) line

theorem colon_not_mem_lower (line : Text) : colon ∉ (line.takeWhile (· ≠ colon)).map cstring.lower := by
  intro hmem
  obtain ⟨c, hc, hlower⟩ := List.mem_map.mp hmem
  rw [(lower_eq_iff (by simp)).mp hlower] at hc
  exact colon_not_mem_name line hc

theorem lower_lower : ∀ c : Byte, cstring.lower (cstring.lower c) = cstring.lower c := by decide +kernel

theorem lowered_respelled (line : Text) : Respelled line (lowered line) := by
  apply renamed_respelled (colon_not_mem_lower line)
  rw [SameName, List.map_map]
  congr 1
  funext c
  exact (lower_lower c).symm

theorem lowered_name_ne (line : Text) : header_name (lowered line) ≠ header_content_length := by
  rw [header_name, lowered, (renamed_parts (colon_not_mem_lower line) line).1, trim_map_lower]
  intro heq
  have hmem : (67 : Byte) ∈ header_content_length := by decide
  rw [← heq] at hmem
  obtain ⟨c, -, hc⟩ := List.mem_map.mp hmem
  have hcapital : ∀ c : Byte, cstring.lower c ≠ 67 := by decide +kernel
  exact hcapital c hc

theorem trim_split (s : Text) : ∃ a b, s = a ++ trim s ++ b ∧ (∀ c ∈ a, c = sp) ∧ ∀ c ∈ b, c = sp := by
  refine ⟨(s.rdropWhile (· = sp)).takeWhile (· = sp), s.rtakeWhile (· = sp), ?_, ?_, ?_⟩
  · rw [trim, takeWhile_append_dropWhile, rdropWhile_append_rtakeWhile]
  · intro c hc
    simpa using mem_takeWhile_imp hc
  intro c hc
  simpa using mem_rtakeWhile_imp hc

theorem trim_spaces {a b : Text} (ha : ∀ c ∈ a, c = sp) (hb : ∀ c ∈ b, c = sp) :
    trim (a ++ header_content_length ++ b) = header_content_length := by
  have hsp : ∀ s : Text, (∀ c ∈ s, c = sp) → ∀ c ∈ s, decide (c = sp) = true := by
    intro s hs c hc
    exact decide_eq_true (hs c hc)
  have hback : ∀ c ∈ b.reverse, decide (c = sp) = true := by
    intro c hc
    exact hsp b hb c (mem_reverse.mp hc)
  have hlast : header_content_length.reverse = 104 :: (ascii "Content-Lengt").reverse := by decide
  have hfirst : header_content_length = 67 :: ascii "ontent-Length" := by decide
  rw [trim, List.rdropWhile, reverse_append, dropWhile_append_of_pos hback, reverse_append, hlast,
    List.cons_append, dropWhile_cons_of_neg (by decide), ← List.cons_append, ← hlast, ← reverse_append,
    reverse_reverse, dropWhile_append_of_pos (hsp a ha), hfirst, dropWhile_cons_of_neg (by decide)]

theorem exists_found {line : Text} (h : SameName (header_name line) header_content_length) :
    ∃ line', Respelled line line' ∧ header_name line' = header_content_length := by
  obtain ⟨a, b, hsplit, ha, hb⟩ := trim_split (line.takeWhile (· ≠ colon))
  have hcolon : colon ∉ a ++ header_content_length ++ b := by
    have hspaces : ∀ s : Text, (∀ c ∈ s, c = sp) → colon ∉ s := by
      intro s hs hmem
      exact absurd (hs colon hmem) (by decide)
    rw [mem_append, mem_append, not_or, not_or]
    exact ⟨⟨hspaces a ha, by decide⟩, hspaces b hb⟩
  refine ⟨renamed (a ++ header_content_length ++ b) line, renamed_respelled hcolon ?_, ?_⟩
  · rw [SameName, header_name] at h
    rw [hsplit, SameName, map_append, map_append, h, map_append, map_append]
  · rw [header_name, (renamed_parts hcolon line).1, trim_spaces ha hb]

theorem exists_respelled {lines lines' : List Text} (h : List.Forall₂ Respelled lines lines') {line' : Text}
    (hline : line' ∈ lines') : ∃ line ∈ lines, Respelled line line' := by
  induction h with
  | nil => simp at hline
  | cons hsame _ ih =>
    obtain rfl | hmem := mem_cons.mp hline
    · exact ⟨_, mem_cons_self, hsame⟩
    obtain ⟨line, hin, hrespelled⟩ := ih hmem
    exact ⟨line, mem_cons_of_mem _ hin, hrespelled⟩

theorem Respelled.symm {line line' : Text} (h : Respelled line line') : Respelled line' line := ⟨h.1.symm, h.2.symm⟩

theorem respelled_symm {lines lines' : List Text} (h : List.Forall₂ Respelled lines lines') :
    List.Forall₂ Respelled lines' lines := h.flip.imp fun _ _ => Respelled.symm

/-- A message with its header lines in another spelling. -/
def Sent.spelled (sent : Sent) (lines : List Text) (h : List.Forall₂ sip.Respelled sent.lines lines) : Sent where
  start := sent.start
  lines := lines
  body := sent.body
  start_line := sent.start_line
  start_valid := sent.start_valid
  header_lines := by
    intro line' hline'
    obtain ⟨line, hline, hsame⟩ := exists_respelled h hline'
    obtain ⟨hisline, hcolon⟩ := sent.header_lines line hline
    exact ⟨hsame.isLine hisline, hsame.colon_mem hcolon⟩
  length := by
    intro line' hline' hname
    obtain ⟨line, hline, hsame⟩ := exists_respelled h hline'
    rw [← hsame.header_value_eq]
    exact sent.length line hline (hsame.header_name_same.trans hname)
  present := by
    intro hbody
    obtain ⟨line, hline, hname⟩ := sent.present hbody
    obtain ⟨line', hline', hsame⟩ := exists_respelled (respelled_symm h) hline
    exact ⟨line', hline', hsame.header_name_same.trans hname⟩
  size := sent.size

theorem Sent.spelled_respelled (sent : Sent) {lines : List Text} (h : List.Forall₂ sip.Respelled sent.lines lines) :
    sent.Respelled (sent.spelled lines h) := ⟨rfl, h, rfl⟩

namespace Sent.Respelled

variable {sent sent' : Sent}

theorem head_length (h : sent.Respelled sent') : sent.head.length = sent'.head.length := by
  have hlines : ∀ {lines lines' : List Text}, List.Forall₂ sip.Respelled lines lines' →
      (lines.flatMap (· ++ crlf)).length = (lines'.flatMap (· ++ crlf)).length := by
    intro lines lines' hall
    induction hall with
    | nil => rfl
    | cons hsame _ ih =>
      have hlength := congrArg List.length hsame.lower
      rw [length_map, length_map] at hlength
      simp [ih, hlength]
  simp [Sent.head, sip.head, h.1, hlines h.2.1]

theorem text_length (h : sent.Respelled sent') : sent.text.length = sent'.text.length := by
  rw [Sent.text_length, Sent.text_length, h.head_length, h.2.2]

end Sent.Respelled

theorem delivered_respelled {sent sent' : List Sent} (h : List.Forall₂ Sent.Respelled sent sent') (n : Nat) :
    delivered sent n = delivered sent' n := by
  induction h generalizing n with
  | nil => rfl
  | cons hsame _ ih => rw [delivered, delivered, hsame.text_length, hsame.1, hsame.2.2, ih]

theorem content_length_eq (bucket : Text → Nat) (sent : Sent) : content_length (sent.built bucket) =
      ((field sent.lines header_content_length).bind ov_string_dup).map fun value => (cstring.to_uint 32 value).getD 0 := by
  rw [content_length, Sent.built, get_built]
  cases field sent.lines header_content_length <;> rfl

theorem latest_of_ne {headers : List (Text × Text)} {name : Text} {found : Option Text}
    (h : ∀ header ∈ headers, header.1 ≠ name) : latest headers name found = found := by
  induction headers generalizing found with
  | nil => rfl
  | cons header headers ih =>
    obtain ⟨hhead, htail⟩ := forall_mem_cons.mp h
    rw [latest, foldl_cons, if_neg hhead, ← latest]
    exact ih htail

theorem latest_append (headers more : List (Text × Text)) (name : Text) (found : Option Text) :
    latest (headers ++ more) name found = latest more name (latest headers name found) := foldl_append

/-- There is no body, and no length is too long to be kept. -/
def Sent.Robust (sent : Sent) : Prop :=
  sent.body = [] ∧ ∀ line ∈ sent.lines, SameName (header_name line) header_content_length →
    (header_value line).length < string_default_size

theorem Sent.Robust.respelled {sent sent' : Sent} (h : sent.Robust) (hsame : sent.Respelled sent') : sent'.Robust := by
  refine ⟨hsame.2.2 ▸ h.1, ?_⟩
  intro line' hline' hname
  obtain ⟨line, hline, hrespelled⟩ := exists_respelled hsame.2.1 hline'
  rw [← hrespelled.header_value_eq]
  exact h.2 line hline (hrespelled.header_name_same.trans hname)

theorem Sent.length_read (sent : Sent) {line : Text} (hline : line ∈ sent.lines)
    (hname : SameName (header_name line) header_content_length) :
    (cstring.to_uint 32 (header_value line)).getD 0 = sent.body.length := by
  obtain ⟨hnumber, hvalue⟩ := sent.length line hline hname
  rw [cstring.to_uint_number (by omega) hnumber, hvalue, if_pos sent.size, getD_some]

section

variable (bucket : Text → Nat)

theorem Sent.Robust.framed {sent : Sent} (h : sent.Robust) : sent.Framed bucket := by
  refine ⟨?_, fun hbody => absurd h.1 hbody⟩
  have hfound : field sent.lines header_content_length ≠ none :=
    latest_ne_none (by simp [default_field])
  obtain ⟨value, hvalue⟩ := ne_none_iff_exists'.mp hfound
  rw [content_length_eq, hvalue, bind_some]
  obtain hmem | hdefault := latest_eq_some hvalue
  · obtain ⟨line, hline, hparts⟩ := List.mem_map.mp hmem
    rw [parts, Prod.mk.injEq] at hparts
    have hname : SameName (header_name line) header_content_length := by rw [hparts.1]; rfl
    have hread := sent.length_read hline hname
    have hshort := h.2 line hline hname
    rw [hparts.2] at hread hshort
    rw [ov_string_dup_short hshort, map_some, hread]
  obtain ⟨-, rfl⟩ := default_field_eq_some hdefault
  rw [h.1]
  decide +kernel

theorem Sent.content_length_lowered (sent : Sent) (h : List.Forall₂ sip.Respelled sent.lines (sent.lines.map lowered)) :
    content_length ((sent.spelled (sent.lines.map lowered) h).built bucket) = some 0 := by
  have hfield : field (sent.lines.map lowered) header_content_length = some (ascii "0") := by
    rw [field, latest_of_ne, default_field, if_pos rfl]
    intro header hheader
    rw [List.map_map] at hheader
    obtain ⟨line, -, rfl⟩ := List.mem_map.mp hheader
    exact lowered_name_ne line
  rw [content_length_eq, Sent.spelled, hfield]
  decide +kernel

theorem Sent.exists_content_length (sent : Sent) {line : Text} (hline : line ∈ sent.lines)
    (hname : SameName (header_name line) header_content_length) :
    ∃ sent', sent.Respelled sent' ∧
      content_length (sent'.built bucket) = (ov_string_dup (header_value line)).map fun _ => sent.body.length := by
  obtain ⟨line', hsame, hfound⟩ := exists_found hname
  obtain ⟨before, after, hlines⟩ := append_of_mem hline
  have hlowered : ∀ lines : List Text, List.Forall₂ sip.Respelled lines (lines.map lowered) := by
    intro lines
    rw [forall₂_map_right_iff, forall₂_same]
    exact fun line _ => lowered_respelled line
  have hall : List.Forall₂ sip.Respelled sent.lines (before.map lowered ++ line' :: after.map lowered) := by
    rw [hlines]
    exact rel_append (hlowered before) (.cons hsame (hlowered after))
  have hfield : field (before.map lowered ++ line' :: after.map lowered) header_content_length =
      some (header_value line) := by
    have hlate : ∀ header ∈ (after.map lowered).map parts, header.1 ≠ header_content_length := by
      intro header hheader
      rw [List.map_map] at hheader
      obtain ⟨line, -, rfl⟩ := List.mem_map.mp hheader
      exact lowered_name_ne line
    rw [field, map_append, map_cons, latest_append, latest, foldl_cons, ← latest, latest_of_ne hlate, parts,
      if_pos hfound, hsame.header_value_eq]
  refine ⟨sent.spelled _ hall, sent.spelled_respelled hall, ?_⟩
  rw [content_length_eq, Sent.spelled, hfield, bind_some]
  cases hkept : ov_string_dup (header_value line) with
  | none => rfl
  | some value =>
    rw [map_some, map_some, (ov_string_dup_eq_some.mp hkept).2, sent.length_read hline hname]

theorem Sent.robust_of_same {message : Sent} {sent : List Sent} {n : Nat} (hn : message.head.length ≤ n)
    (h : ∀ message', message.Respelled message' →
      observed (outputs (octet bucket) idle (stream (message :: sent) n)) =
        observed (outputs (octet bucket) idle (stream (message' :: sent) n))) : message.Robust := by
  have hsmall : List.Forall₂ sip.Respelled message.lines (message.lines.map lowered) := by
    rw [forall₂_map_right_iff, forall₂_same]
    exact fun line _ => lowered_respelled line
  have hlowered := message.spelled_respelled hsmall
  have hmissed : ∃ start more, observed (outputs (octet bucket) idle (stream (message :: sent) n)) =
      (start, none) :: more := by
    rw [h _ hlowered, stream_cons (by rw [← hlowered.head_length]; exact hn), Sent.outputs_head,
      message.content_length_lowered bucket hsmall]
    exact ⟨_, _, rfl⟩
  obtain ⟨start, more, hmissed⟩ := hmissed
  -- a length that is found must be there, and zero
  have hlines : ∀ line ∈ message.lines, SameName (header_name line) header_content_length →
      (header_value line).length < string_default_size ∧ message.body = [] := by
    intro line hline hname
    obtain ⟨found, hfound, hlength⟩ := message.exists_content_length bucket hline hname
    have hsame := h _ hfound
    rw [hmissed, stream_cons (by rw [← hfound.head_length]; exact hn), Sent.outputs_head, hlength] at hsame
    by_cases hshort : (header_value line).length < string_default_size
    · refine ⟨hshort, ?_⟩
      by_contra hbody
      have hpos := length_pos_iff.mpr hbody
      rw [ov_string_dup_short hshort, map_some] at hlength hsame
      simp only [if_neg (Nat.pos_iff_ne_zero.mp hpos), outputs_body bucket hlength hpos] at hsame
      split at hsame
      · simp [observed] at hsame
      split at hsame
      · simp [observed] at hsame
      · simp [observed, body_set] at hsame
    rw [ov_string_dup, if_neg hshort] at hsame
    simp [observed] at hsame
  refine ⟨?_, fun line hline hname => (hlines line hline hname).1⟩
  by_contra hbody
  obtain ⟨line, hline, hname⟩ := message.present hbody
  exact hbody (hlines line hline hname).2

theorem Sent.Respelled.refl (sent : Sent) : sent.Respelled sent :=
  ⟨rfl, forall₂_same.mpr fun _ _ => ⟨rfl, rfl⟩, rfl⟩

theorem all_robust_of_same {sent : List Sent} {n : Nat} (h : ∀ sent', List.Forall₂ Sent.Respelled sent sent' →
      observed (outputs (octet bucket) idle (stream sent n)) =
        observed (outputs (octet bucket) idle (stream sent' n))) {message : Sent}
    (hmessage : Received sent n message) : message.Robust := by
  induction sent generalizing n with
  | nil =>
    obtain ⟨before, after, hnil, -⟩ := hmessage
    simp at hnil
  | cons first sent ih =>
    have hrefl : List.Forall₂ Sent.Respelled sent sent := forall₂_same.mpr fun other _ => .refl other
    obtain ⟨before, after, hsplit, hle⟩ := hmessage
    have hn : first.head.length ≤ n := by
      cases before with
      | nil =>
        rw [nil_append, List.cons.injEq] at hsplit
        rw [hsplit.1]
        simpa using hle
      | cons other before =>
        rw [List.cons_append, List.cons.injEq] at hsplit
        rw [hsplit.1]
        rw [flatMap_cons, append_assoc, length_append, Sent.text_length] at hle
        omega
    have hrobust : first.Robust :=
      Sent.robust_of_same bucket hn fun message' hsame => h _ (.cons hsame hrefl)
    cases before with
    | nil =>
      rw [nil_append, List.cons.injEq] at hsplit
      rw [← hsplit.1]
      exact hrobust
    | cons other before =>
      rw [List.cons_append, List.cons.injEq] at hsplit
      obtain ⟨rfl, hsent⟩ := hsplit
      have hnext : ∀ sent', stream (first :: sent') n = first.head ++ stream sent' (n - first.head.length) := by
        intro sent'
        rw [stream_cons hn, hrobust.1, nil_append]
        rfl
      refine @ih (n - first.head.length) ?_ ⟨before, after, hsent, ?_⟩
      · intro sent' hsame
        have hwhole := h (first :: sent') (.cons (.refl first) hsame)
        rw [hnext, hnext, first.outputs_head, first.outputs_head, (hrobust.framed bucket).1, hrobust.1] at hwhole
        simpa [observed] using hwhole
      rw [flatMap_cons, append_assoc, length_append, Sent.text_length, hrobust.1, length_nil] at hle
      omega

theorem Received.respelled {sent sent' : List Sent} (h : List.Forall₂ Sent.Respelled sent sent') {n : Nat}
    {message' : Sent} (hmessage : Received sent' n message') :
    ∃ message, Received sent n message ∧ message.Respelled message' := by
  obtain ⟨before', after', hsplit, hle⟩ := hmessage
  induction h generalizing before' n with
  | nil => simp at hsplit
  | @cons first first' sent sent' hfirst hrest ih =>
    cases before' with
    | nil =>
      rw [nil_append, List.cons.injEq] at hsplit
      refine ⟨first, ⟨[], sent, rfl, ?_⟩, hsplit.1 ▸ hfirst⟩
      rw [← hsplit.1, flatMap_nil, nil_append, ← hfirst.head_length] at hle
      simpa using hle
    | cons other before' =>
      rw [List.cons_append, List.cons.injEq] at hsplit
      rw [flatMap_cons, append_assoc, length_append, ← hsplit.1, ← hfirst.text_length] at hle
      obtain ⟨message, hreceived, hsame⟩ := @ih (n - first.text.length) before' hsplit.2 (by omega)
      exact ⟨message, hreceived.cons (by omega), hsame⟩

/-- Other letters in the header names lead to the same messages if and only if no message
    whose lines were received has a body, or a length that is too long to be kept. -/
theorem same_messages_iff (sent : List Sent) (n : Nat) :
    (∀ sent', List.Forall₂ Sent.Respelled sent sent' → SameMessages bucket (stream sent n) (stream sent' n)) ↔
      ∀ message, Received sent n message → message.Robust := by
  constructor
  · intro h message hmessage
    exact all_robust_of_same bucket (fun sent' hsame => same_messages_outputs.mp (h sent' hsame)) hmessage
  intro h sent' hsame
  have hframed : ∀ message, Received sent n message → message.Framed bucket :=
    fun message hmessage => (h message hmessage).framed bucket
  have hframed' : ∀ message', Received sent' n message' → message'.Framed bucket := by
    intro message' hmessage'
    obtain ⟨message, hmessage, hrespelled⟩ := hmessage'.respelled hsame
    exact ((h message hmessage).respelled hrespelled).framed bucket
  rw [same_messages_outputs, observed_framed bucket hframed, observed_framed bucket hframed']
  exact delivered_respelled hsame n

end

/-- A message with a body of two octets, and its length in a line of which the name is given. -/
def two_octets (name : Text) (h : name = ascii "Content-Length" ∨ name = ascii "content-length") : Sent where
  start := .request (ascii "MESSAGE") (ascii "sip:a")
  lines := [ascii "Content-Type: text/plain", name ++ ascii ": 2"]
  body := ascii "hi"
  start_line := short_packet.start_line
  start_valid := short_packet.start_valid
  header_lines := by obtain rfl | rfl := h <;> decide +kernel
  length := by obtain rfl | rfl := h <;> decide +kernel
  present := by obtain rfl | rfl := h <;> decide +kernel
  size := by decide

/-- The body is not found behind a length that is spelled in small letters. -/
theorem small_letters_differ : List.Forall₂ Sent.Respelled [two_octets (ascii "Content-Length") (.inl rfl)]
        [two_octets (ascii "content-length") (.inr rfl)] ∧
      ¬ SameMessages (fun _ => 0) (stream [two_octets (ascii "Content-Length") (.inl rfl)] 100)
        (stream [two_octets (ascii "content-length") (.inr rfl)] 100) := by
  refine ⟨.cons ?_ .nil, ?_⟩
  · simp only [Sent.Respelled, two_octets, true_and, and_true]
    refine .cons ?_ (.cons ?_ .nil)
    · decide +kernel
    · decide +kernel
  · intro h
    have hsame := same_messages_outputs.mp h
    revert hsame
    decide +kernel

end openvocs.sip
