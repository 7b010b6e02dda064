import Openvocs.Sip.Serde

/-!
A write behind the end of the buffer changes none of its entries.
-/

namespace openvocs.sip.lines

structure LineBuffer where
  buffer : List Byte
  pos : Nat
  size : buffer.length = max_line_length + 1

/-- An assignment to `buffer[i]`. -/
def LineBuffer.write (lb : LineBuffer) (i : Nat) (c : Byte) : LineBuffer :=
  { lb with buffer := lb.buffer.set i c, size := by rw [List.length_set, lb.size] }

/-- What the buffer is after `calloc`. -/
def LineBuffer.zero : LineBuffer where
  buffer := List.replicate (max_line_length + 1) 0
  pos := 0
  size := List.length_replicate ..

def lb_reset (lb : LineBuffer) : LineBuffer := { lb.write 0 0 with pos := 0 }

/-- A line that is copied: how it went, the buffer and the octets that are left, and the
    indices that were written. -/
structure Copied where
  state : Element
  lb : LineBuffer
  rest : Text
  written : List Nat

/-- The loop of `lb_copy_line`. It is not entered without octets. -/
def copy_loop : LineBuffer → Byte → Text → Copied
  | lb, _, [] => ⟨.continue_, lb, [], []⟩
  | lb, last_char, c :: buf =>
    if c = lf ∧ last_char = cr then ⟨.ok, lb.write (lb.pos - 1) 0, buf, [lb.pos - 1]⟩
    else
      let next : LineBuffer := { lb.write lb.pos c with pos := lb.pos + 1 }
      if max_line_length < next.pos then ⟨.error, next.write next.pos 0, buf, [lb.pos, next.pos]⟩
      else if buf = [] then ⟨.continue_, next.write next.pos 0, [], [lb.pos, next.pos]⟩
      else
        let copied := copy_loop next c buf
        { copied with written := lb.pos :: copied.written }

def lb_copy_line (lb : LineBuffer) (buf : Text) : Copied :=
  if buf = [] then ⟨.continue_, lb, [], []⟩
  else copy_loop lb (if 0 < lb.pos then lb.buffer.getD (lb.pos - 1) 0 else 0) buf

/-- `lb_get_line`, with the string that it returns. -/
def lb_get_line (lb : LineBuffer) : Text × LineBuffer :=
  (cstring.of (lb.write lb.pos 0).buffer, lb.write lb.pos 0)

/-- A call of `lb_copy_line`, and of `lb_get_line` behind it. -/
structure Copy where
  line : Text
  buf : Text
  state : Element
  written : List Nat

/-- What is recorded of a call. -/
def record (lb : LineBuffer) (buf : Text) : Copy where
  line := lb.buffer.take lb.pos
  buf := buf
  state := (lb_copy_line lb buf).state
  written :=
    (lb_copy_line lb buf).written ++
      if (lb_copy_line lb buf).state = .ok then [(lb_copy_line lb buf).lb.pos] else []

structure SipSerde where
  phase : Phase := .start_line
  line_buffer : LineBuffer := .zero
  residuum : Option Text := none
  message : Option Message := none

section

variable (bucket : Text → Nat)

/-- `parse_start_line`, one line of it. What is written into a line while it is taken apart
    is not kept, for the line buffer is reset behind it. -/
def parse_start_line (serde : SipSerde) (buf : Text) : Element × SipSerde × Text :=
  let copied := lb_copy_line serde.line_buffer buf
  if copied.state = .ok then
    let (line, lb) := lb_get_line copied.lb
    if line = [] then (.ok_more_elements, { serde with line_buffer := lb_reset lb }, copied.rest)
    else
      match message_from_line bucket line with
      | none => (.error, { serde with line_buffer := lb_reset lb }, copied.rest)
      | some message =>
        (.ok_more_elements,
          { serde with phase := .headers, line_buffer := lb_reset lb, message := some message }, copied.rest)
  else (copied.state, { serde with line_buffer := copied.lb }, copied.rest)

/-- `parse_headers`, with the decision whether there is a body. It is `none` where a null
    pointer is read. -/
def parse_headers (serde : SipSerde) (buf : Text) : Option (Element × SipSerde × Text) :=
  let copied := lb_copy_line serde.line_buffer buf
  if copied.state = .ok then
    let (line, lb) := lb_get_line copied.lb
    serde.message.bind fun message =>
      if line = [] then
        (content_length message).map fun length =>
          if length = 0 then (.ok, { serde with line_buffer := lb }, copied.rest)
          else (.ok_more_elements, { serde with phase := .body, line_buffer := lb }, copied.rest)
      else
        match parse_header bucket message.headers line with
        | none => some (.error, { serde with line_buffer := lb_reset lb }, copied.rest)
        | some headers =>
          some (.ok_more_elements,
            { serde with line_buffer := lb_reset lb, message := some { message with headers } }, copied.rest)
  else some (copied.state, { serde with line_buffer := copied.lb }, copied.rest)

/-- `parse_body`, with `set_message_body`. -/
def parse_body (serde : SipSerde) (buf : Text) : Option (Element × SipSerde × Text) :=
  serde.message.bind fun message =>
    (content_length message).map fun length =>
      if buf.length < length then (.continue_, serde, buf)
      else
        match content_type message with
        | none => (.error, serde, buf)
        | some type =>
          (.ok, { serde with message := some (body_set bucket message (buf.take length) type) },
            buf.drop length)

def parse_raw_data (serde : SipSerde) (buf : Text) : Option (Element × SipSerde × Text) :=
  match serde.phase with
  | .start_line => some (parse_start_line bucket serde buf)
  | .headers => parse_headers bucket serde buf
  | .body => parse_body bucket serde buf
  | .done => none

/-- The call of `lb_copy_line` in `parse_raw_data`, if there is one. -/
def copies (serde : SipSerde) (buf : Text) : List Copy :=
  match serde.phase with
  | .start_line | .headers => [record serde.line_buffer buf]
  | .body | .done => []

end

theorem copy_loop_shorter (lb : LineBuffer) (last_char : Byte) (buf : Text) :
    (copy_loop lb last_char buf).state ≠ .ok_more_elements ∧
      ((copy_loop lb last_char buf).state = .ok → (copy_loop lb last_char buf).rest.length < buf.length) := by
  induction buf generalizing lb last_char with
  | nil => simp [copy_loop]
  | cons c buf ih =>
    rw [copy_loop]
    by_cases hend : c = lf ∧ last_char = cr
    · rw [if_pos hend]
      simp
    rw [if_neg hend]
    by_cases hlong : max_line_length < lb.pos + 1
    · simp [hlong]
    by_cases hbuf : buf = []
    · simp [hlong, hbuf]
    simp only [if_neg hlong, if_neg hbuf]
    obtain ⟨hstate, hrest⟩ := ih { lb.write lb.pos c with pos := lb.pos + 1 } c
    exact ⟨hstate, fun hok => (hrest hok).trans (Nat.lt_succ_self _)⟩

theorem lb_copy_line_shorter (lb : LineBuffer) (buf : Text) :
    (lb_copy_line lb buf).state ≠ .ok_more_elements ∧
      ((lb_copy_line lb buf).state = .ok → (lb_copy_line lb buf).rest.length < buf.length) := by
  rw [lb_copy_line]
  by_cases hbuf : buf = []
  · simp [hbuf]
  rw [if_neg hbuf]
  exact copy_loop_shorter lb _ buf

theorem parse_raw_data_shorter {bucket : Text → Nat} {serde next : SipSerde} {buf rest : Text}
    (h : parse_raw_data bucket serde buf = some (.ok_more_elements, next, rest)) :
    rest.length < buf.length := by
  obtain ⟨hstate, hrest⟩ := lb_copy_line_shorter serde.line_buffer buf
  rw [parse_raw_data] at h
  cases hphase : serde.phase with
  | start_line =>
    rw [hphase, Option.some.injEq, parse_start_line] at h
    by_cases hok : (lb_copy_line serde.line_buffer buf).state = .ok
    · simp only [if_pos hok] at h
      have hrest := hrest hok
      split at h
      · obtain ⟨-, -, rfl⟩ := h
        exact hrest
      split at h
      · cases h
      obtain ⟨-, -, rfl⟩ := h
      exact hrest
    simp only [if_neg hok, Prod.mk.injEq] at h
    exact absurd h.1 hstate
  | headers =>
    rw [hphase] at h
    simp only [parse_headers] at h
    by_cases hok : (lb_copy_line serde.line_buffer buf).state = .ok
    · simp only [if_pos hok, Option.bind_eq_some_iff] at h
      have hrest := hrest hok
      obtain ⟨message, -, h⟩ := h
      split at h
      · obtain ⟨length, -, h⟩ := Option.map_eq_some_iff.mp h
        split at h
        · cases h
        obtain ⟨-, -, rfl⟩ := h
        exact hrest
      split at h
      · cases h
      obtain ⟨-, -, rfl⟩ := h
      exact hrest
    simp only [if_neg hok, Option.some.injEq, Prod.mk.injEq] at h
    exact absurd h.1 hstate
  | body =>
    rw [hphase] at h
    simp only [parse_body, Option.bind_eq_some_iff, Option.map_eq_some_iff] at h
    obtain ⟨message, -, length, -, h⟩ := h
    split at h
    · cases h
    split at h
    · cases h
    · cases h
  | done => simp [hphase] at h

section

variable (bucket : Text → Nat)

/-- The loop in `parse`, with the record of the lines that were copied. -/
def parse_loop (serde : SipSerde) (buf : Text) : List Copy × Option (Element × SipSerde × Text) :=
  match _h : parse_raw_data bucket serde buf with
  | some (.ok_more_elements, next, rest) =>
    let (log, out) := parse_loop next rest
    (copies serde buf ++ log, out)
  | out => (copies serde buf, out)
termination_by buf.length
decreasing_by exact parse_raw_data_shorter (by assumption)

def reset_sip_serde (serde : SipSerde) : SipSerde where
  line_buffer := lb_reset serde.line_buffer

def parse (serde : SipSerde) (buf : Text) : List Copy × Option (State × SipSerde) :=
  if buf = [] then ([], some (.progress, serde))
  else
    let (log, out) := parse_loop bucket serde buf
    (log, out.bind fun (state, serde, rest) =>
      match state with
      | .continue_ => some (.progress, { serde with residuum := some rest })
      | .ok =>
        some (.end_, { serde with
          phase := .done, line_buffer := lb_reset serde.line_buffer, residuum := some rest })
      | .error => some (.error, reset_sip_serde serde)
      | .ok_more_elements => none)

def reset_serde (serde : SipSerde) : SipSerde :=
  if serde.phase = .done then { serde with phase := .start_line, message := none } else serde

def impl_add_raw (serde : SipSerde) (buf : Text) : List Copy × Option (State × SipSerde) :=
  parse bucket { reset_serde serde with residuum := none } (serde.residuum.getD [] ++ buf)

def get_next_message (serde : SipSerde) : List Copy × Option (Option Message × SipSerde) :=
  if serde.phase = .done then ([], some (serde.message, serde))
  else
    match serde.residuum with
    | none => ([], some (none, serde))
    | some residuum =>
      let (log, out) := impl_add_raw bucket { serde with residuum := none } residuum
      (log, out.map fun (state, serde) => (if state = .end_ then serde.message else none, serde))

def impl_pop_datum (serde : SipSerde) : List Copy × Option (Option Message × SipSerde) :=
  let (log, out) := get_next_message bucket serde
  (log, out.map fun (message, serde) =>
    if message.isSome then (message, { serde with message := none, phase := .start_line })
    else (message, serde))

/-- The calls of a parser. -/
inductive Call where
  | add_raw (buf : Text)
  | pop

def call (serde : SipSerde) : Call → List Copy × Option SipSerde
  | .add_raw buf => ((impl_add_raw bucket serde buf).1, (impl_add_raw bucket serde buf).2.map Prod.snd)
  | .pop => ((impl_pop_datum bucket serde).1, (impl_pop_datum bucket serde).2.map Prod.snd)

/-- All lines that are copied in a row of calls. It ends where a call is not defined. -/
def copied_lines : List Call → SipSerde → List Copy
  | [], _ => []
  | c :: calls, serde =>
    match call bucket serde c with
    | (log, none) => log
    | (log, some serde) => log ++ copied_lines calls serde

end

end openvocs.sip.lines
