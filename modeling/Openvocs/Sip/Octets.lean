import Openvocs.Lib.Reader
import Openvocs.Sip.Serde

open List Option

namespace openvocs.sip

open reader

/-- What was read of an incomplete message: its start line and headers as far as they
    are complete, and the octets of a line or of the body. -/
inductive Pending where
  | line (message : Option Message) (line : Text)
  | body (message : Message) (octets : Text)

/-- Nothing was read. -/
def idle : Pending := .line none []

section

variable (bucket : Text → Nat)

/-- What a complete line leads to. -/
def after_line (message : Option Message) (text : Text) : Option (Option Message × Pending) :=
  match message with
  | none =>
    if text = [] then some (none, idle)
    else (message_from_line bucket text).map fun message => (none, .line (some message) [])
  | some message =>
    if text = [] then
      (content_length message).map fun length => if length = 0 then (some message, idle) else (none, .body message [])
    else
      (parse_header bucket message.headers text).map fun headers => (none, .line (some { message with headers }) [])

def octet : Pending → Byte → Option (Option Message × Pending)
  | .line message line, c =>
    if c = lf ∧ line.getLast? = some cr then after_line bucket message (cstring.of line.dropLast)
    else if max_line_length < line.length + 1 then none
    else some (none, .line message (line ++ [c]))
  | .body message octets, c =>
    (content_length message).bind fun length =>
      if octets.length + 1 < length then some (none, .body message (octets ++ [c]))
      else (content_type message).map fun type => (some (body_set bucket message (octets ++ [c]) type), idle)

end

/-- A parser that is ready for a line. -/
structure AtLine (serde : Serde) (message : Option Message) (line : Text) : Prop where
  phase : serde.phase = if message.isNone then .start_line else .headers
  message : serde.message = message
  line : serde.line_buffer = line

/-- A parser that is ready for the body. -/
structure AtBody (serde : Serde) (message : Message) : Prop where
  phase : serde.phase = .body
  message : serde.message = some message

/-- What a parser keeps of an incomplete message. -/
def Holds (serde : Serde) : Pending → Prop
  | .line message line => AtLine serde message line ∧ serde.residuum.getD [] = []
  | .body message octets =>
    AtBody serde message ∧ serde.residuum.getD [] = octets ∧
      ∃ length, content_length message = some length ∧ octets.length < length

section

variable (bucket : Text → Nat)

variable {buf rest : Text}

theorem lb_copy_line_length {line text : Text} (h : lb_copy_line line buf = .line text rest) :
    rest.length < buf.length := by
  induction buf generalizing line with
  | nil => simp [lb_copy_line] at h
  | cons c buf ih =>
    rw [lb_copy_line] at h
    rw [length_cons]
    split at h
    · simp only [Copied.line.injEq] at h
      rw [h.2]
      omega
    split at h
    · simp at h
    have hless := ih h
    omega

theorem first_line (message : Option Message) (line buf : Text) :
    reader.first (octet bucket) (.line message line) buf =
      match lb_copy_line line buf with
      | .unfinished line => some (.waiting (.line message line))
      | .too_long => none
      | .line text rest =>
        (after_line bucket message (cstring.of text)).bind (onward (octet bucket) rest) := by
  induction buf generalizing line with
  | nil => rfl
  | cons c buf ih =>
    rw [first_cons, octet, lb_copy_line]
    by_cases hend : c = lf ∧ line.getLast? = some cr
    · simp [hend]
    by_cases hlong : max_line_length < line.length + 1
    · simp [hend, hlong]
    · simp [hend, hlong, onward, ih]

theorem first_body {message : Message} {length : Nat} (hlength : content_length message = some length)
    (octets buf : Text) (hshort : octets.length < length) :
    reader.first (octet bucket) (.body message octets) buf =
      if (octets ++ buf).length < length then some (.waiting (.body message (octets ++ buf)))
      else (content_type message).map fun type =>
        .output (body_set bucket message ((octets ++ buf).take length) type) idle ((octets ++ buf).drop length) := by
  induction buf generalizing octets with
  | nil => rw [reader.first, List.append_nil, if_pos hshort]
  | cons c buf ih =>
    rw [first_cons, octet, hlength, bind_some]
    by_cases hmore : octets.length + 1 < length
    · rw [if_pos hmore, bind_some, onward, ih _ (by simpa using hmore), append_assoc, singleton_append]
    have hfull : (octets ++ [c]).length = length := by
      rw [length_append, length_singleton]
      omega
    have hsplit : octets ++ c :: buf = (octets ++ [c]) ++ buf := by simp
    have hlong : ¬ ((octets ++ [c]) ++ buf).length < length := by
      rw [length_append, hfull]
      omega
    rw [if_neg hmore, hsplit, if_neg hlong, take_left' hfull, drop_left' hfull]
    cases content_type message <;> rfl

/-- What one round of the parser comes to that has read a line, in terms of the reader. -/
def Round (rest : Text) : Option (Option Message × Pending) → Option (Element × Serde × Text) → Prop
  | none, result => result = none ∨ ∃ serde rest, result = some (.error, serde, rest)
  | some (none, pending), result =>
    ∃ serde, result = some (.ok_more_elements, serde, rest) ∧ Holds { serde with residuum := none } pending
  | some (some message, pending), result =>
    pending = idle ∧ ∃ serde, result = some (.ok, serde, rest) ∧ serde.message = some message

/-- What the rounds of the parser come to, in terms of the reader. -/
def Outcome : Option (reader.Stop Pending Byte Message) → Option (Element × Serde × Text) → Prop
  | none, result => result = none ∨ ∃ serde rest, result = some (.error, serde, rest)
  | some (.waiting pending), result =>
    ∃ serde rest, result = some (.continue_, serde, rest) ∧ Holds { serde with residuum := some rest } pending
  | some (.output message pending rest), result =>
    pending = idle ∧ ∃ serde, result = some (.ok, serde, rest) ∧ serde.message = some message

variable {serde : Serde}

theorem round_start_line {line text : Text} (hat : AtLine serde none line)
    (hcopied : lb_copy_line line buf = .line text rest) :
    Round rest (after_line bucket none (cstring.of text)) (parse_raw_data bucket serde buf) := by
  have hphase : serde.phase = .start_line := hat.phase
  rw [parse_raw_data, hphase]
  simp only [parse_start_line, hat.line, hcopied, after_line]
  by_cases hempty : cstring.of text = []
  · rw [if_pos hempty, if_pos hempty]
    exact ⟨_, rfl, ⟨hphase, hat.message, rfl⟩, rfl⟩
  rw [if_neg hempty, if_neg hempty]
  cases message_from_line bucket (cstring.of text) with
  | none => exact .inr ⟨_, _, rfl⟩
  | some message => exact ⟨_, rfl, ⟨rfl, rfl, rfl⟩, rfl⟩

theorem round_header {message : Message} {line text : Text}
    (hat : AtLine serde (some message) line) (hcopied : lb_copy_line line buf = .line text rest) :
    Round rest (after_line bucket (some message) (cstring.of text)) (parse_raw_data bucket serde buf) := by
  have hphase : serde.phase = .headers := hat.phase
  rw [parse_raw_data, hphase]
  simp only [parse_headers, hat.line, hcopied, after_line, hat.message, bind_some]
  by_cases hempty : cstring.of text = []
  · rw [if_pos hempty, if_pos hempty]
    cases hlength : content_length message with
    | none => exact .inl rfl
    | some length =>
      by_cases hzero : length = 0
      · simp only [map_some, hzero, if_true]
        exact ⟨rfl, _, rfl, rfl⟩
      simp only [map_some, hzero, if_false]
      exact ⟨_, rfl, ⟨rfl, rfl⟩, rfl, length, hlength, Nat.pos_of_ne_zero hzero⟩
  rw [if_neg hempty, if_neg hempty]
  cases parse_header bucket message.headers (cstring.of text) with
  | none => exact .inr ⟨_, _, rfl⟩
  | some headers => exact ⟨_, rfl, ⟨hphase, rfl, rfl⟩, rfl⟩

theorem round_line {message : Option Message} {line text : Text}
    (hat : AtLine serde message line) (hcopied : lb_copy_line line buf = .line text rest) :
    Round rest (after_line bucket message (cstring.of text)) (parse_raw_data bucket serde buf) := by
  cases message with
  | none => exact round_start_line bucket hat hcopied
  | some message => exact round_header bucket hat hcopied

theorem parse_raw_data_no_line {message : Option Message} {line : Text}
    (hat : AtLine serde message line) (hcopied : ∀ text rest, lb_copy_line line buf ≠ .line text rest) :
    parse_raw_data bucket serde buf =
      match lb_copy_line line buf with
      | .unfinished line => some (.continue_, { serde with line_buffer := line }, [])
      | _ => none := by
  cases message with
  | none =>
    have hphase : serde.phase = .start_line := hat.phase
    simp only [parse_raw_data, hphase, parse_start_line, hat.line]
    cases hcase : lb_copy_line line buf with
    | line text rest => exact absurd hcase (hcopied text rest)
    | unfinished line => rfl
    | too_long => rfl
  | some message =>
    have hphase : serde.phase = .headers := hat.phase
    simp only [parse_raw_data, hphase, parse_headers, hat.line]
    cases hcase : lb_copy_line line buf with
    | line text rest => exact absurd hcase (hcopied text rest)
    | unfinished line => rfl
    | too_long => rfl

theorem rounds_body {message : Message} {length : Nat} (hat : AtBody serde message)
    (hlength : content_length message = some length) (hpos : 0 < length) (rounds : Nat) (buf : Text) :
    Outcome (reader.first (octet bucket) (.body message []) buf) (parse_rounds bucket (rounds + 1) serde buf) := by
  rw [parse_rounds, parse_raw_data, hat.phase]
  simp only [parse_body, hat.message, bind_some, hlength, map_some]
  rw [first_body bucket hlength [] buf hpos, nil_append]
  by_cases hshort : buf.length < length
  · rw [if_pos hshort, if_pos hshort]
    exact ⟨serde, buf, rfl, ⟨hat.phase, hat.message⟩, rfl, length, hlength, hshort⟩
  rw [if_neg hshort, if_neg hshort]
  cases content_type message with
  | none => exact .inr ⟨_, _, rfl⟩
  | some type => exact ⟨rfl, _, rfl, rfl⟩

theorem rounds_outcome (rounds : Nat) {pending : Pending} (hfuel : buf.length < rounds)
    (hholds : Holds { serde with residuum := none } pending) :
    Outcome (reader.first (octet bucket) pending buf) (parse_rounds bucket rounds serde buf) := by
  induction rounds generalizing serde pending buf with
  | zero => omega
  | succ rounds ih =>
    cases pending with
    | body message octets =>
      obtain ⟨⟨hphase, hmessage⟩, hempty, length, hlength, hpos⟩ := hholds
      rw [show octets = [] from hempty.symm] at hpos ⊢
      have hat : AtBody serde message := ⟨hphase, hmessage⟩
      exact rounds_body bucket hat hlength hpos rounds buf
    | line message line =>
      obtain ⟨⟨hphase, hmessage, hline⟩, -⟩ := hholds
      have hat : AtLine serde message line := ⟨hphase, hmessage, hline⟩
      rw [first_line, parse_rounds]
      cases hcopied : lb_copy_line line buf with
      | unfinished line' =>
        rw [parse_raw_data_no_line bucket hat (by simp [hcopied]), hcopied]
        exact ⟨_, [], rfl, ⟨hphase, hmessage, rfl⟩, rfl⟩
      | too_long =>
        rw [parse_raw_data_no_line bucket hat (by simp [hcopied]), hcopied]
        exact .inl rfl
      | line text rest =>
        have hround := round_line bucket hat hcopied
        have hless := lb_copy_line_length hcopied
        simp only
        cases hafter : after_line bucket message (cstring.of text) with
        | none =>
          rw [hafter] at hround
          obtain hnone | ⟨serde', rest', herror⟩ := hround
          · rw [hnone]
            exact .inl rfl
          rw [herror]
          exact .inr ⟨serde', rest', rfl⟩
        | some after =>
          obtain ⟨out, pending⟩ := after
          rw [hafter] at hround
          cases out with
          | none =>
            obtain ⟨serde', hresult, hholds'⟩ := hround
            rw [hresult]
            exact ih (by omega) hholds'
          | some out =>
            obtain ⟨hidle, serde', hresult, hmessage'⟩ := hround
            rw [hresult]
            exact ⟨hidle, serde', rfl, hmessage'⟩

/-- A parser that has a message, with what comes behind it. -/
structure Ready (serde : Serde) (message : Message) (rest : Text) : Prop where
  phase : serde.phase = .done
  message : serde.message = some message
  line : serde.line_buffer = []
  residuum : serde.residuum = some rest

/-- What a call that adds octets comes to, in terms of the reader. -/
def Added : Option (reader.Stop Pending Byte Message) → Option (State × Serde) → Prop
  | none, result => result = none ∨ ∃ serde, result = some (.error, serde)
  | some (.waiting pending), result => ∃ serde, result = some (.progress, serde) ∧ Holds serde pending
  | some (.output message pending rest), result =>
    pending = idle ∧ ∃ serde, result = some (.end_, serde) ∧ Ready serde message rest

theorem parse_added {pending : Pending}
    (hholds : Holds { serde with residuum := none } pending) (hbuf : buf ≠ []) :
    Added (reader.first (octet bucket) pending buf) (parse bucket serde buf) := by
  have houtcome := rounds_outcome bucket (buf.length + 1) (Nat.lt_succ_self _) hholds
  rw [parse, if_neg hbuf]
  cases hfirst : reader.first (octet bucket) pending buf with
  | none =>
    rw [hfirst] at houtcome
    obtain hnone | ⟨serde', rest, herror⟩ := houtcome
    · rw [hnone]
      exact .inl rfl
    rw [herror]
    exact .inr ⟨_, rfl⟩
  | some stop =>
    rw [hfirst] at houtcome
    cases stop with
    | waiting pending' =>
      obtain ⟨serde', rest, hresult, hholds'⟩ := houtcome
      rw [hresult]
      exact ⟨_, rfl, hholds'⟩
    | output message pending' rest =>
      obtain ⟨hidle, serde', hresult, hmessage⟩ := houtcome
      rw [hresult]
      exact ⟨hidle, _, rfl, rfl, hmessage, rfl, rfl⟩

theorem Holds.phase_ne {pending : Pending} (h : Holds serde pending) : serde.phase ≠ .done := by
  intro hdone
  cases pending with
  | line message line =>
    have hphase := h.1.phase
    rw [hdone] at hphase
    cases message <;> simp at hphase
  | body message octets =>
    have hphase := h.1.phase
    rw [hdone] at hphase
    simp at hphase

theorem Holds.reset_serde {pending : Pending} (h : Holds serde pending) : reset_serde serde = serde := by
  rw [sip.reset_serde, if_neg h.phase_ne]

theorem impl_add_raw_added {pending : Pending} (hholds : Holds serde pending) (buf : Text) :
    Added (reader.first (octet bucket) pending buf) (impl_add_raw bucket serde buf) := by
  rw [impl_add_raw, hholds.reset_serde]
  cases pending with
  | line message line =>
    obtain ⟨⟨hphase, hmessage, hline⟩, hempty⟩ := hholds
    have hholds' : Holds { serde with residuum := none } (.line message line) := ⟨⟨hphase, hmessage, hline⟩, rfl⟩
    rw [hempty, nil_append]
    by_cases hbuf : buf = []
    · rw [hbuf, parse, if_pos rfl]
      exact ⟨_, rfl, hholds'⟩
    · exact parse_added bucket hholds' hbuf
  | body message octets =>
    obtain ⟨⟨hphase, hmessage⟩, hoctets, length, hlength, hshort⟩ := hholds
    have hpos : 0 < length := by omega
    have hholds' : Holds { serde with residuum := none } (.body message []) :=
      ⟨⟨hphase, hmessage⟩, rfl, length, hlength, hpos⟩
    -- the octets of the body that are there already are read once more
    have hfirst : reader.first (octet bucket) (.body message octets) buf =
        reader.first (octet bucket) (.body message []) (octets ++ buf) := by
      rw [first_body bucket hlength octets buf hshort, first_body bucket hlength [] (octets ++ buf) hpos, nil_append]
    rw [hoctets, hfirst]
    by_cases hbuf : octets ++ buf = []
    · rw [hbuf, parse, if_pos rfl]
      exact ⟨_, rfl, hholds'⟩
    · exact parse_added bucket hholds' hbuf

theorem impl_pop_datum_ready {message : Message} (h : Ready serde message rest) :
    ∃ serde', impl_pop_datum bucket serde = some (.end_, some message, serde') ∧
      Holds { serde' with residuum := none } idle ∧ serde'.residuum = some rest := by
  have hnext : get_next_message bucket serde = some (.end_, some message, serde) := by
    rw [get_next_message, if_pos h.phase, h.message]
  rw [impl_pop_datum, hnext]
  exact ⟨_, rfl, ⟨⟨rfl, rfl, h.line⟩, rfl⟩, h.residuum⟩

theorem impl_pop_datum_residuum {pending : Pending}
    (hholds : Holds { serde with residuum := none } pending) (hresiduum : serde.residuum = some rest) :
    impl_pop_datum bucket serde =
      (impl_add_raw bucket { serde with residuum := none } rest).map fun (state, serde) =>
        if (if state = .end_ then serde.message else none).isSome then
          (state, serde.message, { serde with message := none, phase := .start_line })
        else (state, none, serde) := by
  have hphase : serde.phase ≠ .done := hholds.phase_ne
  rw [impl_pop_datum, get_next_message, if_neg hphase]
  simp only [hresiduum, Option.map_map]
  congr 1
  funext ⟨state, serde⟩
  by_cases hend : state = .end_ <;> simp [hend]

theorem impl_pop_datum_holds {pending : Pending} (hholds : Holds serde pending) :
    ∃ serde', impl_pop_datum bucket serde = some (.progress, none, serde') ∧ Holds serde' pending := by
  cases hresiduum : serde.residuum with
  | none =>
    have hnext : get_next_message bucket serde = some (.progress, none, serde) := by
      rw [get_next_message, if_neg hholds.phase_ne, hresiduum]
    rw [impl_pop_datum, hnext]
    exact ⟨serde, rfl, hholds⟩
  | some rest =>
    -- the residuum is read once more, from where its first octet was read
    have hagain : ∃ start, Holds { serde with residuum := none } start ∧
        reader.first (octet bucket) start rest = some (.waiting pending) := by
      cases pending with
      | line message line =>
        obtain ⟨⟨hphase, hmessage, hline⟩, hempty⟩ := hholds
        rw [hresiduum, getD_some] at hempty
        exact ⟨.line message line, ⟨⟨hphase, hmessage, hline⟩, rfl⟩, by rw [hempty]; rfl⟩
      | body message octets =>
        obtain ⟨⟨hphase, hmessage⟩, hoctets, length, hlength, hshort⟩ := hholds
        rw [hresiduum, getD_some] at hoctets
        have hpos : 0 < length := by omega
        refine ⟨.body message [], ⟨⟨hphase, hmessage⟩, rfl, length, hlength, hpos⟩, ?_⟩
        rw [hoctets, first_body bucket hlength [] octets hpos, nil_append, if_pos hshort]
    obtain ⟨start, hstart, hfirst⟩ := hagain
    have hadded := impl_add_raw_added bucket hstart rest
    rw [hfirst] at hadded
    obtain ⟨serde', hresult, hholds'⟩ := hadded
    rw [impl_pop_datum_residuum bucket hstart hresiduum, hresult]
    exact ⟨serde', rfl, hholds'⟩

/-- What adding a chunk and popping all messages comes to, in terms of the reader. -/
def Fed : Option (List Message × Pending) → Option (List Message × Serde) → Prop
  | none, result => result = none
  | some (messages, pending), result => ∃ serde, result = some (messages, serde) ∧ Holds serde pending

theorem Fed.map {read : Option (List Message × Pending)} {result : Option (List Message × Serde)} (h : Fed read result)
    (f : List Message → List Message) :
    Fed (read.map fun (messages, pending) => (f messages, pending))
      (result.map fun (messages, serde) => (f messages, serde)) := by
  cases read with
  | none =>
    rw [show result = none from h]
    rfl
  | some read =>
    obtain ⟨serde, hresult, hholds⟩ := h
    rw [hresult]
    exact ⟨serde, rfl, hholds⟩

theorem pop_all_residuum (pops : Nat) (hfuel : rest.length < pops)
    (hidle : Holds { serde with residuum := none } idle) (hresiduum : serde.residuum = some rest) :
    Fed (reader.run (octet bucket) idle rest) (pop_all bucket pops serde) := by
  induction pops generalizing serde rest with
  | zero => omega
  | succ pops ih =>
    have hadded := impl_add_raw_added bucket hidle rest
    rw [pop_all, impl_pop_datum_residuum bucket hidle hresiduum, run_eq_first]
    cases hfirst : reader.first (octet bucket) idle rest with
    | none =>
      rw [hfirst] at hadded
      obtain hnone | ⟨serde', herror⟩ := hadded
      · rw [hnone]
        rfl
      rw [herror]
      rfl
    | some stop =>
      rw [hfirst] at hadded
      cases stop with
      | waiting pending =>
        obtain ⟨serde', hresult, hholds⟩ := hadded
        rw [hresult]
        exact ⟨serde', rfl, hholds⟩
      | output message pending behind =>
        obtain ⟨rfl, serde', hresult, hready⟩ := hadded
        have hless := first_output_length _ hfirst
        have hfed : Fed (reader.run (octet bucket) idle behind)
            (pop_all bucket pops { serde' with message := none, phase := .start_line }) :=
          ih (by omega) ⟨⟨rfl, rfl, hready.line⟩, rfl⟩ hready.residuum
        rw [hresult]
        simp only [map_some, bind_some, if_true, hready.message, isSome_some, reduceCtorEq, if_false]
        exact hfed.map (message :: ·)

theorem feed_fed {pending : Pending} (hholds : Holds serde pending) (chunk : Text) :
    Fed (reader.run (octet bucket) pending chunk) (feed bucket serde chunk) := by
  have hadded := impl_add_raw_added bucket hholds chunk
  rw [feed, run_eq_first]
  cases hfirst : reader.first (octet bucket) pending chunk with
  | none =>
    rw [hfirst] at hadded
    obtain hnone | ⟨serde', herror⟩ := hadded
    · rw [hnone]
      rfl
    rw [herror]
    rfl
  | some stop =>
    rw [hfirst] at hadded
    cases stop with
    | waiting pending' =>
      obtain ⟨serde', hresult, hholds'⟩ := hadded
      obtain ⟨serde'', hpopped, hholds''⟩ := impl_pop_datum_holds bucket hholds'
      rw [hresult]
      simp only [bind_some, reduceCtorEq, if_false, pop_all, hpopped]
      exact ⟨serde'', rfl, hholds''⟩
    | output message pending' rest =>
      obtain ⟨rfl, serde', hresult, hready⟩ := hadded
      obtain ⟨serde'', hpopped, hidle, hresiduum⟩ := impl_pop_datum_ready bucket hready
      have hfuel : rest.length < (serde'.residuum.getD []).length + 1 := by
        rw [hready.residuum, getD_some]
        omega
      have hfed := pop_all_residuum bucket _ hfuel hidle hresiduum
      rw [hresult]
      simp only [bind_some, reduceCtorEq, if_false]
      rw [pop_all, hpopped]
      exact hfed.map (message :: ·)

theorem feed_all_fed {pending : Pending} (hholds : Holds serde pending) (chunks : List Text) :
    Fed (reader.run (octet bucket) pending chunks.flatten) (feed_all bucket chunks serde) := by
  induction chunks generalizing serde pending with
  | nil => exact ⟨serde, rfl, hholds⟩
  | cons chunk chunks ih =>
    have hfed := feed_fed bucket hholds chunk
    rw [flatten_cons, run_append, feed_all]
    cases hrun : reader.run (octet bucket) pending chunk with
    | none =>
      rw [hrun] at hfed
      rw [hfed]
      rfl
    | some read =>
      obtain ⟨messages, pending'⟩ := read
      rw [hrun] at hfed
      obtain ⟨serde', hresult, hholds'⟩ := hfed
      rw [hresult]
      exact (ih hholds').map (messages ++ ·)

theorem holds_new : Holds {} idle := ⟨⟨rfl, rfl, rfl⟩, rfl⟩

end

end openvocs.sip
