import Mathlib.Data.List.Induction
import Openvocs.Sip.LineBuffer

open List Option

namespace openvocs.sip.lines

/-- A line is in front of the buffer, up to its position. -/
structure LineBuffer.Holds (lb : LineBuffer) (line : Text) : Prop where
  front : line <+: lb.buffer
  pos : lb.pos = line.length

section

variable {lb : LineBuffer} {line : Text}

theorem LineBuffer.Holds.take (h : lb.Holds line) : lb.buffer.take lb.pos = line := by
  rw [h.pos]
  exact (prefix_iff_eq_take.mp h.front).symm

theorem holds_nil (h : lb.pos = 0) : lb.Holds [] := ⟨ nil_prefix, h⟩

@[simp] theorem write_buffer (lb : LineBuffer) (i : Nat) (c : Byte) :
    (lb.write i c).buffer = lb.buffer.set i c := rfl

@[simp] theorem write_pos (lb : LineBuffer) (i : Nat) (c : Byte) : (lb.write i c).pos = lb.pos := rfl

theorem LineBuffer.Holds.write (h : lb.Holds line) {i : Nat} (hi : line.length ≤ i) (c : Byte) :
    (lb.write i c).Holds line := by
  obtain ⟨behind, hbehind⟩ := h.front
  refine ⟨?_, h.pos⟩
  rw [write_buffer, ← hbehind, set_append_right _ _ hi]
  exact prefix_append ..

theorem LineBuffer.Holds.put (h : lb.Holds line) (hline : line.length ≤ max_line_length) (c : Byte) :
    LineBuffer.Holds { lb.write lb.pos c with pos := lb.pos + 1 } (line ++ [c]) := by
  obtain ⟨behind, hbehind⟩ := h.front
  refine ⟨?_, by simp [h.pos]⟩
  have hsize := lb.size
  rw [← hbehind, length_append] at hsize
  obtain ⟨old, behind, rfl⟩ : ∃ old rest, behind = old :: rest := exists_cons_of_length_pos (by omega)
  refine ⟨behind, ?_⟩
  rw [write_buffer, h.pos, ← hbehind, set_append_right _ _ Nat.le.refl, Nat.sub_self, set_cons_zero, append_assoc]
  rfl

theorem LineBuffer.Holds.last (h : lb.Holds line) :
    (if 0 < lb.pos then lb.buffer.getD (lb.pos - 1) 0 else 0) = line.getLast?.getD 0 := by
  rw [h.pos]
  cases hline : line using List.reverseRecOn with
  | nil => simp
  | append_singleton before c =>
    subst hline
    obtain ⟨behind, hbehind⟩ := h.front
    simp [← hbehind]

/-- What a call of `lb_copy_line` does, seen from the octets of the line. -/
def Copied.Agrees (out : Copied) : sip.Copied → Prop
  | .line text rest =>
    out.state = .ok ∧ out.rest = rest ∧ text ++ [0] <+: out.lb.buffer ∧ out.lb.pos = text.length + 1 ∧
      out.lb.pos ≤ max_line_length ∧ ∀ i ∈ out.written, i ≤ max_line_length
  | .unfinished line =>
    out.state = .continue_ ∧ out.rest = [] ∧ out.lb.Holds line ∧ line.length ≤ max_line_length ∧
      ∀ i ∈ out.written, i ≤ max_line_length
  | .too_long => out.state = .error ∧ max_line_length + 1 ∈ out.written

theorem Copied.Agrees.written {out : Copied} {copied : sip.Copied} (h : out.Agrees copied) {i : Nat}
    (hi : i ≤ max_line_length) : Copied.Agrees { out with written := i :: out.written } copied := by
  cases copied with
  | line text rest =>
    obtain ⟨hstate, hrest, htext, hpos, hbound, hwritten⟩ := h
    exact ⟨hstate, hrest, htext, hpos, hbound, forall_mem_cons.mpr ⟨hi, hwritten⟩⟩
  | unfinished line =>
    obtain ⟨hstate, hrest, hholds, hbound, hwritten⟩ := h
    exact ⟨hstate, hrest, hholds, hbound, forall_mem_cons.mpr ⟨hi, hwritten⟩⟩
  | too_long => exact ⟨h.1, mem_cons_of_mem i h.2⟩

end

theorem last_eq_cr_iff (line : Text) : line.getLast?.getD 0 = cr ↔ line.getLast? = some cr := by
  cases line.getLast? with
  | none => simp [cr]
  | some c => simp

theorem copy_loop_agrees {lb : LineBuffer} {line : Text} (h : lb.Holds line)
    (hline : line.length ≤ max_line_length) (buf : Text) :
    (copy_loop lb (line.getLast?.getD 0) buf).Agrees (sip.lb_copy_line line buf) := by
  induction buf generalizing lb line with
  | nil => exact ⟨rfl, rfl, h, hline, by simp [copy_loop]⟩
  | cons c buf ih =>
    rw [copy_loop, sip.lb_copy_line]
    have hlast := last_eq_cr_iff line
    by_cases hend : c = lf ∧ line.getLast? = some cr
    · rw [if_pos (hend.imp_right hlast.mpr), if_pos hend]
      obtain ⟨before, rfl⟩ := getLast?_eq_some_iff.mp hend.2
      obtain ⟨behind, hbehind⟩ := h.front
      have hpos := h.pos
      rw [length_append, length_singleton] at hpos hline
      refine ⟨rfl, rfl, ⟨behind, ?_⟩, ?_, ?_, ?_⟩
      · simp [← hbehind, hpos]
      · simp [hpos]
      · simpa [hpos] using hline
      simp [hpos]
      omega
    rw [if_neg (fun h => hend (h.imp_right hlast.mp)), if_neg hend]
    have hnext := h.put hline c
    have hlength : (line ++ [c]).length = line.length + 1 := by simp
    rw [← h.pos]
    by_cases hlong : max_line_length < lb.pos + 1
    · simp only [if_pos hlong]
      have hpos := h.pos
      refine ⟨rfl, ?_⟩
      rw [show max_line_length + 1 = lb.pos + 1 by omega]
      simp
    simp only [if_neg hlong]
    cases buf with
    | nil =>
      rw [if_pos rfl]
      refine ⟨rfl, rfl, hnext.write (Nat.le_of_eq (by simp [h.pos])) 0, ?_, ?_⟩
      · rw [hlength, ← h.pos]
        omega
      simp
      omega
    | cons d buf =>
      rw [if_neg (cons_ne_nil d buf)]
      have hagrees := ih hnext (by rw [hlength, ← h.pos]; omega)
      rw [getLast?_append_of_ne_nil _ (cons_ne_nil c []), getLast?_singleton, getD_some]
        at hagrees
      exact hagrees.written (by omega)

theorem lb_copy_line_agrees {lb : LineBuffer} {line : Text} (h : lb.Holds line)
    (hline : line.length ≤ max_line_length) (buf : Text) :
    (lb_copy_line lb buf).Agrees (sip.lb_copy_line line buf) := by
  rw [lb_copy_line]
  by_cases hbuf : buf = []
  · subst hbuf
    exact ⟨rfl, rfl, h, hline, by simp⟩
  rw [if_neg hbuf, h.last]
  exact copy_loop_agrees h hline buf

/-- The octets of a line in front of its line feed, as far as they are there: what came in
    already, and what follows. -/
def octets : Text → Text → Text
  | line, [] => line
  | line, c :: buf => if c = lf ∧ line.getLast? = some cr then line else octets (line ++ [c]) buf

theorem length_le_octets (line buf : Text) : line.length ≤ (octets line buf).length := by
  induction buf generalizing line with
  | nil => exact Nat.le.refl
  | cons c buf ih =>
    rw [octets]
    by_cases hend : c = lf ∧ line.getLast? = some cr
    · rw [if_pos hend]
    rw [if_neg hend]
    exact (by simp : line.length ≤ (line ++ [c]).length).trans (ih (line ++ [c]))

theorem too_long_iff {line : Text} (hline : line.length ≤ max_line_length) (buf : Text) :
    sip.lb_copy_line line buf = .too_long ↔ max_line_length < (octets line buf).length := by
  induction buf generalizing line with
  | nil => simp [sip.lb_copy_line, octets, hline]
  | cons c buf ih =>
    rw [sip.lb_copy_line, octets]
    by_cases hend : c = lf ∧ line.getLast? = some cr
    · simp [if_pos hend, hline]
    rw [if_neg hend, if_neg hend]
    by_cases hlong : max_line_length < line.length + 1
    · have hle := length_le_octets (line ++ [c]) buf
      rw [length_append, length_singleton] at hle
      rw [if_pos hlong]
      exact iff_of_true rfl (by omega)
    rw [if_neg hlong]
    exact ih (by rw [length_append, length_singleton]; omega)

/-- A call writes nothing outside of the line buffer. -/
def Copy.Inside (c : Copy) : Prop := ∀ i ∈ c.written, i < max_line_length + 1

/-- A call rejects a line if and only if it has too many octets in front of its line feed. -/
def Copy.Exact (c : Copy) : Prop := c.state = .error ↔ max_line_length < (octets c.line c.buf).length

/-- The octets of the line that came in so far, behind a call. -/
def Copy.after (c : Copy) : Text := if c.state = .continue_ then c.line ++ c.buf else []

/-- Every call goes on with the octets of the line that came in before. -/
def Follows : Text → List Copy → Prop
  | _, [] => True
  | line, c :: log => c.line = line ∧ Follows c.after log

/-- The octets of the line that came in so far, behind some calls. -/
def pending : Text → List Copy → Text
  | line, [] => line
  | _, c :: log => pending c.after log

theorem pending_append (line : Text) (before log : List Copy) :
    pending line (before ++ log) = pending (pending line before) log := by
  induction before generalizing line with
  | nil => rfl
  | cons c before ih => exact ih c.after

theorem Follows.append {line : Text} {before log : List Copy} (hbefore : Follows line before)
    (hlog : Follows (pending line before) log) : Follows line (before ++ log) := by
  induction before generalizing line with
  | nil => exact hlog
  | cons c before ih => exact ⟨hbefore.1, ih hbefore.2 hlog⟩

theorem line_of_unfinished {line buf line' : Text} (h : sip.lb_copy_line line buf = .unfinished line') :
    line' = line ++ buf := by
  induction buf generalizing line with
  | nil =>
    rw [sip.lb_copy_line, sip.Copied.unfinished.injEq] at h
    rw [← h, List.append_nil]
  | cons c buf ih =>
    rw [sip.lb_copy_line] at h
    by_cases hend : c = lf ∧ line.getLast? = some cr
    · rw [if_pos hend] at h
      cases h
    rw [if_neg hend] at h
    by_cases hlong : max_line_length < line.length + 1
    · rw [if_pos hlong] at h
      cases h
    rw [if_neg hlong] at h
    rw [ih h, append_assoc]
    rfl

section

variable {lb : LineBuffer} {line : Text}

theorem record_exact (h : lb.Holds line) (hline : line.length ≤ max_line_length) (buf : Text) :
    (record lb buf).Exact ∧ ((record lb buf).Inside ↔ (octets line buf).length ≤ max_line_length) := by
  have hagrees := lb_copy_line_agrees h hline buf
  have hlong := too_long_iff hline buf
  rw [Copy.Exact, record, h.take]
  cases hcopied : sip.lb_copy_line line buf with
  | line text rest =>
    rw [hcopied] at hagrees hlong
    obtain ⟨hstate, -, -, -, hpos, hwritten⟩ := hagrees
    have hshort : (octets line buf).length ≤ max_line_length := by simpa using hlong
    refine ⟨iff_of_false (by simp [hstate]) (Nat.not_lt.mpr hshort), iff_of_true ?_ hshort⟩
    intro i hi
    rw [if_pos hstate, mem_append, mem_singleton] at hi
    obtain hi | rfl := hi
    · exact Nat.lt_succ_of_le (hwritten i hi)
    · exact Nat.lt_succ_of_le hpos
  | unfinished line' =>
    rw [hcopied] at hagrees hlong
    obtain ⟨hstate, -, -, -, hwritten⟩ := hagrees
    have hshort : (octets line buf).length ≤ max_line_length := by simpa using hlong
    refine ⟨iff_of_false (by simp [hstate]) (Nat.not_lt.mpr hshort), iff_of_true ?_ hshort⟩
    intro i hi
    rw [if_neg (by simp [hstate]), List.append_nil] at hi
    exact Nat.lt_succ_of_le (hwritten i hi)
  | too_long =>
    rw [hcopied] at hagrees hlong
    have hlong := hlong.mp rfl
    refine ⟨iff_of_true hagrees.1 hlong, iff_of_false ?_ (by omega)⟩
    intro hinside
    exact absurd (hinside _ (mem_append_left _ hagrees.2)) (Nat.lt_irrefl _)

theorem copy_continued (h : lb.Holds line) (hline : line.length ≤ max_line_length) {buf : Text}
    (hstate : (lb_copy_line lb buf).state = .continue_) :
    (lb_copy_line lb buf).lb.Holds (line ++ buf) ∧ (line ++ buf).length ≤ max_line_length := by
  have hagrees := lb_copy_line_agrees h hline buf
  cases hcopied : sip.lb_copy_line line buf with
  | line text rest =>
    rw [hcopied] at hagrees
    rw [hagrees.1] at hstate
    cases hstate
  | unfinished line' =>
    rw [hcopied] at hagrees
    obtain ⟨-, -, hholds, hshort, -⟩ := hagrees
    rw [line_of_unfinished hcopied] at hholds hshort
    exact ⟨hholds, hshort⟩
  | too_long =>
    rw [hcopied] at hagrees
    rw [hagrees.1] at hstate
    cases hstate

end

/-- What is known about a parser while octets of a line came in. The line buffer is not
    used while a body is read. -/
def Ready (serde : SipSerde) (line : Text) : Prop :=
  if serde.phase = .body then line = []
  else serde.line_buffer.Holds line ∧ line.length ≤ max_line_length

/-- How a round leaves the parser, with the octets of the line that are pending behind it. -/
def Left (line : Text) : Element × SipSerde → Prop
  | (.ok, _) | (.error, _) => line = []
  | (.continue_, next) | (.ok_more_elements, next) => next.phase ≠ .done ∧ Ready next line

section

variable {bucket : Text → Nat} {serde : SipSerde} {line buf : Text}

theorem ready_of_holds (hphase : serde.phase ≠ .body) (h : serde.line_buffer.Holds line)
    (hline : line.length ≤ max_line_length) : Ready serde line := by
  rw [Ready, if_neg hphase]
  exact ⟨h, hline⟩

theorem ready_of_reset (hphase : serde.phase ≠ .body) (h : serde.line_buffer.pos = 0) : Ready serde [] :=
  ready_of_holds hphase (holds_nil h) (Nat.zero_le _)

theorem after_of_ok {lb : LineBuffer} (h : (lb_copy_line lb buf).state = .ok) : (record lb buf).after = [] :=
  if_neg (by simp [record, h])

theorem left_of_copied {lb : LineBuffer} (h : lb.Holds line) (hline : line.length ≤ max_line_length)
    (hstate : (lb_copy_line lb buf).state ≠ .ok) (hbody : serde.phase ≠ .body) (hdone : serde.phase ≠ .done) :
    Left (record lb buf).after
      ((lb_copy_line lb buf).state, { serde with line_buffer := (lb_copy_line lb buf).lb }) := by
  have hagrees := lb_copy_line_agrees h hline buf
  have hcontinued := @copy_continued lb line h hline buf
  have hafter : (record lb buf).after = if (lb_copy_line lb buf).state = .continue_ then line ++ buf else [] := by
    rw [Copy.after, record, h.take]
  rw [hafter]
  cases hcopied : (lb_copy_line lb buf).state with
  | ok => exact absurd hcopied hstate
  | error => exact if_neg (by simp)
  | continue_ =>
    obtain ⟨hholds, hshort⟩ := hcontinued hcopied
    rw [if_pos rfl]
    exact ⟨hdone, ready_of_holds hbody hholds hshort⟩
  | ok_more_elements => cases hspec : sip.lb_copy_line line buf <;> simp [Copied.Agrees, hspec, hcopied] at hagrees

section

variable (hready : Ready serde line)

include hready

theorem start_line_left (hphase : serde.phase = .start_line) :
    Left (record serde.line_buffer buf).after
      ((parse_start_line bucket serde buf).1, (parse_start_line bucket serde buf).2.1) := by
  rw [Ready, if_neg (by simp [hphase])] at hready
  rw [parse_start_line]
  by_cases hok : (lb_copy_line serde.line_buffer buf).state = .ok
  · rw [after_of_ok hok]
    simp only [if_pos hok]
    split
    · exact ⟨by simp [hphase], ready_of_reset (by simp [hphase]) rfl⟩
    split
    · exact rfl
    · exact ⟨by simp, ready_of_reset (by simp) rfl⟩
  simp only [if_neg hok]
  exact left_of_copied hready.1 hready.2 hok (by simp [hphase]) (by simp [hphase])

theorem headers_left (hphase : serde.phase = .headers) {state : Element}
    {next : SipSerde} {rest : Text} (h : parse_headers bucket serde buf = some (state, next, rest)) :
    Left (record serde.line_buffer buf).after (state, next) := by
  rw [Ready, if_neg (by simp [hphase])] at hready
  rw [parse_headers] at h
  by_cases hok : (lb_copy_line serde.line_buffer buf).state = .ok
  · rw [after_of_ok hok]
    simp only [if_pos hok, bind_eq_some_iff] at h
    obtain ⟨message, -, h⟩ := h
    split at h
    · obtain ⟨length, -, h⟩ := map_eq_some_iff.mp h
      split at h
      · obtain ⟨rfl, -, -⟩ := h
        exact rfl
      obtain ⟨rfl, rfl, -⟩ := h
      exact ⟨by simp, by simp [Ready]⟩
    split at h
    · obtain ⟨rfl, -, -⟩ := h
      exact rfl
    obtain ⟨rfl, rfl, -⟩ := h
    exact ⟨by simp [hphase], ready_of_reset (by simp [hphase]) rfl⟩
  simp only [if_neg hok, some.injEq, Prod.mk.injEq] at h
  obtain ⟨rfl, rfl, -⟩ := h
  exact left_of_copied hready.1 hready.2 hok (by simp [hphase]) (by simp [hphase])

theorem body_left (hphase : serde.phase = .body) {state : Element}
    {next : SipSerde} {rest : Text} (h : parse_body bucket serde buf = some (state, next, rest)) :
    Left line (state, next) := by
  have hline : line = [] := by rwa [Ready, if_pos hphase] at hready
  simp only [parse_body, bind_eq_some_iff, map_eq_some_iff] at h
  obtain ⟨message, -, length, -, h⟩ := h
  split at h
  · obtain ⟨rfl, rfl, -⟩ := h
    exact ⟨by simp [hphase], hready⟩
  split at h
  · obtain ⟨rfl, -, -⟩ := h
    exact hline
  obtain ⟨rfl, -, -⟩ := h
  exact hline

theorem round_left {state : Element} {next : SipSerde} {rest : Text}
    (h : parse_raw_data bucket serde buf = some (state, next, rest)) :
    Left (pending line (copies serde buf)) (state, next) := by
  rw [parse_raw_data] at h
  cases hphase : serde.phase with
  | start_line =>
    rw [hphase, some.injEq] at h
    have hleft := @start_line_left bucket serde line buf hready hphase
    rw [h] at hleft
    simpa [copies, hphase, pending] using hleft
  | headers =>
    rw [hphase] at h
    simpa [copies, hphase, pending] using headers_left hready hphase h
  | body =>
    rw [hphase] at h
    simpa [copies, hphase, pending] using body_left hready hphase h
  | done => simp [hphase] at h

/-- A call is recorded with the octets of the line, and does what is right unless the line
    is too long. -/
structure Copy.Right (c : Copy) : Prop where
  exact_ : c.Exact
  inside : c.Inside ↔ (octets c.line c.buf).length ≤ max_line_length

theorem round_recorded (buf : Text) :
    Follows line (copies serde buf) ∧ ∀ c ∈ copies serde buf, c.Right := by
  have hcopy (hbody : serde.phase ≠ .body) :
      Follows line [record serde.line_buffer buf] ∧ ∀ c ∈ [record serde.line_buffer buf], c.Right := by
    rw [Ready, if_neg hbody] at hready
    obtain ⟨hexact, hinside⟩ := record_exact hready.1 hready.2 buf
    have hline : (record serde.line_buffer buf).line = line := hready.1.take
    refine ⟨⟨hline, trivial⟩, ?_⟩
    intro c hc
    obtain rfl := mem_singleton.mp hc
    refine ⟨hexact, ?_⟩
    rw [hline]
    exact hinside
  cases hphase : serde.phase with
  | start_line => simpa [copies, hphase] using hcopy (by simp [hphase])
  | headers => simpa [copies, hphase] using hcopy (by simp [hphase])
  | body => simp [copies, hphase, Follows]
  | done => simp [copies, hphase, Follows]

end

end

/-- Some lines are recorded one behind the other and as they are, and what the run comes to
    fits the octets that are pending behind them. -/
structure Recorded {α : Type} (line : Text) (run : List Copy × Option α) (post : Text → α → Prop) : Prop where
  follows : Follows line run.1
  right : ∀ c ∈ run.1, c.Right
  left : ∀ a, run.2 = some a → post (pending line run.1) a

section

variable {bucket : Text → Nat} {serde : SipSerde} {line : Text}

theorem parse_loop_recorded (hready : Ready serde line) (buf : Text) :
    Recorded line (parse_loop bucket serde buf) fun line out =>
      out.1 ≠ .ok_more_elements ∧ Left line (out.1, out.2.1) := by
  induction hlength : buf.length using Nat.strong_induction_on generalizing serde line buf with
  | _ length ih =>
    subst hlength
    obtain ⟨hfollows, hright⟩ := round_recorded hready buf
    rw [parse_loop]
    split
    · next next rest hround =>
      obtain ⟨-, hnext⟩ := round_left hready hround
      have hrest := ih _ (parse_raw_data_shorter hround) hnext rest rfl
      refine ⟨hfollows.append hrest.follows, ?_, ?_⟩
      · intro c hc
        obtain hc | hc := mem_append.mp hc
        · exact hright c hc
        · exact hrest.right c hc
      intro out hout
      rw [pending_append]
      exact hrest.left out hout
    next hlast =>
    refine ⟨hfollows, hright, ?_⟩
    rintro ⟨state, next, rest⟩ hout
    refine ⟨?_, round_left hready hout⟩
    rintro rfl
    exact hlast next rest hout

theorem parse_recorded (hready : Ready serde line) (buf : Text) :
    Recorded line (parse bucket serde buf) fun line out =>
      Ready out.2 line ∧ (out.1 = .end_ → out.2.phase = .done) := by
  rw [parse]
  by_cases hbuf : buf = []
  · rw [if_pos hbuf]
    refine ⟨trivial, by simp, ?_⟩
    rintro _ ⟨⟩
    exact ⟨hready, by simp⟩
  rw [if_neg hbuf]
  obtain ⟨hfollows, hright, hleft⟩ := @parse_loop_recorded bucket serde line hready buf
  refine ⟨hfollows, hright, ?_⟩
  intro out hout
  obtain ⟨⟨state, next, rest⟩, hloop, hout⟩ := bind_eq_some_iff.mp hout
  obtain ⟨hmore, hleft⟩ := hleft _ hloop
  cases state with
  | ok =>
    cases hout
    have hpending : pending line (parse_loop bucket serde buf).1 = [] := hleft
    exact ⟨hpending ▸ ready_of_reset (by simp) rfl, fun _ => rfl⟩
  | error =>
    cases hout
    have hpending : pending line (parse_loop bucket serde buf).1 = [] := hleft
    exact ⟨hpending ▸ ready_of_reset (by simp [reset_sip_serde]) rfl, by simp⟩
  | continue_ =>
    cases hout
    exact ⟨hleft.2, by simp⟩
  | ok_more_elements => exact absurd rfl hmore

theorem ready_congr {next : SipSerde} (hbuffer : next.line_buffer = serde.line_buffer)
    (hphase : next.phase = .body ↔ serde.phase = .body) (hready : Ready serde line) : Ready next line := by
  rw [Ready, hbuffer]
  by_cases hbody : serde.phase = .body
  · rw [if_pos (hphase.mpr hbody)]
    rwa [Ready, if_pos hbody] at hready
  rw [if_neg (mt hphase.mp hbody)]
  rwa [Ready, if_neg hbody] at hready

section

variable (hready : Ready serde line)

include hready

theorem impl_add_raw_recorded (buf : Text) :
    Recorded line (impl_add_raw bucket serde buf) fun line out =>
      Ready out.2 line ∧ (out.1 = .end_ → out.2.phase = .done) := by
  rw [impl_add_raw]
  apply parse_recorded
  rw [reset_serde]
  by_cases hdone : serde.phase = .done
  · rw [if_pos hdone]
    exact @ready_congr serde line _ rfl (by simp [hdone]) hready
  rw [if_neg hdone]
  exact ready_congr rfl Iff.rfl hready

theorem get_next_message_recorded :
    Recorded line (get_next_message bucket serde) fun line out =>
      Ready out.2 line ∧ (out.1.isSome → out.2.phase = .done) := by
  rw [get_next_message]
  by_cases hdone : serde.phase = .done
  · rw [if_pos hdone]
    refine ⟨trivial, by simp, ?_⟩
    rintro _ ⟨⟩
    exact ⟨hready, fun _ => hdone⟩
  rw [if_neg hdone]
  cases hresiduum : serde.residuum with
  | none =>
    refine ⟨trivial, by simp, ?_⟩
    rintro _ ⟨⟩
    exact ⟨hready, by simp⟩
  | some residuum =>
    have hempty : Ready { serde with residuum := none } line := ready_congr rfl Iff.rfl hready
    obtain ⟨hfollows, hright, hleft⟩ := @impl_add_raw_recorded bucket _ line hempty residuum
    refine ⟨hfollows, hright, ?_⟩
    intro out hout
    obtain ⟨⟨state, next⟩, hraw, rfl⟩ := map_eq_some_iff.mp hout
    obtain ⟨hnext, hend⟩ := hleft _ hraw
    refine ⟨hnext, ?_⟩
    by_cases hstate : state = .end_
    · exact fun _ => hend hstate
    · simp [hstate]

theorem impl_pop_datum_recorded :
    Recorded line (impl_pop_datum bucket serde) fun line out => Ready out.2 line := by
  obtain ⟨hfollows, hright, hleft⟩ := @get_next_message_recorded bucket serde line hready
  refine ⟨hfollows, hright, ?_⟩
  intro out hout
  obtain ⟨⟨message, next⟩, hmessage, rfl⟩ := map_eq_some_iff.mp hout
  obtain ⟨hnext, hdone⟩ := hleft _ hmessage
  dsimp only
  by_cases hsome : message.isSome
  · rw [if_pos hsome]
    have hphase : next.phase = .done := hdone hsome
    exact @ready_congr next _ _ rfl (by simp [hphase]) hnext
  rw [if_neg hsome]
  exact hnext

theorem call_recorded (c : Call) :
    Recorded line (call bucket serde c) fun line next => Ready next line := by
  cases c with
  | add_raw buf =>
    obtain ⟨hfollows, hright, hleft⟩ := @impl_add_raw_recorded bucket serde line hready buf
    refine ⟨hfollows, hright, ?_⟩
    intro next hnext
    obtain ⟨out, hout, rfl⟩ := map_eq_some_iff.mp hnext
    exact (hleft out hout).1
  | pop =>
    obtain ⟨hfollows, hright, hleft⟩ := @impl_pop_datum_recorded bucket serde line hready
    refine ⟨hfollows, hright, ?_⟩
    intro next hnext
    obtain ⟨out, hout, rfl⟩ := map_eq_some_iff.mp hnext
    exact hleft out hout

theorem copied_lines_recorded (calls : List Call) :
    Follows line (copied_lines bucket calls serde) ∧ ∀ c ∈ copied_lines bucket calls serde, c.Right := by
  induction calls generalizing serde line with
  | nil => exact ⟨trivial, by simp [copied_lines]⟩
  | cons c calls ih =>
    obtain ⟨hfollows, hright, hleft⟩ := @call_recorded bucket serde line hready c
    rw [copied_lines]
    match hcall : call bucket serde c with
    | (log, none) =>
      rw [hcall] at hfollows hright
      exact ⟨hfollows, hright⟩
    | (log, some next) =>
      rw [hcall] at hfollows hright hleft
      obtain ⟨hmore, hmost⟩ := ih (hleft next rfl)
      exact ⟨hfollows.append hmore, fun c hc => (mem_append.mp hc).elim (hright c) (hmost c)⟩

end

end

/-- A line that is copied keeps within the line buffer, and is rejected where it is too long. -/
def Copy.Kept (c : Copy) : Prop := c.Inside ∧ c.Exact

/-- Over every row of calls, the line buffer is not exceeded and lines are rejected as they
    should if and only if no line has more than `MAX_LINE_LENGTH` octets in front of its line
    feed. The octets of a line are those that came in, over all calls. -/
theorem line_buffer_kept_iff (bucket : Text → Nat) (calls : List Call) :
    Follows [] (copied_lines bucket calls {}) ∧
      ((∀ c ∈ copied_lines bucket calls {}, c.Kept) ↔
        ∀ c ∈ copied_lines bucket calls {}, (octets c.line c.buf).length ≤ max_line_length) := by
  have hready : Ready {} [] := ready_of_reset (by simp) rfl
  obtain ⟨hfollows, hright⟩ := @copied_lines_recorded bucket {} [] hready calls
  refine ⟨hfollows, ?_⟩
  constructor
  · intro hkept c hc
    exact (hright c hc).inside.mp (hkept c hc).1
  · intro hshort c hc
    exact ⟨(hright c hc).inside.mpr (hshort c hc), (hright c hc).exact_⟩

theorem octets_eq_append (line : Text) {buf : Text} (h : lf ∉ buf) : octets line buf = line ++ buf := by
  induction buf generalizing line with
  | nil => rw [octets, List.append_nil]
  | cons c buf ih =>
    rw [mem_cons, not_or] at h
    rw [octets, if_neg (fun hend => h.1 hend.1.symm), ih _ h.2, append_assoc]
    rfl

theorem mem_parse_loop {bucket : Text → Nat} {serde : SipSerde} {buf : Text} {c : Copy}
    (h : c ∈ copies serde buf) : c ∈ (parse_loop bucket serde buf).1 := by
  rw [parse_loop]
  split
  · exact mem_append_left _ h
  · exact h

def long_line : Text := List.replicate (max_line_length + 1) 65

/-- One octet more than a line may have is written behind the end of the line buffer. -/
theorem long_line_written_behind :
    ¬ ∀ (bucket : Text → Nat) (calls : List Call), ∀ c ∈ copied_lines bucket calls {}, c.Kept := by
  intro hkept
  have hready : Ready {} [] := ready_of_reset (by simp) rfl
  have hcopy : record .zero long_line ∈ copies {} long_line := mem_singleton.mpr rfl
  have hlines : record .zero long_line ∈
      copied_lines (fun _ => 0) [.add_raw long_line] {} := by
    have hloop := @mem_parse_loop (fun _ => 0) _ _ _ hcopy
    have hcall : record .zero long_line ∈
        (call (fun _ => 0) {} (.add_raw long_line)).1 := hloop
    rw [copied_lines]
    match hout : call (fun _ => 0) {} (.add_raw long_line) with
    | (log, none) =>
      rw [hout] at hcall
      exact hcall
    | (log, some next) =>
      rw [hout] at hcall
      exact mem_append_left _ hcall
  have hinside := ((round_recorded hready _).2 _ hcopy).inside.mp (hkept _ _ _ hlines).1
  have hbuf : (record .zero long_line).buf = long_line := rfl
  have hlf : lf ∉ long_line := fun h => absurd (eq_of_mem_replicate h) (by decide)
  rw [hbuf, octets_eq_append _ hlf, length_append, long_line, length_replicate] at hinside
  omega

end openvocs.sip.lines
