import Openvocs.Sip.Packets

/-!
A value of `none` is a run in which something is stored beyond the end of the buffer.
-/

open List Option

namespace openvocs.sip

/-- Octets are stored from a place of the buffer on. -/
def store (buffer : Text) (pos : Nat) (octets : Text) : Option Text :=
  if pos + octets.length ≤ buffer.length then some (bytes.overwrite buffer pos octets) else none

/-- `snprintf`: as much of the text as fits, and a terminating zero. -/
def snprintf (buffer : Text) (pos capacity : Nat) (text : Text) : Option Text :=
  if capacity = 0 then some buffer else store buffer pos (text.take (capacity - 1) ++ [0])

/-- The buffer of `impl_serialize`, with the place to write to and what is left behind it. -/
structure Output where
  buffer : Text
  written : Nat
  capacity : Nat

def buffer_size : Nat := 10000

/-- `print_formatted`. It fails for a text that is longer than what is left. -/
def print_formatted (output : Output) (text : Text) : Option (Bool × Output) :=
  (snprintf output.buffer output.written output.capacity text).map fun buffer =>
    if text.length ≤ output.capacity then
      (true, ⟨buffer, output.written + text.length, output.capacity - text.length⟩)
    else (false, { output with buffer })

/-- `serialize_start_line`: the text of the line. The code is printed with three places. -/
def serialize_start_line : StartLine → Option Text
  | .request (some method) (some uri) => some (method ++ sp :: (uri ++ sp :: sip_version) ++ crlf)
  | .response code (some reason) =>
    some (sip_version ++ sp :: (List.replicate (3 - (cstring.decimal code).length) sp ++ cstring.decimal code ++
      sp :: reason) ++ crlf)
  | _ => none

/-- The line of a header, as it is printed. -/
def header_line (name value : Text) : Text := name ++ colon :: sp :: value

/-- `serialize_headers`. The walk over the table ends at a null pointer. -/
def serialize_headers : List (Text × Option Text) → Output → Option (Bool × Output)
  | [], output => some (true, output)
  | (_, none) :: _, output => some (true, output)
  | (name, some value) :: headers, output =>
    (print_formatted output (header_line name value ++ crlf)).bind fun (ok, output) =>
      if ok then serialize_headers headers output else some (false, output)

/-- The end of `impl_serialize`: an empty line and the body, with `serialize_body`. -/
def serialize_end (output : Output) (body : Text) : Option (Bool × Option Text) :=
  if 1 < output.capacity then
    (store output.buffer output.written crlf).bind fun buffer =>
      if output.capacity - 2 < body.length then some (false, none)
      else
        (store buffer (output.written + 2) body).map fun buffer =>
          (true, some (buffer.take (output.written + 2 + body.length)))
  -- the result is still the number of octets of the headers
  else some (true, none)

/-- `impl_serialize`: what it returns, and what it writes to a file that takes all octets. -/
def impl_serialize (message : Message) : Option (Bool × Option Text) :=
  match serialize_start_line message.start with
  | none => some (false, none)
  | some line =>
    (print_formatted ⟨List.replicate buffer_size 0, 0, buffer_size⟩ line).bind fun (ok, output) =>
      if ok then
        (serialize_headers message.headers.entries output).bind fun (ok, output) =>
          if ok then serialize_end output (message.body.getD []) else some (false, none)
      else some (false, none)

/-- What was written to the buffer. If it is full, then its last octet is the terminating zero. -/
structure Wrote (output : Output) (text : Text) : Prop where
  size : output.buffer.length = buffer_size
  written : output.written = text.length
  capacity : output.written + output.capacity = buffer_size
  text : 0 < output.capacity → output.buffer.take text.length = text

theorem store_some {buffer octets : Text} {pos : Nat} (h : pos + octets.length ≤ buffer.length) :
    store buffer pos octets = some (bytes.overwrite buffer pos octets) := if_pos h

theorem print_formatted_wrote {output : Output} {before : Text} (h : Wrote output before) (text : Text) :
    ∃ output', print_formatted output text = some (decide ((before ++ text).length ≤ buffer_size), output') ∧
      ((before ++ text).length ≤ buffer_size → Wrote output' (before ++ text)) := by
  have hroom : (before ++ text).length ≤ buffer_size ↔ text.length ≤ output.capacity := by
    rw [length_append, ← h.written, ← h.capacity]
    omega
  by_cases hzero : output.capacity = 0
  · rw [print_formatted, snprintf, if_pos hzero, map_some]
    by_cases hfits : text.length ≤ output.capacity
    · have hnil : text = [] := length_eq_zero_iff.mp (by omega)
      refine ⟨output, ?_, fun _ => ?_⟩
      · rw [if_pos hfits, decide_eq_true (hroom.mpr hfits), hnil]
        rfl
      rw [hnil, List.append_nil]
      exact h
    rw [if_neg hfits, decide_eq_false fun hsmall => hfits (hroom.mp hsmall)]
    exact ⟨_, rfl, fun hsmall => absurd (hroom.mp hsmall) hfits⟩
  have hstore : output.written + (text.take (output.capacity - 1) ++ [0]).length ≤ output.buffer.length := by
    rw [h.size, ← h.capacity, length_append, length_take, length_singleton]
    omega
  rw [print_formatted, snprintf, if_neg hzero, store_some hstore, map_some]
  by_cases hfits : text.length ≤ output.capacity
  · rw [if_pos hfits, decide_eq_true (hroom.mpr hfits)]
    refine ⟨_, rfl, fun _ => ⟨?_, ?_, ?_, fun hleft => ?_⟩⟩
    · rw [bytes.length_overwrite hstore, h.size]
    · rw [length_append, h.written]
    · have hcapacity := h.capacity
      simp only
      omega
    have hless : text.length ≤ output.capacity - 1 := by
      simp only at hleft
      omega
    rw [take_of_length_le hless, h.written] at hstore ⊢
    exact bytes.take_overwrite [0] (h.text (by omega))
  rw [if_neg hfits, decide_eq_false fun hsmall => hfits (hroom.mp hsmall)]
  exact ⟨_, rfl, fun hsmall => absurd (hroom.mp hsmall) hfits⟩

/-- The header lines up to the first null pointer. -/
def header_text : List (Text × Option Text) → Text
  | [] => []
  | (_, none) :: _ => []
  | (name, some value) :: headers => header_line name value ++ crlf ++ header_text headers

theorem serialize_headers_wrote (headers : List (Text × Option Text)) {output : Output} {before : Text}
    (h : Wrote output before) :
    ∃ output', serialize_headers headers output =
        some (decide ((before ++ header_text headers).length ≤ buffer_size), output') ∧
      ((before ++ header_text headers).length ≤ buffer_size → Wrote output' (before ++ header_text headers)) := by
  have hbefore : before.length ≤ buffer_size := by
    rw [← h.written, ← h.capacity]
    omega
  induction headers generalizing output before with
  | nil =>
    rw [header_text, List.append_nil]
    exact ⟨output, by rw [decide_eq_true hbefore]; rfl, fun _ => h⟩
  | cons header headers ih =>
    obtain ⟨name, value⟩ := header
    cases value with
    | none =>
      rw [header_text, List.append_nil]
      exact ⟨output, by rw [decide_eq_true hbefore]; rfl, fun _ => h⟩
    | some value =>
      rw [serialize_headers, header_text]
      generalize header_line name value ++ crlf = line
      obtain ⟨output', hprint, hwrote⟩ := print_formatted_wrote h line
      rw [hprint, bind_some, ← append_assoc]
      by_cases hfits : (before ++ line).length ≤ buffer_size
      · simp only [hfits, decide_true, if_true]
        exact ih (hwrote hfits) hfits
      have hlong : ¬ (before ++ line ++ header_text headers).length ≤ buffer_size := by
        rw [length_append]
        omega
      simp only [hfits, hlong, decide_false, Bool.false_eq_true, if_false]
      exact ⟨output', rfl, fun hsmall => hsmall.elim⟩

theorem serialize_end_wrote {output : Output} {text : Text} (h : Wrote output text) (body : Text) :
    serialize_end output body = some (
      if buffer_size < text.length + 2 then (true, none)
      else if buffer_size < text.length + 2 + body.length then (false, none)
      else (true, some (text ++ crlf ++ body))) := by
  obtain ⟨hsize, hwritten, hcapacity, htext⟩ := h
  rw [serialize_end]
  by_cases hroom : 1 < output.capacity
  · have hcrlf : output.written + crlf.length ≤ output.buffer.length := by
      rw [hsize, ← hcapacity]
      exact Nat.add_le_add_left hroom _
    have hlength := bytes.length_overwrite hcrlf
    have hline : (bytes.overwrite output.buffer output.written crlf).take (text ++ crlf).length = text ++ crlf := by
      have htake := @bytes.take_overwrite output.buffer crlf text [] (htext (by omega))
      rwa [List.append_nil, ← hwritten] at htake
    have hlarge : ¬ buffer_size < text.length + 2 := by omega
    rw [if_pos hroom, store_some hcrlf, bind_some, if_neg hlarge]
    by_cases hbody : output.capacity - 2 < body.length
    · rw [if_pos hbody, if_pos (by omega)]
    have hwritten' : output.written + 2 = (text ++ crlf).length := by
      rw [length_append, hwritten]
      rfl
    have hstore : (text ++ crlf).length + body.length ≤
        (bytes.overwrite output.buffer output.written crlf).length := by
      rw [hlength, hsize, ← hwritten']
      omega
    have htake := @bytes.take_overwrite _ body (text ++ crlf) [] hline
    rw [List.append_nil, length_append] at htake
    rw [if_neg hbody, hwritten', store_some hstore, map_some, htake, if_neg (by omega)]
  · rw [if_neg hroom, if_pos (by omega)]

theorem impl_serialize_eq {message : Message} {line : Text} (hline : serialize_start_line message.start = some line) :
    impl_serialize message = some (
      if buffer_size < (line ++ header_text message.headers.entries).length then (false, none)
      else if buffer_size < (line ++ header_text message.headers.entries).length + 2 then (true, none)
      else if buffer_size < (line ++ header_text message.headers.entries).length + 2 + (message.body.getD []).length then
        (false, none)
      else (true, some (line ++ header_text message.headers.entries ++ crlf ++ message.body.getD []))) := by
  have hempty : Wrote ⟨List.replicate buffer_size 0, 0, buffer_size⟩ [] :=
    ⟨length_replicate, rfl, Nat.zero_add _, fun _ => rfl⟩
  obtain ⟨output, hprint, hwrote⟩ := print_formatted_wrote hempty line
  rw [nil_append] at hprint hwrote
  simp only [impl_serialize, hline, hprint, bind_some]
  by_cases hfits : line.length ≤ buffer_size
  · obtain ⟨output', hheaders, hwrote'⟩ := serialize_headers_wrote message.headers.entries (hwrote hfits)
    simp only [hfits, decide_true, if_true, hheaders, bind_some]
    by_cases htext : (line ++ header_text message.headers.entries).length ≤ buffer_size
    · simp only [htext, decide_true, if_true]
      rw [serialize_end_wrote (hwrote' htext), if_neg (Nat.not_lt.mpr htext)]
    simp only [htext, decide_false, Bool.false_eq_true, if_false]
    rw [if_pos (Nat.not_le.mp htext)]
  have hlong : buffer_size < (line ++ header_text message.headers.entries).length := by
    rw [length_append]
    omega
  simp only [hfits, decide_false, Bool.false_eq_true, if_false]
  rw [if_pos hlong]

end openvocs.sip
