import Openvocs.Json.DecodingReads

open List Option

namespace openvocs.json.decoding

open calls
open scan (Scan fail trim)

/-- An open array or object: by how much the size that is kept exceeds what is left of the buffer, the
keys that were read, and what comes behind it. -/
inductive Frame where
  | array (slack : Int) (after : List Byte)
  | object (slack : Int) (keys : List (List Byte)) (after : List Byte)

def Frame.slack : Frame → Int
  | .array slack _ => slack
  | .object slack _ _ => slack

/-- What comes next. -/
inductive Due where
  | value
  | token
  /-- A round of the innermost loop. -/
  | round
  | colon
  /-- What comes behind a value. -/
  | next
  /-- White space, and what comes behind it. -/
  | space (due : Due)

/-- The arrays and objects that are open, the innermost first, what is due, and what is left. -/
structure Place where
  stack : List Frame
  due : Due
  rest : List Byte

/-- The size that is kept next to a pointer. -/
def size_at : List Frame → List Byte → Int
  | [], rest => rest.length
  | frame :: _, rest => frame.slack + rest.length

/-- The next place, if there is one. -/
def Place.step : Place → Option Place
  | ⟨stack, .space due, s⟩ =>
    (scan.clear_whitespace s (size_at stack s)).returned.map fun r => ⟨stack, due, r.1⟩
  | ⟨stack, .value, s⟩ => if exceeds 0 (size_at stack s) then some ⟨stack, .space .token, s⟩ else none
  | ⟨stack, .token, c :: s⟩ =>
    if c = open_object then
      (match_object (c :: s) (size_at stack (c :: s))).returned.map fun r =>
        ⟨.object (r.2 + 1 - r.1.length) [] (r.1.drop (r.2 + 1)) :: stack, .space .round, r.1⟩
    else if c = open_array then
      (match_array (c :: s) (size_at stack (c :: s))).returned.map fun r =>
        ⟨.array (r.2 + 1 - r.1.length) (r.1.drop (r.2 + 1)) :: stack, .space .round, r.1⟩
    else
      (plain_decode c (c :: s) (size_at stack (c :: s))).returned.map fun k =>
        ⟨stack, .space .next, (c :: s).drop k⟩
  | ⟨.array slack after :: stack, .round, s⟩ =>
    if exceeds 1 (slack + s.length) then some ⟨.array slack after :: stack, .value, s⟩
    else some ⟨stack, .space .next, after⟩
  | ⟨.object slack keys after :: stack, .round, s⟩ =>
    if exceeds 1 (slack + s.length) then
      (object_name keys s (slack + s.length)).returned.map fun r =>
        ⟨.object (r.2.2 - r.2.1.length) (keys ++ [r.1]) after :: stack, .space .colon, r.2.1⟩
    else if s.head? = some close_object then some ⟨stack, .space .next, after⟩
    else none
  | ⟨stack, .colon, c :: s⟩ => if c = colon then some ⟨stack, .space .value, s⟩ else none
  | ⟨.array slack after :: stack, .next, s⟩ =>
    if slack + s.length = 1 then some ⟨stack, .space .next, after⟩
    else
      match s with
      | [] => none
      | c :: s => if c = comma then some ⟨.array slack after :: stack, .space .round, s⟩ else none
  | ⟨.object slack keys after :: stack, .next, c :: s⟩ =>
    if c = close_object then some ⟨stack, .space .next, after⟩
    else if c = comma then some ⟨.object slack keys after :: stack, .round, s⟩
    else none
  | _ => none

/-- What is due needs more than there is, and the size says that there is more. -/
def Place.Lacks : Place → Prop
  | ⟨stack, .space _, s⟩ => trim s = [] ∧ s.length < size_at stack s
  | ⟨stack, .token, s⟩ => LacksToken s (size_at stack s)
  | ⟨.object slack _ _ :: _, .round, s⟩ =>
    if exceeds 1 (slack + s.length) then LacksQuote s (slack + s.length) else s = []
  | ⟨_, .colon, s⟩ => s = []
  | ⟨.array slack _ :: _, .next, s⟩ => slack + s.length ≠ 1 ∧ s = []
  | ⟨.object _ _ _ :: _, .next, s⟩ => s = []
  | _ => False

/-- The parser does not come from a place to one that lacks something. -/
abbrev SafeAt (p : Place) : Prop := Safe Place.step Place.Lacks p

variable {α : Type} {stack : List Frame} {s t u after : List Byte} {slack size : Int} {c : Byte}

theorem safe_end (s : List Byte) : SafeAt ⟨[], .space .next, s⟩ := by
  have hright : ¬ Place.Lacks ⟨[], .space .next, s⟩ := fun h => lt_irrefl _ h.2
  cases hstep : Place.step ⟨[], .space .next, s⟩ with
  | none => exact safe_of_halts hright hstep
  | some p =>
    obtain ⟨r, -, rfl⟩ := map_eq_some_iff.mp hstep
    refine (safe_iff_of_step hright hstep).mpr (safe_of_halts (fun h => h) ?_)
    cases r.1 <;> rfl

/-- The call goes wrong when the machine does, and otherwise returns for a place. -/
abbrev Goes (post : α → Prop) (next : α → Place) (call : Scan α) (p : Place) : Prop :=
  Agrees Place.step Place.Lacks post next call p

/-- The calls for values that are shorter than a bound go over them. -/
def Follows (decode : List Byte → Int → Scan Nat) (bound : Nat) : Prop :=
  ∀ stack s, s.length < bound →
    Goes (· ≤ s.length) (fun k => ⟨stack, .space .next, s.drop k⟩) (decode s (size_at stack s)) ⟨stack, .value, s⟩

theorem size_at_suffix (stack : List Frame) (h : size - t.length = size_at stack s - s.length) :
    size = size_at stack t := by
  cases stack with
  | nil =>
    rw [size_at] at h ⊢
    omega
  | cons frame stack =>
    rw [size_at] at h ⊢
    omega

variable {post : α → Prop} {next : α → Place}

theorem goes_space {due : Due} {rest : List Byte × Int → Scan α}
    (h : ∀ t, t <:+ s → Goes post next (rest (t, size_at stack t)) ⟨stack, due, t⟩) :
    Goes post next (scan.clear_whitespace s (size_at stack s) >>= rest) ⟨stack, .space due, s⟩ := by
  have hstep : Place.step ⟨stack, .space due, s⟩ =
      (scan.clear_whitespace s (size_at stack s)).returned.map fun r => ⟨stack, due, r.1⟩ := rfl
  refine agrees_bind (agrees_of_reads (reads_clear_whitespace s _) Iff.rfl hstep) ?_
  rintro ⟨t, size⟩ ⟨hsuffix, hsize⟩
  dsimp only at hsuffix hsize ⊢
  rw [size_at_suffix stack hsize]
  exact h t hsuffix

section

variable {decode : List Byte → Int → Scan Nat} {bound : Nat}

theorem array_items_goes (hdecode : Follows decode bound) {rounds : Nat} (hrounds : s.length < rounds)
    (hbound : s.length < bound) :
    Goes (fun _ => True) (fun _ => ⟨stack, .space .next, after⟩) (array_items decode rounds s (slack + s.length))
      ⟨.array slack after :: stack, .round, s⟩ := by
  induction rounds generalizing s with
  | zero => cases hrounds
  | succ rounds ih =>
    rw [array_items]
    by_cases hmore : exceeds 1 (slack + s.length) = true
    · rw [if_pos hmore]
      refine agrees_of_step id (if_pos hmore) ?_
      refine agrees_bind (hdecode (.array slack after :: stack) s hbound) fun k hk => ?_
      have hsize : slack + s.length - k = size_at (.array slack after :: stack) (s.drop k) := by
        rw [size_at, Frame.slack, length_drop]
        omega
      rw [hsize]
      refine goes_space fun t ht => ?_
      have hlen := ht.length_le
      rw [length_drop] at hlen
      dsimp only
      rw [size_at, Frame.slack]
      by_cases hone : slack + t.length = 1
      · rw [if_pos hone]
        refine agrees_of_step (fun h => h.1 hone) (if_pos hone) ?_
        exact agrees_done trivial Iff.rfl
      rw [if_neg hone]
      cases t with
      | nil => exact agrees_outside (not_safe ⟨hone, rfl⟩)
      | cons c t =>
        rw [length_cons] at hlen
        rw [Call.head_cons, Call.done_bind]
        dsimp only
        have hright : ¬ Place.Lacks ⟨.array slack after :: stack, .next, c :: t⟩ := fun h => cons_ne_nil c t h.2
        have hstep : Place.step ⟨.array slack after :: stack, .next, c :: t⟩ =
            if c = comma then some ⟨.array slack after :: stack, .space .round, t⟩ else none := if_neg hone
        by_cases hcomma : c = comma
        · rw [if_pos hcomma]
          refine agrees_of_step hright (hstep.trans (if_pos hcomma)) ?_
          have hsize' : slack + (c :: t).length - 1 = size_at (.array slack after :: stack) t := by
            rw [size_at, Frame.slack, length_cons]
            omega
          rw [hsize']
          refine goes_space fun v hv => ?_
          have hshort := hv.length_le
          dsimp only
          exact ih (by omega) (by omega)
        rw [if_neg hcomma]
        exact agrees_stop _ (safe_of_halts hright (hstep.trans (if_neg hcomma)))
    · rw [if_neg hmore]
      exact agrees_of_step id (if_neg hmore) (agrees_done trivial Iff.rfl)

theorem object_colon_goes (stack : List Frame) (s : List Byte) :
    Goes (fun r => r.1 <:+ s ∧ r.2 = size_at stack r.1) (fun r => ⟨stack, .value, r.1⟩)
      (object_colon s (size_at stack s)) ⟨stack, .space .colon, s⟩ := by
  rw [object_colon]
  refine goes_space fun t ht => ?_
  dsimp only
  cases t with
  | nil => exact agrees_outside (not_safe rfl)
  | cons c t =>
    have hright : ¬ Place.Lacks ⟨stack, .colon, c :: t⟩ := by cases stack <;> exact cons_ne_nil c t
    have hstep : Place.step ⟨stack, .colon, c :: t⟩ = if c = colon then some ⟨stack, .space .value, t⟩ else none := by
      match stack with
      | [] => rfl
      | .array _ _ :: _ => rfl
      | .object _ _ _ :: _ => rfl
    rw [Call.head_cons, Call.done_bind]
    dsimp only
    by_cases hcolon : c = colon
    · rw [if_pos hcolon]
      refine agrees_of_step hright (hstep.trans (if_pos hcolon)) ?_
      have hsize : size_at stack (c :: t) - 1 = size_at stack t := by
        refine size_at_suffix (s := c :: t) stack ?_
        rw [length_cons]
        omega
      rw [hsize]
      refine goes_space fun v hv => ?_
      exact agrees_done ⟨hv.trans ((suffix_cons c t).trans ht), rfl⟩ Iff.rfl
    rw [if_neg hcolon]
    exact agrees_stop _ (safe_of_halts hright (hstep.trans (if_neg hcolon)))

theorem object_key_goes {keys : List (List Byte)} (hmore : exceeds 1 (slack + s.length) = true) :
    Goes (fun r => r.2.1.length < s.length)
      (fun r => ⟨.object (r.2.2 - r.2.1.length) (keys ++ [r.1]) after :: stack, .value, r.2.1⟩)
      (object_key keys s (slack + s.length)) ⟨.object slack keys after :: stack, .round, s⟩ := by
  rw [object_key]
  have hname := reads_object_name keys s (slack + s.length)
  refine agrees_bind (agrees_of_reads hname (iff_of_eq (if_pos hmore)) (if_pos hmore)) ?_
  rintro ⟨key, content, size⟩ hcontent
  dsimp only at hcontent ⊢
  generalize hframe : Frame.object (size - content.length) (keys ++ [key]) after = frame
  have hsize : size = size_at (frame :: stack) content := by
    rw [← hframe, size_at, Frame.slack]
    omega
  rw [hsize]
  refine agrees_bind (object_colon_goes (frame :: stack) content) ?_
  rintro ⟨value, size'⟩ ⟨hvalue, hsize'⟩
  dsimp only at hvalue hsize' ⊢
  have hframe' : Frame.object (size' - value.length) (keys ++ [key]) after = frame := by
    rw [← hframe, hsize', size_at, ← hframe, Frame.slack, add_sub_cancel_right]
  exact agrees_done (hvalue.length_le.trans_lt hcontent) (by rw [hframe'])

theorem object_members_goes (hdecode : Follows decode bound) {rounds : Nat} {keys : List (List Byte)}
    (hrounds : s.length < rounds) (hbound : s.length ≤ bound) :
    Goes (fun _ => True) (fun _ => ⟨stack, .space .next, after⟩)
      (object_members decode rounds keys s (slack + s.length)) ⟨.object slack keys after :: stack, .round, s⟩ := by
  induction rounds generalizing s slack keys with
  | zero => cases hrounds
  | succ rounds ih =>
    rw [object_members]
    by_cases hmore : exceeds 1 (slack + s.length) = true
    · rw [if_pos hmore]
      refine agrees_bind (object_key_goes hmore) ?_
      rintro ⟨key, value, size⟩ hvalue
      dsimp only at hvalue ⊢
      generalize hframe : Frame.object (size - value.length) (keys ++ [key]) after = frame
      have hsize : size = size_at (frame :: stack) value := by
        rw [← hframe, size_at, Frame.slack]
        omega
      rw [hsize]
      refine agrees_bind (hdecode (frame :: stack) value (by omega)) fun k hk => ?_
      have hbehind : size_at (frame :: stack) value - k = size_at (frame :: stack) (value.drop k) := by
        refine size_at_suffix (s := value) _ ?_
        rw [length_drop]
        omega
      rw [hbehind]
      refine goes_space fun t ht => ?_
      have hlen := ht.length_le
      rw [length_drop] at hlen
      dsimp only
      subst hframe
      cases t with
      | nil => exact agrees_outside (not_safe rfl)
      | cons c t =>
        rw [length_cons] at hlen
        have hright : ¬ Place.Lacks ⟨.object (size - value.length) (keys ++ [key]) after :: stack, .next, c :: t⟩ :=
          cons_ne_nil c t
        have hstep : Place.step ⟨.object (size - value.length) (keys ++ [key]) after :: stack, .next, c :: t⟩ =
            if c = close_object then some ⟨stack, .space .next, after⟩
            else if c = comma then some ⟨.object (size - value.length) (keys ++ [key]) after :: stack, .round, t⟩
            else none := rfl
        rw [Call.head_cons, Call.done_bind]
        dsimp only
        by_cases hclose : c = close_object
        · rw [if_pos hclose] at hstep ⊢
          exact agrees_of_step hright hstep (agrees_done trivial Iff.rfl)
        rw [if_neg hclose] at hstep ⊢
        by_cases hcomma : c = comma
        · rw [if_pos hcomma] at hstep ⊢
          refine agrees_of_step hright hstep ?_
          rw [size_at, Frame.slack, length_cons, Nat.cast_add_one, ← add_assoc, add_sub_cancel_right]
          exact ih (by omega) (by omega)
        rw [if_neg hcomma] at hstep ⊢
        exact agrees_stop _ (safe_of_halts hright hstep)
    · rw [if_neg hmore]
      cases s with
      | nil => exact agrees_outside (not_safe (cast (if_neg hmore).symm rfl))
      | cons c s =>
        have hright : ¬ Place.Lacks ⟨.object slack keys after :: stack, .round, c :: s⟩ := fun h =>
          cons_ne_nil c s (cast (if_neg hmore) h)
        have hstep : Place.step ⟨.object slack keys after :: stack, .round, c :: s⟩ =
            if some c = some close_object then some ⟨stack, .space .next, after⟩ else none := if_neg hmore
        rw [Call.head_cons, Call.done_bind]
        dsimp only
        by_cases hclose : c = close_object
        · rw [if_pos hclose]
          exact agrees_of_step hright (hstep.trans (if_pos (congrArg some hclose))) (agrees_done trivial Iff.rfl)
        rw [if_neg hclose]
        refine agrees_stop _ (safe_of_halts hright (hstep.trans (if_neg ?_)))
        exact fun h => hclose (some_inj.mp h)

theorem drop_offset_bracket (c : Byte) (u : List Byte) (length : Nat) :
    (c :: u).drop (offset (c :: u) u + length + 1) = u.drop (length + 1) := by
  rw [offset, length_cons, Nat.add_sub_cancel_left, Nat.add_assoc, Nat.add_comm 1, drop_succ_cons]

theorem brackets_goes {opening closing : Byte} (hopening : is_whitespace opening = false)
    (frame : List Byte × Nat → Frame) {loop : List Byte → Int → Scan Unit}
    (hlacks : Place.Lacks ⟨stack, .token, opening :: u⟩ ↔
      LacksClose opening closing (opening :: u) (size_at stack (opening :: u)))
    (hstep : Place.step ⟨stack, .token, opening :: u⟩ =
      (match_brackets opening closing (opening :: u) (size_at stack (opening :: u))).returned.map fun r =>
        ⟨frame r :: stack, .space .round, r.1⟩)
    (hslack : ∀ r, (frame r).slack = r.2 + 1 - r.1.length)
    (hloop : ∀ length t, t <:+ u →
      Goes (fun _ => True) (fun _ => ⟨stack, .space .next, u.drop (length + 1)⟩)
        (loop t (size_at (frame (u, length) :: stack) t)) ⟨frame (u, length) :: stack, .round, t⟩) :
    Goes (· ≤ (opening :: u).length) (fun k => ⟨stack, .space .next, (opening :: u).drop k⟩)
      (do
        let (start, length) ← match_brackets opening closing (opening :: u) (size_at stack (opening :: u))
        let (content, content_size) ← scan.clear_whitespace start (length + 1)
        loop content content_size
        .done (offset (opening :: u) start + length + 1))
      ⟨stack, .token, opening :: u⟩ := by
  refine agrees_bind (agrees_of_reads (reads_match_brackets hopening closing u _) hlacks hstep) ?_
  rintro ⟨start, length⟩ ⟨hstart, hlength⟩
  dsimp only at hstart hlength ⊢
  subst hstart
  have hsize : (length : Int) + 1 = size_at (frame (start, length) :: stack) start := by
    rw [size_at, hslack]
    dsimp only
    omega
  rw [hsize]
  refine goes_space fun t ht => ?_
  refine agrees_bind (hloop length t ht) fun _ _ => ?_
  refine agrees_done ?_ (by rw [drop_offset_bracket])
  rw [offset, length_cons]
  omega

section

variable (hdecode : Follows decode bound)

include hdecode

theorem array_decode_goes (hbound : u.length < bound) (stack : List Frame) :
    Goes (· ≤ (open_array :: u).length) (fun k => ⟨stack, .space .next, (open_array :: u).drop k⟩)
      (array_decode decode (open_array :: u) (size_at stack (open_array :: u))) ⟨stack, .token, open_array :: u⟩ := by
  refine brackets_goes (by decide) (fun r => .array (r.2 + 1 - r.1.length) (r.1.drop (r.2 + 1))) Iff.rfl rfl
    (fun _ => rfl) fun length t ht => ?_
  have hle := ht.length_le
  exact array_items_goes hdecode (by rw [length_cons]; omega) (by omega)

theorem object_decode_goes (hbound : u.length < bound) (stack : List Frame) :
    Goes (· ≤ (open_object :: u).length) (fun k => ⟨stack, .space .next, (open_object :: u).drop k⟩)
      (object_decode decode (open_object :: u) (size_at stack (open_object :: u)))
      ⟨stack, .token, open_object :: u⟩ := by
  refine brackets_goes (by decide) (fun r => .object (r.2 + 1 - r.1.length) [] (r.1.drop (r.2 + 1))) Iff.rfl rfl
    (fun _ => rfl) fun length t ht => ?_
  have hle := ht.length_le
  exact object_members_goes hdecode (by rw [length_cons]; omega) (by omega)

theorem token_decode_goes (hbound : s.length ≤ bound) (stack : List Frame) :
    Goes (· ≤ s.length) (fun k => ⟨stack, .space .next, s.drop k⟩) (token_decode decode s (size_at stack s))
      ⟨stack, .token, s⟩ := by
  rw [token_decode]
  cases s with
  | nil => exact agrees_outside (not_safe trivial)
  | cons c u =>
    rw [length_cons] at hbound
    rw [Call.head_cons, Call.done_bind]
    dsimp only
    split
    · rename_i hobject
      subst hobject
      exact object_decode_goes hdecode hbound stack
    rename_i hobject
    split
    · rename_i harray
      subst harray
      exact array_decode_goes hdecode hbound stack
    rename_i harray
    have hstep : Place.step ⟨stack, .token, c :: u⟩ =
        (plain_decode c (c :: u) (size_at stack (c :: u))).returned.map fun k =>
          ⟨stack, .space .next, (c :: u).drop k⟩ := by
      rw [Place.step, if_neg hobject, if_neg harray]
    exact agrees_of_reads (reads_plain_decode hobject harray u _) Iff.rfl hstep

theorem value_decode_follows : Follows (value_decode decode) (bound + 1) := by
  intro stack s hbound
  rw [value_decode]
  by_cases hsize : exceeds 0 (size_at stack s) = true
  · have hright : ¬ Place.Lacks ⟨stack, .value, s⟩ := by
      cases stack <;> exact id
    have hstep : Place.step ⟨stack, .value, s⟩ = some ⟨stack, .space .token, s⟩ := by rw [Place.step, if_pos hsize]
    rw [if_pos hsize]
    refine agrees_of_step hright hstep (goes_space fun t ht => ?_)
    have hle := ht.length_le
    dsimp only
    refine agrees_bind (token_decode_goes hdecode (by omega) stack) fun k hk => agrees_done ?_ ?_
    · rw [offset]
      omega
    obtain ⟨ws, rfl⟩ := ht
    rw [offset_append, drop_length_add_append]
  have hright : ¬ Place.Lacks ⟨stack, .value, s⟩ := by cases stack <;> exact id
  rw [if_neg hsize]
  refine agrees_stop _ (safe_of_halts hright ?_)
  rw [Place.step, if_neg hsize]

end

end

theorem decode_follows (depth : Nat) : Follows (decode depth) depth := by
  induction depth with
  | zero => exact fun _ _ hlt => absurd hlt (Nat.not_lt_zero _)
  | succ depth ih => exact value_decode_follows ih

theorem parser_decode_settled_iff (buffer : List Byte) :
    (parser_decode buffer).Settled ↔ SafeAt ⟨[], .value, buffer⟩ := by
  have hfollows := decode_follows (buffer.length + 1) [] buffer (Nat.lt_succ_self _)
  exact hfollows.settled_iff fun k _ => safe_end (buffer.drop k)

end openvocs.json.decoding

namespace openvocs.json

open calls

/-- Of an input without numbers, the matcher and the parser read nothing behind the end exactly when the
matcher comes to no place where only white space is left for it, and the parser comes to no place where
the size that is kept promises more than there is. They end in any case. -/
theorem scanning_settled_iff (input : List Byte) :
    ((∀ incomplete, (scan.json_match input incomplete).Settled) ∧ (decoding.parser_decode input).Settled) ↔
      scan.SafeAt ⟨[], .value, input⟩ ∧ decoding.SafeAt ⟨[], .value, input⟩ := by
  refine and_congr ?_ (decoding.parser_decode_settled_iff input)
  constructor
  · exact fun h => (scan.json_match_settled_iff input false).mp (h false)
  · exact fun h incomplete => (scan.json_match_settled_iff input incomplete).mpr h

/-- Of a single blank, both read the octet behind. So does the parser of an object with a bracket for a
value. -/
theorem scanning_blank_outside :
    (∀ incomplete, ¬ (scan.json_match [32] incomplete).Settled) ∧ ¬ (decoding.parser_decode [32]).Settled ∧
      ¬ (decoding.parser_decode [123, 34, 97, 34, 58, 91, 125]).Settled := by
  refine ⟨?_, ?_, ?_⟩
  · rintro (_ | _) ⟨outcome, houtcome, -⟩
    · cases houtcome
    · cases houtcome
  · rintro ⟨outcome, houtcome, -⟩
    cases houtcome
  · rintro ⟨outcome, houtcome, -⟩
    cases houtcome

end openvocs.json
