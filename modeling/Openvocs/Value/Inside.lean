import Openvocs.Value.Pointer

open List Option

namespace openvocs.value.pointer

open checked (place)

variable {m s start rest : List Byte}

/-- What a parser of octets comes to, with the place of what is left. -/
def located {α : Type} (m : List Byte) : Outcome α → Located α
  | .found v rest => .found v (place m rest)
  | .premature => .premature
  | .error => .error

/-- What a loop finds in front of the next entry, with its place. -/
def located_head (m : List Byte) : value.Head → Head
  | .closed rest => .closed (place m rest)
  | .entry s => .entry (place m s) s.length
  | .premature => .premature
  | .error => .error

/-- A parser of octets in front of `s`. A loop has begun at `start`. -/
def located_mode (m start s : List Byte) : value.Mode → Mode
  | .token => .token (place m s) s.length
  | .list items => .list (place m start) start.length (place m s) s.length items
  | .object pairs => .object (place m start) start.length (place m s) s.length pairs

theorem skip_chars_located (hs : s <:+ m) :
    skip_chars m (place m s) s.length = some (place m (value.skip_chars s)) := by
  induction s with
  | nil => rfl
  | cons c s ih =>
    have htail : s <:+ m := (suffix_cons c s).trans hs
    rw [length_cons, skip_chars, checked.get_place hs, bind_some, checked.place_tail hs, ih htail]
    by_cases hc : is_separator c = true
    · rw [if_pos hc, value.skip_chars, value.skip_chars, dropWhile_cons_of_pos hc]
    · rw [if_neg hc, value.skip_chars, dropWhile_cons_of_neg hc]

theorem left_located (hrest : rest <:+ s) (hs : s <:+ m) :
    left (place m s) s.length (place m rest) = some rest.length := by
  have hle := hrest.length_le
  rw [left, checked.sub_place hrest hs, bind_some, checked.sub_of_le (Nat.sub_le _ _)]
  congr 1
  omega

theorem parse_word_located {word : List Byte} {v : Value} (hs : s <:+ m) :
    parse_word m word v (place m s) s.length = some (located m (value.parse_word word v s)) := by
  rw [parse_word, value.parse_word]
  by_cases hshort : s.length < word.length
  · have hne : s.take word.length ≠ word := by
      intro htake
      have hlength := congrArg List.length htake
      rw [length_take] at hlength
      omega
    rw [if_pos hshort, if_neg hne]
    rfl
  rw [if_neg hshort, checked.slice_place hs (by omega), map_some]
  by_cases hword : s.take word.length = word
  · rw [if_pos hword, if_pos hword, checked.place_drop hs (by omega)]
    rfl
  rw [if_neg hword, if_neg hword]
  rfl

theorem string_loop_located {escaped : Bool} {copied : List Byte} (hs : s <:+ m) :
    string_loop m escaped copied (place m s) s.length = some (located m (string_rest escaped copied s)) := by
  induction s generalizing escaped copied with
  | nil => cases escaped <;> rfl
  | cons c s ih =>
    have htail : s <:+ m := (suffix_cons c s).trans hs
    have hgo : ∀ escaped copied, string_loop m escaped copied (place m (c :: s) + 1) s.length =
        some (located m (string_rest escaped copied s)) := by
      intro escaped copied
      rw [checked.place_tail hs]
      exact ih htail
    rw [length_cons, string_loop, checked.get_place hs, bind_some]
    cases escaped with
    | true =>
      rw [if_pos rfl, string_rest, hgo]
      split <;> rfl
    | false =>
      rw [if_neg (by simp), string_rest, hgo, hgo, checked.place_tail hs]
      split
      · rfl
      · split <;> rfl

theorem parse_string_located (hs : s <:+ m) :
    parse_string m (place m s) s.length = some (located m (value.parse_string s)) := by
  rw [parse_string, value.parse_string]
  by_cases hshort : s.length < 2
  · rw [if_pos hshort, if_pos hshort]
    rfl
  rw [if_neg hshort, if_neg hshort]
  cases s with
  | nil => simp at hshort
  | cons c s =>
    rw [checked.place_tail hs, length_cons, Nat.add_sub_cancel, tail_cons]
    exact string_loop_located ((suffix_cons c s).trans hs)

theorem parse_number_located (hs : s <:+ m) :
    parse_number m (place m s) s.length = some (located m (value.parse_number s)) := by
  rw [parse_number, value.parse_number]
  by_cases hshort : s.length < 2
  · rw [if_pos hshort, if_pos hshort]
    rfl
  rw [if_neg hshort, if_neg hshort, checked.slice_place hs (Nat.le_refl _), take_length, map_some,
    checked.place_drop hs (cstring.strtod_le s)]
  rfl

theorem loop_head_located {close : Byte} {require_comma : Bool} (hstart : start <:+ m) (hs : s <:+ start) :
    loop_head m close require_comma (place m start) start.length (place m s) s.length =
      some (located_head m (value.loop_head close require_comma s)) := by
  have hskip : value.skip_chars s <:+ start := (skip_chars_suffix s).trans hs
  rw [loop_head, skip_chars_located (hs.trans hstart), bind_some, left_located hskip hstart, bind_some, value.loop_head]
  cases hcase : value.skip_chars s with
  | nil => rfl
  | cons c rest =>
    rw [hcase] at hskip
    have hwhole := hskip.trans hstart
    rw [length_cons, if_neg (by omega), checked.get_place hwhole, bind_some]
    simp only [checked.place_tail hwhole, Nat.add_sub_cancel, length_eq_zero_iff]
    by_cases hclose : c = close
    · rw [if_pos hclose, if_pos hclose]
      rfl
    rw [if_neg hclose, if_neg hclose]
    cases require_comma with
    | false => rfl
    | true =>
      rw [if_pos rfl, if_pos rfl]
      by_cases hcomma : c ≠ comma
      · rw [if_pos hcomma, if_pos hcomma]
        rfl
      rw [if_neg hcomma, if_neg hcomma]
      by_cases hrest : rest = []
      · rw [if_pos hrest, if_pos hrest]
        rfl
      rw [if_neg hrest, if_neg hrest]
      rfl

theorem chain_located {α β : Type} {first : Option (Outcome α)} {next : α → List Byte → Option (Outcome β)}
    {next' : α → Nat → Option (Located β)}
    (hnext : ∀ v rest, first = some (.found v rest) → next' v (place m rest) = (next v rest).map (located m)) :
    chain (first.map (located m)) next' = (value.chain first next).map (located m) := by
  cases first with
  | none => rfl
  | some outcome =>
    cases outcome with
    | found v rest => exact hnext v rest rfl
    | premature => rfl
    | error => rfl

/-- The parsers inside do on the input what the parsers of octets do. -/
def Follows (m : List Byte) (depth : Nat) : Prop :=
  ∀ (mode : value.Mode) (start s : List Byte), s <:+ start → start <:+ m →
    parse m depth (located_mode m start s mode) = (value.parse depth mode s).map (located m)

variable {depth : Nat}

theorem call_located (inner : Follows m depth) (hs : s <:+ m) (hne : s ≠ []) (func : ParseFunc) :
    call m (parse m depth) (place m s) s.length func = (value.call (value.parse depth) s func).map (located m) := by
  have hloop : ∀ mode : value.Mode, (if s.length < 2 then some .premature else
        parse m depth (located_mode m s s.tail mode)) =
      (if s.tail = [] then some .premature else value.parse depth mode s.tail).map (located m) := by
    intro mode
    have hshort : s.length < 2 ↔ s.tail = [] := by
      rw [← length_eq_zero_iff, length_tail]
      have hpos := length_pos_iff.mpr hne
      omega
    by_cases htail : s.tail = []
    · rw [if_pos htail, if_pos (hshort.mpr htail)]
      rfl
    rw [if_neg htail, if_neg (fun h => htail (hshort.mp h))]
    exact inner mode s s.tail (tail_suffix s) hs
  obtain ⟨c, rest, rfl⟩ := exists_cons_of_ne_nil hne
  cases func with
  | null => exact parse_word_located hs
  | true_ => exact parse_word_located hs
  | false_ => exact parse_word_located hs
  | string => exact parse_string_located hs
  | number => exact parse_number_located hs
  | list =>
    rw [call, checked.place_tail hs]
    exact hloop (.list [])
  | object =>
    rw [call, checked.place_tail hs]
    exact hloop (.object [])

theorem parse_next_token_located (inner : Follows m depth) (hs : s <:+ m) :
    parse_next_token m (parse m depth) (place m s) s.length =
      (value.parse_next_token (value.parse depth) s).map (located m) := by
  have hskip := skip_chars_suffix s
  rw [parse_next_token, skip_chars_located hs, bind_some, left_located hskip hs, bind_some, value.parse_next_token]
  cases hcase : value.skip_chars s with
  | nil => rfl
  | cons c rest =>
    rw [hcase] at hskip
    have hwhole := hskip.trans hs
    rw [if_neg (by simp), checked.get_place hwhole, bind_some]
    simp only
    cases get_parse_func_for c with
    | none => rfl
    | some func => exact call_located inner hwhole (by simp) func

theorem parse_list_located (inner : Follows m depth) (items : List Value) (hstart : start <:+ m) (hs : s <:+ start) :
    parse_list m (parse m depth) (place m start) start.length (place m s) s.length items =
      (value.parse_list (value.parse depth) items s).map (located m) := by
  rw [parse_list, value.parse_list, loop_head_located hstart hs, bind_some]
  simp only [length_eq_zero_iff]
  by_cases hnil : s = []
  · rw [if_pos hnil, if_pos hnil, hnil]
    rfl
  rw [if_neg hnil, if_neg hnil]
  cases hhead : value.loop_head close_list (!items.isEmpty) s with
  | closed rest => rfl
  | premature => rfl
  | error => rfl
  | entry entry =>
    have hentry := (loop_head_suffix.2 entry hhead).1.trans hs
    simp only [located_head]
    refine (congrArg (chain · _) (inner .token entry entry (suffix_refl _) (hentry.trans hstart))).trans ?_
    apply chain_located
    intro item rest hitem
    have hrest := (parse_suffix hitem).trans hentry
    rw [left_located hrest hstart, bind_some]
    exact inner (.list (items ++ [item])) start rest hrest hstart

theorem parse_kv_pair_located (inner : Follows m depth) (hs : s <:+ m)
    {next : List Byte → Value → List Byte → Option (Outcome Value)}
    {next' : List Byte → Value → Nat → Option (Located Value)}
    (hnext : ∀ key v rest, rest <:+ s → next' key v (place m rest) = (next key v rest).map (located m)) :
    parse_kv_pair m (parse m depth) (place m s) s.length next' =
      (value.parse_kv_pair (value.parse depth) s next).map (located m) := by
  rw [parse_kv_pair, value.parse_kv_pair]
  by_cases hshort : s.length < 2
  · rw [if_pos hshort, if_pos hshort]
    rfl
  rw [if_neg hshort, if_neg hshort]
  refine (congrArg (chain · _) (inner .token s s (suffix_refl _) hs)).trans ?_
  apply chain_located
  intro key between hkey
  have hbetween := parse_suffix hkey
  cases key with
  | string key =>
    have hskip := (skip_chars_suffix between).trans hbetween
    simp only
    rw [left_located hbetween hs, bind_some, skip_chars_located (hbetween.trans hs), bind_some,
      left_located hskip hs, bind_some]
    cases hcase : value.skip_chars between with
    | nil => rfl
    | cons c content =>
      rw [hcase] at hskip
      have hwhole := hskip.trans hs
      have hcontent : content <:+ s := (suffix_cons c content).trans hskip
      rw [if_neg (by simp), checked.get_place hwhole, bind_some, checked.place_tail hwhole,
        length_cons, Nat.add_sub_cancel]
      simp only
      by_cases hcolon : c ≠ colon
      · rw [if_pos hcolon, if_pos hcolon]
        rfl
      rw [if_neg hcolon, if_neg hcolon]
      refine (congrArg (chain · _) (inner .token content content (suffix_refl _) (hcontent.trans hs))).trans ?_
      apply chain_located
      exact fun v rest hv => hnext key v rest ((parse_suffix hv).trans hcontent)
  | _ => rfl

theorem parse_object_located (inner : Follows m depth) (pairs : List (List Byte × Value)) (hstart : start <:+ m)
    (hs : s <:+ start) :
    parse_object m (parse m depth) (place m start) start.length (place m s) s.length pairs =
      (value.parse_object (value.parse depth) pairs s).map (located m) := by
  rw [parse_object, value.parse_object, loop_head_located hstart hs, bind_some]
  simp only [length_eq_zero_iff]
  by_cases hnil : s = []
  · rw [if_pos hnil, if_pos hnil]
    rfl
  rw [if_neg hnil, if_neg hnil]
  cases hhead : value.loop_head close_object (!pairs.isEmpty) s with
  | closed rest => rfl
  | premature => rfl
  | error => rfl
  | entry entry =>
    have hentry := (loop_head_suffix.2 entry hhead).1.trans hs
    apply parse_kv_pair_located inner (hentry.trans hstart)
    intro key v rest hrest
    by_cases hmem : key ∈ pairs.map Prod.fst
    · rw [if_pos hmem, if_pos hmem]
      rfl
    have hwhole := hrest.trans hentry
    rw [if_neg hmem, if_neg hmem, left_located hwhole hstart, bind_some]
    exact inner (.object (pairs ++ [(key, v)])) start rest hwhole hstart

theorem parse_located (m : List Byte) (depth : Nat) : Follows m depth := by
  induction depth with
  | zero =>
    intro mode start s _ _
    cases mode <;> rfl
  | succ depth ih =>
    intro mode start s hs hstart
    cases mode with
    | token => exact parse_next_token_located ih (hs.trans hstart)
    | list items => exact parse_list_located ih items hstart hs
    | object pairs => exact parse_object_located ih pairs hstart hs

theorem ov_value_parse_located (hs : s <:+ m) :
    ov_value_parse m (place m s) s.length = (value.ov_value_parse s).map (located m) := by
  rw [ov_value_parse, value.ov_value_parse]
  by_cases hnil : s = []
  · rw [if_pos (length_eq_zero_iff.mpr hnil), hnil]
    rfl
  rw [if_neg (by rwa [length_eq_zero_iff])]
  exact parse_located m _ .token s s (suffix_refl _) hs

theorem stream_loop_located {rounds : Nat} (hs : s <:+ m) :
    (stream_loop m rounds (place m s) s.length).map (fun r => (r.1.map Consumed.item, r.2)) =
      (value.stream_loop rounds s).map fun r => (r.1, r.2.map (place m)) := by
  induction rounds generalizing s with
  | zero => rfl
  | succ rounds ih =>
    rw [stream_loop, value.stream_loop, ov_value_parse_located hs]
    cases hparse : value.ov_value_parse s with
    | none => rfl
    | some outcome =>
      cases outcome with
      | premature => rfl
      | error => rfl
      | found v rest =>
        have hrest := (parse_suffix hparse).trans hs
        have hleft := left_located hrest (suffix_refl m)
        rw [checked.place_self] at hleft
        have hmore := ih hrest
        simp only [map_some, located, hleft, bind_some]
        cases hcase : stream_loop m rounds (place m rest) rest.length with
        | none =>
          rw [hcase] at hmore
          cases hcase' : value.stream_loop rounds rest with
          | none => rfl
          | some r => simp [hcase'] at hmore
        | some r =>
          rw [hcase] at hmore
          cases hcase' : value.stream_loop rounds rest with
          | none => simp [hcase'] at hmore
          | some r' =>
            rw [hcase', map_some, map_some, some.injEq, Prod.mk.injEq] at hmore
            simp [hmore.1, hmore.2]

/-- A number is expected where none begins, and there is more than one octet. -/
def Stalls (s : List Byte) : Prop :=
  ∃ c tail, value.skip_chars s = c :: tail ∧ tail ≠ [] ∧ begins_number c = true ∧ cstring.strtod (c :: tail) = 0

/-- What is left of the input behind some values of it. -/
inductive Reaches (s : List Byte) : List Byte → Prop where
  | start : Reaches s s
  | step {between rest : List Byte} {v : Value} (h : Reaches s between)
      (hfound : value.ov_value_parse between = some (.found v rest)) : Reaches s rest

theorem Reaches.behind {between : List Byte} {v : Value} (h : Reaches rest between)
    (hfound : value.ov_value_parse s = some (.found v rest)) : Reaches s between := by
  induction h with
  | start => exact .step .start hfound
  | step _ hnext ih => exact .step ih hnext

theorem Stalls.again (h : Stalls s) :
    value.ov_value_parse s = some (.found (.number []) (value.skip_chars s)) ∧ Stalls (value.skip_chars s) := by
  obtain ⟨c, tail, hskip, htail, hc, hzero⟩ := h
  have hseparator := (numeral_char_between c (begins_number_char c hc)).1
  have hfunc : ∀ c : Byte, begins_number c = true → get_parse_func_for c = some .number := by decide +kernel
  have hlong : ¬ (c :: tail).length < 2 := by
    have hpos := length_pos_iff.mpr htail
    rw [length_cons]
    omega
  refine ⟨?_, c, tail, ?_, htail, hc, hzero⟩
  · rw [value.ov_value_parse, token_of_skip hskip (hfunc c hc), value.call, value.parse_number, if_neg hlong, hzero, hskip]
    rfl
  · rw [hskip, value.skip_chars, dropWhile_cons_of_neg (by simp [hseparator])]

theorem found_shorter {v : Value} (h : value.ov_value_parse s = some (.found v rest)) (hs : ¬ Stalls s) :
    rest.length < s.length := by
  obtain hless | ⟨hv, -⟩ := token_shorter h
  · exact hless
  obtain ⟨c, tail, hskip, hcase⟩ := token_cases h
  rw [hv] at hcase
  generalize hempty : Value.number [] = empty at hcase
  cases hcase with
  | word hfunc hword htext =>
    rw [← hempty] at hword
    exact absurd hword word_ne_number
  | number hfunc hlength =>
    simp only [Value.number.injEq, nil_eq, take_eq_nil_iff, reduceCtorEq, or_false] at hempty
    rw [length_cons] at hlength
    exact absurd ⟨c, tail, hskip, length_pos_iff.mp (by omega), begins_number_of_func hfunc, hempty⟩ hs
  | string => cases hempty
  | list => cases hempty
  | object => cases hempty

theorem Stalls.never_ends (h : Stalls s) (rounds : Nat) : value.stream_loop rounds s = none := by
  induction rounds generalizing s with
  | zero => rfl
  | succ rounds ih =>
    obtain ⟨hparse, hagain⟩ := h.again
    rw [value.stream_loop, hparse]
    simp only [ih hagain, map_none]

theorem Reaches.ends (h : Reaches s rest) (hs : ∃ rounds, value.stream_loop rounds s ≠ none) :
    ∃ rounds, value.stream_loop rounds rest ≠ none := by
  induction h with
  | start => exact hs
  | step _ hfound ih =>
    obtain ⟨rounds, hends⟩ := ih
    cases rounds with
    | zero => exact absurd rfl hends
    | succ rounds =>
      rw [value.stream_loop, hfound] at hends
      refine ⟨rounds, fun hnone => hends ?_⟩
      simp only [hnone, map_none]

theorem stream_loop_progress (hs : s <:+ m) (hcalm : ∀ rest, Reaches s rest → ¬ Stalls rest) {rounds : Nat}
    (hrounds : s.length < rounds) :
    ∃ values remainder, stream_loop m rounds (place m s) s.length = some (values, remainder) ∧
      ∀ x ∈ values, x.start < x.stop := by
  induction rounds generalizing s with
  | zero => omega
  | succ rounds ih =>
    obtain ⟨outcome, hparse⟩ := ov_value_parse_defined s
    rw [stream_loop, ov_value_parse_located hs, hparse]
    cases outcome with
    | premature => exact ⟨[], _, rfl, by simp⟩
    | error => exact ⟨[], _, rfl, by simp⟩
    | found v rest =>
      have hless := found_shorter hparse (hcalm s .start)
      have hrest := (parse_suffix hparse).trans hs
      have hleft := left_located hrest (suffix_refl m)
      rw [checked.place_self] at hleft
      have hcalm' : ∀ last, Reaches rest last → ¬ Stalls last :=
        fun last hlast => hcalm last (hlast.behind hparse)
      obtain ⟨values, remainder, hloop, hvalues⟩ := ih hrest hcalm' (by omega)
      refine ⟨⟨v, place m s, place m rest⟩ :: values, remainder, ?_, ?_⟩
      · simp [located, hleft, hloop]
      refine forall_mem_cons.mpr ⟨?_, hvalues⟩
      have hwhole := checked.place_add_length hs
      have hwhole' := checked.place_add_length hrest
      simp only
      omega

theorem stream_calm {rounds : Nat} {values : List Consumed} {remainder : Option Nat}
    (h : ov_value_parse_stream rounds m = some (values, remainder)) (hrest : Reaches m rest) : ¬ Stalls rest := by
  intro hstalls
  obtain ⟨rounds, hends⟩ : ∃ rounds, value.stream_loop rounds rest ≠ none := by
    apply hrest.ends
    by_cases hnil : m = []
    · refine ⟨1, ?_⟩
      rw [hnil]
      decide
    refine ⟨rounds, fun hnone => ?_⟩
    have hwhole := @stream_loop_located m m rounds (suffix_refl m)
    rw [ov_value_parse_stream, if_neg hnil] at h
    rw [checked.place_self, h, hnone] at hwhole
    simp at hwhole
  exact hends (hstalls.never_ends rounds)

/-- The loop ends, reads inside of the input only, and gets on with every value, where no
    number is expected that is none. -/
theorem stream_ends_iff (m : List Byte) :
    (∃ rounds values remainder, ov_value_parse_stream rounds m = some (values, remainder) ∧
        ∀ x ∈ values, x.start < x.stop) ↔
      ∀ rest, Reaches m rest → ¬ Stalls rest := by
  constructor
  · rintro ⟨rounds, values, remainder, hstream, -⟩ rest hrest
    exact stream_calm hstream hrest
  · intro hcalm
    by_cases hnil : m = []
    · exact ⟨0, [], none, by rw [ov_value_parse_stream, if_pos hnil], by simp⟩
    · obtain ⟨values, remainder, hloop, hvalues⟩ :=
        stream_loop_progress (suffix_refl m) hcalm (Nat.lt_succ_self m.length)
      rw [checked.place_self m] at hloop
      exact ⟨m.length + 1, values, remainder, by rw [ov_value_parse_stream, if_neg hnil, hloop], hvalues⟩

/-- A minus with a letter behind it. -/
theorem minus_never_ends :
    ¬ ∃ rounds values remainder, ov_value_parse_stream rounds [45, 120] = some (values, remainder) ∧
      ∀ x ∈ values, x.start < x.stop := by
  rintro ⟨rounds, values, remainder, hstream, -⟩
  exact stream_calm hstream .start ⟨45, [120], by decide, by decide, by decide, by decide⟩

end openvocs.value.pointer
