import Openvocs.Json.Scan

open List

namespace openvocs.json.scan

open calls

inductive Bracket where
  | array
  | object

/-- What comes next. -/
inductive Due where
  | value
  /-- A bracket was opened just now. -/
  | opened
  | key
  /-- A value has ended. -/
  | behind

/-- Open brackets, the innermost first, what is due, and what is left of the input. -/
structure Place where
  stack : List Bracket
  due : Due
  rest : List Byte

/-- What is left behind the white space. -/
abbrev trim (s : List Byte) : List Byte := s.dropWhile is_whitespace

/-- What is left behind a string, as far as there is one. -/
def behind_string (s : List Byte) : Option (List Byte) :=
  match match_string s s.length with
  | some (.done rest) => some rest
  | _ => none

/-- What is left behind a literal, as far as there is one. -/
def behind_literal (s : List Byte) : Option (List Byte) :=
  match match_literal s s.length with
  | some (.done rest) => some rest
  | _ => none

/-- The next place, if there is one. A bracket may follow a value without a comma. -/
def Place.step : Place → Option Place
  | ⟨stack, .value, s⟩ =>
    match trim s with
    | [] => none
    | c :: t =>
      if c = open_object then some ⟨.object :: stack, .opened, t⟩
      else if c = open_array then some ⟨.array :: stack, .opened, t⟩
      else if c = quote then (behind_string (c :: t)).map (⟨stack, .behind, ·⟩)
      else (behind_literal (c :: t)).map (⟨stack, .behind, ·⟩)
  | ⟨.array :: stack, .opened, s⟩ =>
    match trim s with
    | [] => none
    | c :: t => if c = close_array then some ⟨stack, .behind, t⟩ else some ⟨.array :: stack, .value, c :: t⟩
  | ⟨.object :: stack, .opened, s⟩ =>
    match trim s with
    | [] => none
    | c :: t => if c = close_object then some ⟨stack, .behind, t⟩ else some ⟨.object :: stack, .key, c :: t⟩
  | ⟨.object :: stack, .key, s⟩ =>
    match (behind_string (trim s)).map trim with
    | some (c :: t) => if c = colon then some ⟨.object :: stack, .value, t⟩ else none
    | _ => none
  | ⟨.array :: stack, .behind, s⟩ =>
    match trim s with
    | [] => none
    | c :: t =>
      if c = comma then some ⟨.array :: stack, .value, t⟩
      else if c = close_array then some ⟨stack, .behind, t⟩
      else if c = open_array ∨ c = open_object then some ⟨.array :: stack, .value, c :: t⟩
      else none
  | ⟨.object :: stack, .behind, s⟩ =>
    match trim s with
    | [] => none
    | c :: t =>
      if c = comma then some ⟨.object :: stack, .key, t⟩
      else if c = close_object then some ⟨stack, .behind, t⟩
      else if c = open_array ∨ c = open_object then some ⟨.object :: stack, .key, c :: t⟩
      else none
  | ⟨[], .behind, s⟩ =>
    match trim s with
    | [] => none
    | c :: t => some ⟨[], .value, c :: t⟩
  | _ => none

/-- Only white space is left where a value is due, or behind a value in an array. -/
structure Place.Bare (p : Place) : Prop where
  left : p.rest ≠ []
  white : ∀ c ∈ p.rest, is_whitespace c = true
  due : p.due = .value ∨ p.due = .behind ∧ p.stack.head? = some .array

variable {s t r : List Byte}

theorem length_trim_le (s : List Byte) : (trim s).length ≤ s.length := length_dropWhile_le ..

theorem skip_guarded_eq (h : s ≠ []) : skip_guarded s s.length = .done (trim s, (trim s).length) := by
  induction s with
  | nil => exact absurd rfl h
  | cons c s ih =>
    rw [skip_guarded]
    by_cases hc : is_whitespace c = true
    · rw [if_pos hc, trim, dropWhile_cons_of_pos hc, length_cons, Nat.cast_add_one, add_sub_cancel_right]
      cases s with
      | nil => rfl
      | cons d s =>
        rw [if_neg (by simp), ih (cons_ne_nil d s)]
    · rw [if_neg hc, trim, dropWhile_cons_of_neg hc]

theorem skip_unguarded_eq (h : trim s ≠ []) : skip_unguarded s s.length = .done (trim s, (trim s).length) := by
  induction s with
  | nil => exact absurd rfl h
  | cons c s ih =>
    rw [skip_unguarded]
    by_cases hc : is_whitespace c = true
    · rw [trim, dropWhile_cons_of_pos hc] at h
      rw [if_pos hc, trim, dropWhile_cons_of_pos hc, length_cons, Nat.cast_add_one, add_sub_cancel_right, ih h]
    · rw [if_neg hc, trim, dropWhile_cons_of_neg hc]

theorem skip_unguarded_outside (h : trim s = []) (length : Int) : skip_unguarded s length = .outside := by
  induction s generalizing length with
  | nil => rfl
  | cons c s ih =>
    rw [skip_unguarded]
    by_cases hc : is_whitespace c = true
    · rw [trim, dropWhile_cons_of_pos hc] at h
      rw [if_pos hc, ih h]
    rw [trim, dropWhile_cons_of_neg hc] at h
    cases h

theorem clear_whitespace_eq (s : List Byte) : clear_whitespace s s.length = .done (trim s, (trim s).length) := by
  induction s with
  | nil => rfl
  | cons c s ih =>
    rw [clear_whitespace, if_neg (by simp)]
    by_cases hc : is_whitespace c = true
    · rw [if_pos hc, trim, dropWhile_cons_of_pos hc, length_cons, Nat.cast_add_one, add_sub_cancel_right, ih]
    · rw [if_neg hc, trim, dropWhile_cons_of_neg hc]

theorem left_eq (s t : List Byte) : left s t s.length = t.length := sub_sub_cancel ..

theorem string_loop_done (passed : List Byte) (prev : Byte) (h : s ≠ []) :
    ∃ passed' nxt, string_loop passed prev s.length s = .done (passed', nxt) ∧ nxt ≠ [] ∧ nxt <:+ s := by
  induction s generalizing passed prev with
  | nil => exact absurd rfl h
  | cons c s ih =>
    rw [string_loop]
    split
    · rename_i hmore
      split
      · exact ⟨_, _, rfl, cons_ne_nil c s, suffix_rfl⟩
      have hs : s ≠ [] := by
        rintro rfl
        simp at hmore
      obtain ⟨passed', nxt, hloop, hnxt, hsuffix⟩ := ih (passed ++ [c]) c hs
      rw [length_cons, Nat.cast_add_one, add_sub_cancel_right]
      exact ⟨passed', nxt, hloop, hnxt, hsuffix.trans (suffix_cons c s)⟩
    · exact ⟨_, _, rfl, cons_ne_nil c s, suffix_rfl⟩

/-- A call that goes over a token of the input: it comes further, or is given up. -/
def Token (s : List Byte) (call : Scan (List Byte)) : Prop :=
  call = fail ∨ ∃ rest, call = .done rest ∧ rest <:+ s ∧ rest.length < s.length

theorem match_string_token (s : List Byte) : Token s (match_string s s.length) := by
  cases s with
  | nil => exact .inl rfl
  | cons c t =>
    rw [match_string, if_neg (by simp), Call.head_cons, Call.done_bind]
    dsimp only
    split
    · exact .inl rfl
    rw [length_cons, Nat.cast_add_one, add_sub_cancel_right]
    split
    · exact .inr ⟨t, rfl, suffix_cons c t, Nat.lt_succ_self _⟩
    rename_i ht
    have hne : t ≠ [] := by
      rintro rfl
      exact ht rfl
    obtain ⟨passed, nxt, hloop, hnxt, hsuffix⟩ := string_loop_done [] c hne
    obtain ⟨d, next, rfl⟩ := exists_cons_of_ne_nil hnxt
    rw [hloop, Call.done_bind, Call.head_cons, Call.done_bind]
    dsimp only
    split
    · exact .inl rfl
    have hnext : next <:+ t := (suffix_cons d next).trans hsuffix
    exact .inr ⟨next, rfl, hnext.trans (suffix_cons c t), Nat.lt_succ_of_le hnext.length_le⟩

theorem match_word_token {word : List Byte} (h : word.length ≤ s.length) :
    match_word word s = fail ∨ match_word word s = .done (s.drop word.length) := by
  induction word generalizing s with
  | nil => exact .inr rfl
  | cons w word ih =>
    cases s with
    | nil => cases h
    | cons c s =>
      rw [match_word]
      split
      · exact ih (Nat.le_of_succ_le_succ h)
      · exact .inl rfl

theorem match_literal_token (s : List Byte) : Token s (match_literal s s.length) := by
  cases s with
  | nil => exact .inl rfl
  | cons c t =>
    have hword (word : List Byte) (hword : word ≠ []) :
        Token (c :: t) (match_word (word.take ((c :: t).length : Int).toNat) (c :: t)) := by
      rw [Int.toNat_natCast]
      obtain hfail | hdone := @match_word_token (c :: t) (word.take (c :: t).length) (by simp)
      · exact .inl hfail
      refine .inr ⟨_, hdone, drop_suffix _ _, ?_⟩
      have hpos := length_pos_of_ne_nil hword
      rw [length_drop, length_take, length_cons]
      omega
    rw [match_literal, if_neg (by simp), Call.head_cons, Call.done_bind]
    dsimp only
    split
    · exact hword null_word (cons_ne_nil _ _)
    split
    · exact hword true_word (cons_ne_nil _ _)
    split
    · exact hword false_word (cons_ne_nil _ _)
    · exact .inl rfl

/-- The matcher does not come from a place to one where only white space is left. -/
abbrev SafeAt (p : Place) : Prop := Safe Place.step Place.Bare p

variable {stack : List Bracket}

theorem not_bare_nil (due : Due) : ¬ Place.Bare ⟨stack, due, []⟩ := fun h => h.left rfl

theorem not_bare_of_trim {due : Due} (h : trim s ≠ []) : ¬ Place.Bare ⟨stack, due, s⟩ :=
  fun hbare => h (dropWhile_eq_nil_iff.mpr hbare.white)

theorem bare_of_trim {due : Due} (hs : s ≠ []) (h : trim s = [])
    (hdue : due = .value ∨ due = .behind ∧ stack.head? = some .array) : Place.Bare ⟨stack, due, s⟩ :=
  ⟨hs, dropWhile_eq_nil_iff.mp h, hdue⟩

theorem not_bare_opened : ¬ Place.Bare ⟨stack, .opened, s⟩ := fun h => by
  obtain hdue | ⟨hdue, -⟩ := h.due <;> cases hdue

theorem not_bare_key : ¬ Place.Bare ⟨stack, .key, s⟩ := fun h => by
  obtain hdue | ⟨hdue, -⟩ := h.due <;> cases hdue

theorem not_bare_behind_object : ¬ Place.Bare ⟨.object :: stack, .behind, s⟩ := fun h => by
  obtain hdue | ⟨-, hstack⟩ := h.due
  · cases hdue
  · cases hstack

theorem not_bare_behind_all : ¬ Place.Bare ⟨[], .behind, s⟩ := fun h => by
  obtain hdue | ⟨-, hstack⟩ := h.due
  · cases hdue
  · cases hstack

theorem safe_behind_nil (stack : List Bracket) : SafeAt ⟨stack, .behind, []⟩ := by
  refine safe_of_halts (not_bare_nil _) ?_
  match stack with
  | [] => rfl
  | .array :: _ => rfl
  | .object :: _ => rfl

/-- A bracket that is opened by the last octet. -/
def Dangling (s : List Byte) : Prop := s = [open_array] ∨ s = [open_object]

theorem trim_dangling (h : Dangling s) : trim s = s := by
  obtain rfl | rfl := h <;> rfl

theorem Dangling.ne_nil (h : Dangling s) : s ≠ [] := by
  obtain rfl | rfl := h <;> exact cons_ne_nil _ _

theorem not_bare_dangling {due : Due} (h : Dangling s) : ¬ Place.Bare ⟨stack, due, s⟩ :=
  not_bare_of_trim (by rw [trim_dangling h]; exact h.ne_nil)

theorem safe_value_dangling (stack : List Bracket) (h : Dangling s) : SafeAt ⟨stack, .value, s⟩ := by
  have hstep : ∃ b, Place.step ⟨stack, .value, s⟩ = some ⟨b :: stack, .opened, []⟩ := by
    obtain rfl | rfl := h
    · exact ⟨.array, rfl⟩
    · exact ⟨.object, rfl⟩
  obtain ⟨b, hb⟩ := hstep
  refine (safe_iff_of_step (not_bare_dangling h) hb).mpr (safe_of_halts not_bare_opened ?_)
  cases b <;> rfl

theorem safe_key_dangling (stack : List Bracket) (h : Dangling s) : SafeAt ⟨.object :: stack, .key, s⟩ := by
  refine safe_of_halts not_bare_key ?_
  obtain rfl | rfl := h <;> rfl

theorem safe_behind_dangling (stack : List Bracket) (h : Dangling s) : SafeAt ⟨stack, .behind, s⟩ := by
  match stack with
  | [] =>
    refine (safe_iff_of_step not_bare_behind_all ?_).mpr (safe_value_dangling [] h)
    obtain rfl | rfl := h <;> rfl
  | .array :: stack =>
    refine (safe_iff_of_step (not_bare_dangling h) ?_).mpr (safe_value_dangling (.array :: stack) h)
    obtain rfl | rfl := h <;> rfl
  | .object :: stack =>
    refine (safe_iff_of_step not_bare_behind_object ?_).mpr (safe_key_dangling stack h)
    obtain rfl | rfl := h <;> rfl

/-- What a call that goes over a value at `s` returns: how far it came, and counters that are no
smaller. -/
structure Passed (s : List Byte) (counter : Counter) (result : List Byte × Counter) : Prop where
  shorter : result.1.length ≤ s.length
  moved : result.1.length < s.length ∨ result.1 = s ∧ Dangling s
  objects : counter.objects ≤ result.2.objects
  arrays : counter.arrays ≤ result.2.arrays

theorem Passed.of_trim {counter : Counter} {result : List Byte × Counter} (h : Passed (trim s) counter result) :
    Passed s counter result := by
  have htrim := length_trim_le s
  refine ⟨h.shorter.trans htrim, ?_, h.objects, h.arrays⟩
  obtain hless | ⟨hsame, hdangling⟩ := h.moved
  · exact .inl (hless.trans_le htrim)
  obtain hlt | heq := htrim.lt_or_eq
  · rw [hsame]
    exact .inl hlt
  have hs : trim s = s := (dropWhile_suffix is_whitespace).eq_of_length heq
  rw [hs] at hsame hdangling
  exact .inr ⟨hsame, hdangling⟩

/-- The call goes wrong when the machine does, and returns what is behind a value. -/
def Goes (stack : List Bracket) (post : List Byte × Counter → Prop) (call : Scan (List Byte × Counter)) (p : Place) :
    Prop :=
  Agrees Place.step Place.Bare post (fun result => ⟨stack, .behind, result.1⟩) call p

/-- The calls for values that are shorter than a bound go over them. -/
def Follows (value : List Byte → Int → Counter → Scan (List Byte × Counter)) (bound : Nat) : Prop :=
  ∀ stack s counter, s ≠ [] → s.length < bound →
    Goes stack (Passed s counter) (value s s.length counter) ⟨stack, .value, s⟩

theorem Follows.mono {value : List Byte → Int → Counter → Scan (List Byte × Counter)} {bound bound' : Nat}
    (h : Follows value bound) (hle : bound' ≤ bound) : Follows value bound' :=
  fun stack s counter hs hlt => h stack s counter hs (hlt.trans_le hle)

variable {post : List Byte × Counter → Prop} {p : Place}

theorem Goes.mono {post' : List Byte × Counter → Prop} {call : Scan (List Byte × Counter)} (h : Goes stack post call p)
    (hpost : ∀ result, post result → post' result) : Goes stack post' call p := by
  match call, h with
  | none, h => exact h
  | some (.stopped _), h => exact h
  | some (.done result), h => exact ⟨hpost result h.1, h.2⟩

theorem goes_exhausted {counter : Counter} (hpost : post ([], counter)) (hsafe : SafeAt p) :
    Goes stack post (.done ([], counter)) p :=
  agrees_done hpost (iff_of_true hsafe (safe_behind_nil stack))

theorem goes_dangling {counter : Counter} (hs : Dangling s) (hpost : post (s, counter)) (hsafe : SafeAt p) :
    Goes stack post (.done (s, counter)) p :=
  agrees_done hpost (iff_of_true hsafe (safe_behind_dangling stack hs))

theorem length_lt_one_iff : ((s.length : Int) < 1) ↔ s = [] := by
  rw [← length_eq_zero_iff]
  omega

section

variable {value : List Byte → Int → Counter → Scan (List Byte × Counter)} {start next : List Byte}
  {counter₀ counter : Counter}

theorem object_loop_follows (hvalue : Follows value start.length) (stack : List Bracket) {rounds : Nat}
    (hrounds : next.length < rounds) (hshort : next.length < start.length)
    (hobjects : counter₀.objects < counter.objects) (harrays : counter₀.arrays ≤ counter.arrays) :
    Goes stack (Passed start counter₀) (object_loop value start start.length rounds next next.length counter)
      ⟨.object :: stack, .key, next⟩ := by
  induction rounds generalizing next counter with
  | zero => cases hrounds
  | succ rounds ih =>
    have hpassed {s : List Byte} {counter' : Counter} (hs : s.length ≤ next.length)
        (ho : counter.objects ≤ counter'.objects) (ha : counter.arrays ≤ counter'.arrays) :
        Passed start counter₀ (s, counter') :=
      ⟨hs.trans hshort.le, .inl (hs.trans_lt hshort), hobjects.le.trans ho, harrays.trans ha⟩
    by_cases hnil : next = []
    · subst hnil
      rw [object_loop, if_pos (by simp)]
      exact goes_exhausted (hpassed le_rfl le_rfl le_rfl) (safe_of_halts not_bare_key rfl)
    rw [object_loop, if_neg (by have := length_pos_of_ne_nil hnil; omega), skip_guarded_eq hnil, Call.done_bind]
    dsimp only
    have htrim := length_trim_le next
    by_cases hblank : trim next = []
    · rw [hblank, if_pos (by simp)]
      refine goes_exhausted (hpassed (Nat.zero_le _) le_rfl le_rfl) (safe_of_halts not_bare_key ?_)
      rw [Place.step, hblank]
      rfl
    rw [if_neg (by have := length_pos_of_ne_nil hblank; omega)]
    obtain hfail | ⟨r, hdone, -, hr⟩ := match_string_token (trim next)
    · rw [hfail]
      refine agrees_stop _ (safe_of_halts not_bare_key ?_)
      rw [Place.step, behind_string, hfail]
      rfl
    have hstep : Place.step ⟨.object :: stack, .key, next⟩ =
        match trim r with
        | c :: t => if c = colon then some ⟨.object :: stack, .value, t⟩ else none
        | [] => none := by
      rw [Place.step, behind_string, hdone]
      cases htrimr : trim r <;> simp [Call.done, htrimr]
    rw [hdone, Call.done_bind, left_eq]
    by_cases hrnil : r = []
    · subst hrnil
      rw [if_pos (by simp)]
      exact goes_exhausted (hpassed (Nat.zero_le _) le_rfl le_rfl) (safe_of_halts not_bare_key hstep)
    rw [if_neg (by rwa [length_lt_one_iff]), skip_guarded_eq hrnil, Call.done_bind]
    dsimp only
    have htrimr := length_trim_le r
    cases hbehind : trim r with
    | nil =>
      rw [hbehind] at hstep
      rw [if_pos (by simp)]
      exact goes_exhausted (hpassed (Nat.zero_le _) le_rfl le_rfl) (safe_of_halts not_bare_key hstep)
    | cons c u =>
      rw [hbehind] at hstep htrimr
      rw [length_cons] at htrimr
      rw [if_neg (by simp), Call.head_cons, Call.done_bind]
      dsimp only
      by_cases hcolon : c = colon
      · rw [if_neg (not_not.mpr hcolon), length_cons, Nat.cast_add_one, add_sub_cancel_right]
        refine agrees_of_step not_bare_key (hstep.trans (if_pos hcolon)) ?_
        by_cases hu : u = []
        · subst hu
          rw [if_pos (by simp)]
          exact goes_exhausted (hpassed (Nat.zero_le _) le_rfl le_rfl) (safe_of_halts (not_bare_nil _) rfl)
        rw [if_neg (by rwa [length_lt_one_iff])]
        refine agrees_bind (hvalue (.object :: stack) u counter hu (by omega)) fun result hresult => ?_
        obtain ⟨r', counter'⟩ := result
        obtain ⟨hshorter, -, ho, ha⟩ := hresult
        dsimp only at hshorter ho ha ⊢
        rw [left_eq]
        by_cases hr' : r' = []
        · subst hr'
          rw [if_pos (by simp)]
          exact goes_exhausted (hpassed (Nat.zero_le _) ho ha) (safe_behind_nil _)
        rw [if_neg (by rwa [length_lt_one_iff]), skip_guarded_eq hr', Call.done_bind]
        dsimp only
        have htrimr' := length_trim_le r'
        cases hbehind' : trim r' with
        | nil =>
          rw [if_pos (by simp)]
          refine goes_exhausted (hpassed (Nat.zero_le _) ho ha) (safe_of_halts not_bare_behind_object ?_)
          rw [Place.step, hbehind']
        | cons d v =>
          have hstep' : Place.step ⟨.object :: stack, .behind, r'⟩ =
              if d = comma then some ⟨.object :: stack, .key, v⟩
              else if d = close_object then some ⟨stack, .behind, v⟩
              else if d = open_array ∨ d = open_object then some ⟨.object :: stack, .key, d :: v⟩
              else none := by
            rw [Place.step, hbehind']
          rw [hbehind', length_cons] at htrimr'
          rw [length_cons, Nat.cast_add_one, if_neg (by omega), Call.head_cons, Call.done_bind, add_sub_cancel_right]
          dsimp only
          by_cases hcomma : d = comma
          · rw [if_pos hcomma]
            refine agrees_of_step not_bare_behind_object (hstep'.trans (if_pos hcomma)) ?_
            exact ih (by omega) (by omega) (hobjects.trans_le ho) (harrays.trans ha)
          rw [if_neg hcomma] at hstep' ⊢
          by_cases hclose : d = close_object
          · rw [if_pos hclose] at hstep' ⊢
            refine agrees_of_step not_bare_behind_object hstep' ?_
            refine agrees_done ⟨?_, .inl ?_, ?_, harrays.trans ha⟩ Iff.rfl
            all_goals dsimp only; omega
          rw [if_neg hclose] at hstep' ⊢
          have hagain (hd : d = open_array ∨ d = open_object) :
              Goes stack (Passed start counter₀)
                (object_loop value start start.length rounds (d :: v) (v.length + 1) counter')
                ⟨.object :: stack, .behind, r'⟩ := by
            rw [if_pos hd] at hstep'
            refine agrees_of_step not_bare_behind_object hstep' ?_
            rw [← Nat.cast_add_one, ← length_cons]
            exact ih (by rw [length_cons]; omega) (by rw [length_cons]; omega) (hobjects.trans_le ho)
              (harrays.trans ha)
          have hlast (hd : d = open_array ∨ d = open_object) (hv : (v.length : Int) + 1 = 1) :
              Goes stack (Passed start counter₀) (.done (d :: v, counter')) ⟨.object :: stack, .behind, r'⟩ := by
            have hvnil : v = [] := length_eq_zero_iff.mp (by omega)
            subst hvnil
            have hdangling : Dangling [d] := hd.imp (congrArg (· :: [])) (congrArg (· :: []))
            rw [if_pos hd] at hstep'
            refine goes_dangling hdangling (hpassed ?_ ho ha) ?_
            · rw [length_singleton]
              omega
            · exact (safe_iff_of_step not_bare_behind_object hstep').mpr (safe_key_dangling stack hdangling)
          by_cases hobject : d = open_object
          · rw [if_pos hobject]
            split
            · rename_i hone
              exact hlast (.inr hobject) hone
            · exact hagain (.inr hobject)
          rw [if_neg hobject]
          by_cases harray : d = open_array
          · rw [if_pos harray]
            split
            · rename_i hone
              exact hlast (.inl harray) hone.1
            · exact hagain (.inl harray)
          rw [if_neg harray]
          refine agrees_stop _ (safe_of_halts not_bare_behind_object ?_)
          rw [hstep', if_neg fun h => h.elim harray hobject]
      · rw [if_pos hcolon]
        refine agrees_stop _ (safe_of_halts not_bare_key ?_)
        rw [hstep]
        exact if_neg hcolon

theorem array_loop_follows (hvalue : Follows value start.length) (stack : List Bracket) {rounds : Nat}
    (hrounds : next.length < rounds) (hshort : next.length < start.length)
    (hobjects : counter₀.objects ≤ counter.objects) (harrays : counter₀.arrays < counter.arrays) :
    Goes stack (Passed start counter₀) (array_loop value start start.length rounds next next.length counter)
      ⟨.array :: stack, .value, next⟩ := by
  induction rounds generalizing next counter with
  | zero => cases hrounds
  | succ rounds ih =>
    have hpassed {s : List Byte} {counter' : Counter} (hs : s.length ≤ next.length)
        (ho : counter.objects ≤ counter'.objects) (ha : counter.arrays ≤ counter'.arrays) :
        Passed start counter₀ (s, counter') :=
      ⟨hs.trans hshort.le, .inl (hs.trans_lt hshort), hobjects.trans ho, harrays.le.trans ha⟩
    by_cases hnil : next = []
    · subst hnil
      rw [array_loop, if_pos (by simp)]
      exact goes_exhausted (hpassed le_rfl le_rfl le_rfl) (safe_of_halts (not_bare_nil _) rfl)
    rw [array_loop, if_neg (by have := length_pos_of_ne_nil hnil; omega)]
    refine agrees_bind (hvalue (.array :: stack) next counter hnil hshort) fun result hresult => ?_
    obtain ⟨r, counter'⟩ := result
    obtain ⟨hshorter, hmoved, ho, ha⟩ := hresult
    dsimp only at hshorter hmoved ho ha ⊢
    rw [left_eq]
    by_cases hr : r = []
    · subst hr
      rw [if_pos (by simp)]
      exact goes_exhausted (hpassed (Nat.zero_le _) ho ha) (safe_behind_nil _)
    rw [if_neg (by rwa [length_lt_one_iff])]
    by_cases hblank : trim r = []
    · rw [skip_unguarded_outside hblank]
      exact agrees_outside (not_safe (bare_of_trim hr hblank (.inr ⟨rfl, rfl⟩)))
    have hright : ¬ Place.Bare ⟨.array :: stack, .behind, r⟩ := not_bare_of_trim hblank
    have htrim := length_trim_le r
    rw [skip_unguarded_eq hblank, Call.done_bind]
    dsimp only
    rw [left_eq, if_neg (by rwa [length_lt_one_iff])]
    cases hbehind : trim r with
    | nil => exact absurd hbehind hblank
    | cons d v =>
      have hstep : Place.step ⟨.array :: stack, .behind, r⟩ =
          if d = comma then some ⟨.array :: stack, .value, v⟩
          else if d = close_array then some ⟨stack, .behind, v⟩
          else if d = open_array ∨ d = open_object then some ⟨.array :: stack, .value, d :: v⟩
          else none := by
        rw [Place.step, hbehind]
      rw [hbehind, length_cons] at htrim
      rw [Call.head_cons, Call.done_bind, length_cons, Nat.cast_add_one, add_sub_cancel_right]
      dsimp only
      by_cases hcomma : d = comma
      · rw [if_pos hcomma]
        refine agrees_of_step hright (hstep.trans (if_pos hcomma)) ?_
        exact ih (by omega) (by omega) (hobjects.trans ho) (harrays.trans_le ha)
      rw [if_neg hcomma] at hstep ⊢
      by_cases hclose : d = close_array
      · rw [if_pos hclose] at hstep ⊢
        refine agrees_of_step hright hstep (agrees_done ⟨?_, .inl ?_, hobjects.trans ho, ?_⟩ Iff.rfl)
        all_goals dsimp only; omega
      rw [if_neg hclose] at hstep ⊢
      -- a bracket begins the next item without a comma, unless it is the last octet
      have hlast (hd : d = open_array ∨ d = open_object) (hv : (v.length : Int) + 1 = 1) :
          Goes stack (Passed start counter₀) (.done (d :: v, counter')) ⟨.array :: stack, .behind, r⟩ := by
        have hvnil : v = [] := length_eq_zero_iff.mp (by omega)
        subst hvnil
        have hdangling : Dangling [d] := hd.imp (congrArg (· :: [])) (congrArg (· :: []))
        rw [if_pos hd] at hstep
        refine goes_dangling hdangling (hpassed ?_ ho ha) ?_
        · rw [length_singleton]
          omega
        · exact (safe_iff_of_step hright hstep).mpr (safe_value_dangling _ hdangling)
      have hagain (hd : d = open_array ∨ d = open_object) (hv : ¬ (v.length : Int) + 1 = 1) :
          Goes stack (Passed start counter₀)
            (array_loop value start start.length rounds (d :: v) (v.length + 1) counter')
            ⟨.array :: stack, .behind, r⟩ := by
        rw [if_pos hd] at hstep
        refine agrees_of_step hright hstep ?_
        rw [← Nat.cast_add_one, ← length_cons]
        have hless : r.length < next.length := by
          refine hmoved.resolve_right fun hsame => hv ?_
          have hone : next.length = 1 := by obtain rfl | rfl := hsame.2 <;> rfl
          rw [← hsame.1] at hone
          omega
        refine ih ?_ ?_ (hobjects.trans ho) (harrays.trans_le ha)
        all_goals rw [length_cons]; omega
      by_cases harray : d = open_array
      · rw [if_pos harray]
        split
        · rename_i hone
          exact hlast (.inl harray) hone
        rename_i hmore
        exact hagain (.inl harray) hmore
      rw [if_neg harray]
      by_cases hobject : d = open_object
      · rw [if_pos hobject]
        split
        · rename_i hone
          exact hlast (.inr hobject) hone.1
        rename_i hmore
        refine hagain (.inr hobject) fun hone => hmore ⟨hone, ?_⟩
        omega
      rw [if_neg hobject]
      refine agrees_stop _ (safe_of_halts hright ?_)
      rw [hstep, if_neg fun h => h.elim harray hobject]

theorem match_object_follows (hvalue : Follows value (next.length + 1)) (stack : List Bracket) (counter : Counter) :
    Goes stack (Passed (open_object :: next) counter)
      (match_object value (open_object :: next) (open_object :: next).length counter)
      ⟨.object :: stack, .opened, next⟩ := by
  rw [match_object, if_neg (by simp), Call.head_cons, Call.done_bind]
  dsimp only
  rw [if_neg (not_not.mpr rfl), length_cons, Nat.cast_add_one, add_sub_cancel_right]
  by_cases hnil : next = []
  · subst hnil
    rw [if_pos (by simp)]
    have hpassed : Passed [open_object] counter ([open_object], { counter with objects := counter.objects + 1 }) :=
      ⟨le_rfl, .inr ⟨rfl, .inr rfl⟩, Nat.le_succ _, le_rfl⟩
    exact goes_dangling (.inr rfl) hpassed (safe_of_halts not_bare_opened rfl)
  have hpos := length_pos_of_ne_nil hnil
  have htrim := length_trim_le next
  rw [if_neg (by omega), skip_guarded_eq hnil, Call.done_bind]
  dsimp only
  cases hbehind : trim next with
  | nil =>
    rw [if_pos (by simp)]
    refine goes_exhausted ⟨Nat.zero_le _, .inl (Nat.succ_pos _), Nat.le_succ _, le_rfl⟩ ?_
    refine safe_of_halts not_bare_opened ?_
    rw [Place.step, hbehind]
  | cons c behind =>
    have hstep : Place.step ⟨.object :: stack, .opened, next⟩ =
        if c = close_object then some ⟨stack, .behind, behind⟩ else some ⟨.object :: stack, .key, c :: behind⟩ := by
      rw [Place.step, hbehind]
    rw [hbehind] at htrim
    rw [if_neg (by simp), Call.head_cons, Call.done_bind]
    dsimp only
    by_cases hclose : c = close_object
    · rw [if_pos hclose] at hstep ⊢
      rw [length_cons] at htrim
      refine agrees_of_step not_bare_opened hstep (agrees_done ⟨?_, .inl ?_, le_rfl, le_rfl⟩ Iff.rfl)
      all_goals rw [length_cons]; dsimp only; omega
    rw [if_neg hclose] at hstep ⊢
    refine agrees_of_step not_bare_opened hstep ?_
    have hshort : (c :: behind).length < (open_object :: next).length := Nat.lt_succ_of_le htrim
    exact object_loop_follows hvalue stack hshort hshort (Nat.lt_succ_self _) le_rfl

theorem match_array_follows (hvalue : Follows value (next.length + 1)) (stack : List Bracket) (counter : Counter) :
    Goes stack (Passed (open_array :: next) counter)
      (match_array value (open_array :: next) (open_array :: next).length counter)
      ⟨.array :: stack, .opened, next⟩ := by
  rw [match_array, if_neg (by simp), Call.head_cons, Call.done_bind]
  dsimp only
  rw [if_neg (not_not.mpr rfl), length_cons, Nat.cast_add_one, add_sub_cancel_right]
  by_cases hnil : next = []
  · subst hnil
    rw [if_pos (by simp)]
    have hpassed : Passed [open_array] counter ([open_array], { counter with arrays := counter.arrays + 1 }) :=
      ⟨le_rfl, .inr ⟨rfl, .inl rfl⟩, le_rfl, Nat.le_succ _⟩
    exact goes_dangling (.inl rfl) hpassed (safe_of_halts not_bare_opened rfl)
  have hpos := length_pos_of_ne_nil hnil
  have htrim := length_trim_le next
  rw [if_neg (by omega), skip_guarded_eq hnil, Call.done_bind]
  dsimp only
  cases hbehind : trim next with
  | nil =>
    rw [if_pos (by simp)]
    refine goes_exhausted ⟨Nat.zero_le _, .inl (Nat.succ_pos _), le_rfl, Nat.le_succ _⟩ ?_
    refine safe_of_halts not_bare_opened ?_
    rw [Place.step, hbehind]
  | cons c behind =>
    have hstep : Place.step ⟨.array :: stack, .opened, next⟩ =
        if c = close_array then some ⟨stack, .behind, behind⟩ else some ⟨.array :: stack, .value, c :: behind⟩ := by
      rw [Place.step, hbehind]
    rw [hbehind] at htrim
    rw [if_neg (by simp), Call.head_cons, Call.done_bind]
    dsimp only
    by_cases hclose : c = close_array
    · rw [if_pos hclose] at hstep ⊢
      rw [length_cons] at htrim
      refine agrees_of_step not_bare_opened hstep (agrees_done ⟨?_, .inl ?_, le_rfl, le_rfl⟩ Iff.rfl)
      all_goals rw [length_cons]; dsimp only; omega
    rw [if_neg hclose] at hstep ⊢
    refine agrees_of_step not_bare_opened hstep ?_
    have hshort : (c :: behind).length < (open_array :: next).length := Nat.lt_succ_of_le htrim
    exact array_loop_follows hvalue stack hshort hshort le_rfl (Nat.lt_succ_self _)

theorem match_token_follows {bound : Nat} (hvalue : Follows value bound) : Follows (match_token value) (bound + 1) := by
  intro stack s counter hs hbound
  have hpos := length_pos_of_ne_nil hs
  rw [match_token, if_neg (by omega)]
  by_cases hblank : trim s = []
  · rw [skip_unguarded_outside hblank]
    exact agrees_outside (not_safe (bare_of_trim hs hblank (.inl rfl)))
  have hright : ¬ Place.Bare ⟨stack, .value, s⟩ := not_bare_of_trim hblank
  have htrim := length_trim_le s
  rw [skip_unguarded_eq hblank, Call.done_bind]
  dsimp only
  rw [if_neg (by rwa [length_lt_one_iff])]
  cases hbehind : trim s with
  | nil => exact absurd hbehind hblank
  | cons c t =>
    rw [hbehind] at htrim
    have hmono {call : Scan (List Byte × Counter)} {p : Place} (h : Goes stack (Passed (c :: t) counter) call p) :
        Goes stack (Passed s counter) call p :=
      h.mono fun _ hpassed => (hbehind ▸ hpassed : Passed (trim s) counter _).of_trim
    -- a string or a literal
    have htoken {call : Scan (List Byte)} (htoken : Token (c :: t) call)
        (hstep : Place.step ⟨stack, .value, s⟩ =
          (match call with | some (.done rest) => some rest | _ => none).map (⟨stack, .behind, ·⟩)) :
        Goes stack (Passed s counter) (call >>= fun next => .done (next, counter)) ⟨stack, .value, s⟩ := by
      obtain hfail | ⟨rest, hdone, -, hrest⟩ := htoken
      · rw [hfail] at hstep ⊢
        exact agrees_stop _ (safe_of_halts hright hstep)
      rw [hdone] at hstep ⊢
      refine agrees_of_step hright hstep (agrees_done ?_ Iff.rfl)
      exact ⟨hrest.le.trans htrim, .inl (hrest.trans_le htrim), le_rfl, le_rfl⟩
    have hstep : Place.step ⟨stack, .value, s⟩ =
        if c = open_object then some ⟨.object :: stack, .opened, t⟩
        else if c = open_array then some ⟨.array :: stack, .opened, t⟩
        else if c = quote then (behind_string (c :: t)).map (⟨stack, .behind, ·⟩)
        else (behind_literal (c :: t)).map (⟨stack, .behind, ·⟩) := by
      rw [Place.step, hbehind]
    have hinner : Follows value (t.length + 1) := hvalue.mono (by rw [length_cons] at htrim; omega)
    rw [Call.head_cons, Call.done_bind]
    dsimp only
    by_cases hobject : c = open_object
    · subst hobject
      rw [if_pos rfl] at hstep ⊢
      exact agrees_of_step hright hstep (hmono (match_object_follows hinner stack counter))
    rw [if_neg hobject] at hstep ⊢
    by_cases harray : c = open_array
    · subst harray
      rw [if_pos rfl] at hstep ⊢
      exact agrees_of_step hright hstep (hmono (match_array_follows hinner stack counter))
    rw [if_neg harray] at hstep ⊢
    by_cases hquote : c = quote
    · rw [if_pos hquote] at hstep ⊢
      exact htoken (match_string_token (c :: t)) hstep
    rw [if_neg hquote] at hstep ⊢
    by_cases hliteral : c = 110 ∨ c = 116 ∨ c = 102
    · rw [if_pos hliteral]
      exact htoken (match_literal_token (c :: t)) hstep
    rw [if_neg hliteral]
    have hnone : behind_literal (c :: t) = none := by
      simp only [not_or] at hliteral
      rw [behind_literal, match_literal, if_neg (by simp), Call.head_cons, Call.done_bind]
      dsimp only
      rw [if_neg hliteral.1, if_neg hliteral.2.1, if_neg hliteral.2.2]
      rfl
    rw [hnone] at hstep
    split
    · exact agrees_stop _ (safe_of_halts hright hstep)
    · exact agrees_stop _ (safe_of_halts hright hstep)

end

theorem match_value_follows (depth : Nat) : Follows (match_value depth) depth := by
  induction depth with
  | zero => exact fun _ _ _ _ hlt => absurd hlt (Nat.not_lt_zero _)
  | succ depth ih => exact match_token_follows ih

/-- The call goes wrong when the machine does. -/
def Ends {α : Type} (call : Scan α) (p : Place) : Prop :=
  Agrees Place.step Place.Bare (fun _ => True) (fun _ => ⟨[], .behind, []⟩) call p

theorem match_loop_ends {start ptr : List Byte} {rounds : Nat} (hrounds : ptr.length < rounds)
    (hle : ptr.length ≤ start.length) (counter : Counter) (last : Option (List Byte)) :
    Ends (match_loop start rounds ptr ptr.length counter last) ⟨[], .value, ptr⟩ := by
  induction rounds generalizing ptr counter last with
  | zero => cases hrounds
  | succ rounds ih =>
    have hend : SafeAt ⟨[], .behind, []⟩ := safe_behind_nil []
    by_cases hnil : ptr = []
    · subst hnil
      rw [match_loop, if_pos (by simp)]
      exact agrees_done trivial (iff_of_true (safe_of_halts (not_bare_nil _) rfl) hend)
    rw [match_loop, if_neg (by have := length_pos_of_ne_nil hnil; omega)]
    have hvalue := match_value_follows (start.length + 1)
    refine agrees_bind (hvalue [] ptr counter hnil (Nat.lt_succ_of_le hle)) fun result hresult => ?_
    obtain ⟨r, counter'⟩ := result
    obtain ⟨hshorter, hmoved, -, -⟩ := hresult
    dsimp only at hshorter hmoved ⊢
    by_cases hsame : r = ptr
    · subst hsame
      rw [if_pos rfl]
      have hdangling : Dangling r := (hmoved.resolve_left (lt_irrefl _)).2
      exact agrees_done trivial (iff_of_true (safe_behind_dangling [] hdangling) hend)
    have hless : r.length < ptr.length := hmoved.resolve_right fun h => hsame h.1
    have htrim := length_trim_le r
    rw [if_neg hsame, left_eq, clear_whitespace_eq, Call.done_bind]
    dsimp only
    have hloop := @ih (trim r) (by omega) (by omega) counter' (if last.isNone ∧ r ≠ ptr then some r else last)
    cases hbehind : trim r with
    | nil =>
      rw [hbehind] at hloop
      refine (agrees_iff_of_safe (iff_of_true ?_ (safe_of_halts (not_bare_nil _) rfl))).mpr hloop
      refine safe_of_halts not_bare_behind_all ?_
      rw [Place.step, hbehind]
    | cons c t =>
      rw [hbehind] at hloop
      refine agrees_of_step not_bare_behind_all ?_ hloop
      rw [Place.step, hbehind]

theorem json_match_settled_iff (start : List Byte) (incomplete : Bool) :
    (json_match start incomplete).Settled ↔ SafeAt ⟨[], .value, start⟩ := by
  by_cases hnil : start = []
  · subst hnil
    exact iff_of_true ⟨_, rfl, nofun⟩ (safe_of_halts (not_bare_nil _) rfl)
  have hpos := length_pos_of_ne_nil hnil
  have hends : Ends (json_match start incomplete) ⟨[], .value, start⟩ := by
    rw [json_match, if_neg (by omega)]
    refine agrees_bind (match_loop_ends (Nat.lt_succ_self _) le_rfl {} none) fun matched _ => ?_
    split
    · exact agrees_done trivial Iff.rfl
    split
    · exact agrees_done trivial Iff.rfl
    split
    · exact agrees_done trivial Iff.rfl
    · exact agrees_done trivial Iff.rfl
  exact hends.settled_iff fun _ _ => safe_behind_nil []

end openvocs.json.scan
