import Openvocs.Value.Parse

open List Option

namespace openvocs.value

open cstring

section

variable {inner other : Mode → List Byte → Option (Outcome Value)}

theorem chain_mono {α β : Type} {first first' : Option (Outcome α)} {next next' : α → List Byte → Option (Outcome β)}
    (hfirst : ∀ o, first = some o → first' = some o) (hnext : ∀ v rest o, next v rest = some o → next' v rest = some o)
    {o : Outcome β} (h : chain first next = some o) : chain first' next' = some o := by
  cases hcase : first with
  | none =>
    rw [hcase] at h
    simp [chain] at h
  | some result =>
    rw [hcase] at h
    rw [hfirst result hcase]
    cases result with
    | found v rest => exact hnext v rest o h
    | premature => exact h
    | error => exact h

theorem chain_found {α β : Type} {first : Option (Outcome α)} {next : α → List Byte → Option (Outcome β)} {v : β}
    {rest : List Byte} (h : chain first next = some (.found v rest)) :
    ∃ a between, first = some (.found a between) ∧ next a between = some (.found v rest) := by
  cases first with
  | none => simp [chain] at h
  | some outcome =>
    cases outcome with
    | found a between => exact ⟨a, between, rfl, h⟩
    | premature => simp [chain] at h
    | error => simp [chain] at h

theorem chain_ne_none {α β : Type} {first : Option (Outcome α)} {next : α → List Byte → Option (Outcome β)}
    (hfirst : first ≠ none) (hnext : ∀ a rest, first = some (.found a rest) → next a rest ≠ none) :
    chain first next ≠ none := by
  cases first with
  | none => exact absurd rfl hfirst
  | some outcome =>
    cases outcome with
    | found a rest => exact hnext a rest rfl
    | premature => simp [chain]
    | error => simp [chain]

variable {o : Outcome Value} {s : List Byte}

section

variable (hinner : ∀ m s o, inner m s = some o → other m s = some o)

include hinner

theorem call_mono {func : ParseFunc} (h : call inner s func = some o) : call other s func = some o := by
  have hloop : ∀ m : Mode, (if s.tail = [] then some .premature else inner m s.tail) = some o →
      (if s.tail = [] then some .premature else other m s.tail) = some o := by
    intro m hm
    by_cases hnil : s.tail = []
    · rw [if_pos hnil] at hm ⊢
      exact hm
    rw [if_neg hnil] at hm ⊢
    exact hinner _ _ _ hm
  cases func with
  | list => exact hloop _ h
  | object => exact hloop _ h
  | _ => exact h

theorem parse_next_token_mono (h : parse_next_token inner s = some o) : parse_next_token other s = some o := by
  rw [parse_next_token] at h ⊢
  cases hskip : skip_chars s with
  | nil =>
    rw [hskip] at h
    exact h
  | cons c rest =>
    rw [hskip] at h
    simp only at h ⊢
    cases hfunc : get_parse_func_for c with
    | none =>
      rw [hfunc] at h
      exact h
    | some func =>
      rw [hfunc] at h
      exact call_mono hinner h

theorem parse_list_mono {items : List Value} (h : parse_list inner items s = some o) :
    parse_list other items s = some o := by
  rw [parse_list] at h ⊢
  by_cases hnil : s = []
  · rw [if_pos hnil] at h ⊢
    exact h
  rw [if_neg hnil] at h ⊢
  cases hhead : loop_head close_list (!items.isEmpty) s with
  | entry s =>
    rw [hhead] at h
    exact chain_mono (hinner _ _) (fun _ _ => hinner _ _) h
  | _ =>
    rw [hhead] at h
    exact h

theorem parse_kv_pair_mono
    {next next' : List Byte → Value → List Byte → Option (Outcome Value)}
    (hnext : ∀ key v rest o, next key v rest = some o → next' key v rest = some o) (h : parse_kv_pair inner s next = some o) : parse_kv_pair other s next' = some o := by
  rw [parse_kv_pair] at h ⊢
  by_cases hshort : s.length < 2
  · rw [if_pos hshort] at h ⊢
    exact h
  rw [if_neg hshort] at h ⊢
  refine chain_mono (hinner _ _) ?_ h
  intro key rest o hkey
  cases key with
  | string key =>
    simp only at hkey ⊢
    cases hskip : skip_chars rest with
    | nil =>
      rw [hskip] at hkey
      exact hkey
    | cons c rest =>
      rw [hskip] at hkey
      simp only at hkey ⊢
      by_cases hcolon : c ≠ colon
      · rw [if_pos hcolon] at hkey ⊢
        exact hkey
      rw [if_neg hcolon] at hkey ⊢
      exact chain_mono (hinner _ _) (hnext key) hkey
  | _ => exact hkey

theorem parse_object_mono
    {pairs : List (List Byte × Value)}
    (h : parse_object inner pairs s = some o) : parse_object other pairs s = some o := by
  rw [parse_object] at h ⊢
  by_cases hnil : s = []
  · rw [if_pos hnil] at h ⊢
    exact h
  rw [if_neg hnil] at h ⊢
  cases hhead : loop_head close_object (!pairs.isEmpty) s with
  | entry s =>
    rw [hhead] at h
    refine parse_kv_pair_mono hinner ?_ h
    intro key v rest o hnext
    by_cases hkey : key ∈ pairs.map Prod.fst
    · rw [if_pos hkey] at hnext ⊢
      exact hnext
    rw [if_neg hkey] at hnext ⊢
    exact hinner _ _ _ hnext
  | _ =>
    rw [hhead] at h
    exact h

end

end

variable {depth : Nat} {m : Mode} {o : Outcome Value}

variable {s : List Byte}

theorem parse_succ (h : parse depth m s = some o) : parse (depth + 1) m s = some o := by
  induction depth generalizing m s o with
  | zero => simp [parse] at h
  | succ depth ih =>
    cases m with
    | token => exact parse_next_token_mono (fun _ _ _ => ih) h
    | list items => exact parse_list_mono (fun _ _ _ => ih) h
    | object pairs => exact parse_object_mono (fun _ _ _ => ih) h

theorem parse_mono {depth more : Nat} (hle : depth ≤ more)
    (h : parse depth m s = some o) : parse more m s = some o := by
  induction more with
  | zero =>
    rw [Nat.le_zero.mp hle] at h
    exact h
  | succ more ih =>
    by_cases heq : depth = more + 1
    · exact heq ▸ h
    · exact parse_succ (ih (by omega))

theorem skip_chars_suffix (s : List Byte) : skip_chars s <:+ s := dropWhile_suffix _

theorem skip_chars_length (s : List Byte) : (skip_chars s).length ≤ s.length := (skip_chars_suffix s).length_le

variable {p : List Byte}

theorem skip_chars_append (h : skip_chars p ≠ []) (q : List Byte) :
    skip_chars (p ++ q) = skip_chars p ++ q := by
  rw [skip_chars, skip_chars, dropWhile_append]
  rw [skip_chars] at h
  simp [h]

theorem skip_chars_append_nil (h : skip_chars p = []) (q : List Byte) :
    skip_chars (p ++ q) = skip_chars q := by
  rw [skip_chars, dropWhile_append]
  rw [skip_chars] at h
  simp [h, skip_chars]

variable {c : Byte}

variable {q : List Byte}

theorem skip_chars_cut {b content : List Byte} (h : skip_chars (b ++ q) = c :: content)
    (hle : q.length ≤ content.length) : ∃ b', skip_chars b = c :: b' ∧ content = b' ++ q := by
  cases hskip : skip_chars b with
  | nil =>
    have hlength := skip_chars_length q
    rw [skip_chars_append_nil hskip] at h
    rw [h, length_cons] at hlength
    omega
  | cons c' b' =>
    rw [skip_chars_append (by rw [hskip]; simp), hskip, List.cons_append, List.cons.injEq] at h
    exact ⟨b', by rw [h.1], h.2.symm⟩

variable {s rest : List Byte} {v : Value}

theorem token_found (h : parse (depth + 1) .token s = some (.found v rest)) :
    ∃ c tail func, skip_chars s = c :: tail ∧ get_parse_func_for c = some func ∧
      call (parse depth) (c :: tail) func = some (.found v rest) := by
  rw [parse, parse_next_token] at h
  cases hskip : skip_chars s with
  | nil =>
    rw [hskip] at h
    simp at h
  | cons c tail =>
    rw [hskip] at h
    simp only at h
    cases hfunc : get_parse_func_for c with
    | none =>
      rw [hfunc] at h
      simp at h
    | some func =>
      rw [hfunc] at h
      exact ⟨c, tail, func, rfl, hfunc, h⟩

variable {func : ParseFunc}

theorem token_of_skip {tail : List Byte} (hskip : skip_chars s = c :: tail)
    (hfunc : get_parse_func_for c = some func) :
    parse (depth + 1) .token s = call (parse depth) (c :: tail) func := by
  rw [parse, parse_next_token, hskip]
  simp only [hfunc]

theorem token_of_skip_nil (hskip : skip_chars s = []) :
    parse (depth + 1) .token s = some .premature := by
  rw [parse, parse_next_token, hskip]

variable {items : List Value}

theorem list_found (h : parse (depth + 1) (.list items) s = some (.found v rest)) :
    (s = [] ∧ v = .list items ∧ rest = []) ∨
      (s ≠ [] ∧ loop_head close_list (!items.isEmpty) s = .closed rest ∧ v = .list items) ∨
      ∃ entry item behind, s ≠ [] ∧ loop_head close_list (!items.isEmpty) s = .entry entry ∧
        parse depth .token entry = some (.found item behind) ∧
        parse depth (.list (items ++ [item])) behind = some (.found v rest) := by
  rw [parse, parse_list] at h
  by_cases hnil : s = []
  · rw [if_pos hnil, some.injEq, Outcome.found.injEq] at h
    exact .inl ⟨hnil, h.1.symm, h.2.symm⟩
  rw [if_neg hnil] at h
  cases hhead : loop_head close_list (!items.isEmpty) s with
  | premature =>
    rw [hhead] at h
    simp at h
  | error =>
    rw [hhead] at h
    simp at h
  | closed behind =>
    rw [hhead] at h
    simp only [some.injEq, Outcome.found.injEq] at h
    exact .inr (.inl ⟨hnil, by rw [h.2], h.1.symm⟩)
  | entry entry =>
    rw [hhead] at h
    obtain ⟨item, behind, hitem, hloop⟩ := chain_found h
    exact .inr (.inr ⟨entry, item, behind, hnil, rfl, hitem, hloop⟩)

variable {pairs : List (List Byte × Value)}

theorem object_found (h : parse (depth + 1) (.object pairs) s = some (.found v rest)) : s ≠ [] ∧
      ((loop_head close_object (!pairs.isEmpty) s = .closed rest ∧ v = .object pairs) ∨
      ∃ entry key between content item behind,
        loop_head close_object (!pairs.isEmpty) s = .entry entry ∧ 2 ≤ entry.length ∧
        parse depth .token entry = some (.found (.string key) between) ∧ skip_chars between = colon :: content ∧
        parse depth .token content = some (.found item behind) ∧ key ∉ pairs.map Prod.fst ∧
        parse depth (.object (pairs ++ [(key, item)])) behind = some (.found v rest)) := by
  rw [parse, parse_object] at h
  by_cases hnil : s = []
  · rw [if_pos hnil] at h
    simp at h
  rw [if_neg hnil] at h
  refine ⟨hnil, ?_⟩
  cases hhead : loop_head close_object (!pairs.isEmpty) s with
  | premature =>
    rw [hhead] at h
    simp at h
  | error =>
    rw [hhead] at h
    simp at h
  | closed behind =>
    rw [hhead] at h
    simp only [some.injEq, Outcome.found.injEq] at h
    exact .inl ⟨by rw [h.2], h.1.symm⟩
  | entry entry =>
    rw [hhead] at h
    simp only [parse_kv_pair] at h
    by_cases hshort : entry.length < 2
    · rw [if_pos hshort] at h
      simp at h
    rw [if_neg hshort] at h
    obtain ⟨key, between, hkey, hpair⟩ := chain_found h
    cases key with
    | string key =>
      simp only at hpair
      cases hskip : skip_chars between with
      | nil =>
        rw [hskip] at hpair
        simp at hpair
      | cons c content =>
        rw [hskip] at hpair
        simp only at hpair
        by_cases hcolon : c ≠ colon
        · rw [if_pos hcolon] at hpair
          simp at hpair
        rw [if_neg hcolon] at hpair
        obtain ⟨item, behind, hitem, hloop⟩ := chain_found hpair
        by_cases hmem : key ∈ pairs.map Prod.fst
        · rw [if_pos hmem] at hloop
          simp at hloop
        rw [if_neg hmem] at hloop
        rw [not_not] at hcolon
        rw [hcolon] at hskip
        exact .inr ⟨entry, key, between, content, item, behind, rfl, by omega, hkey, hskip, hitem, hmem, hloop⟩
    | _ => simp at hpair

variable {require_comma : Bool}

theorem loop_head_suffix {close : Byte} :
    (∀ rest, loop_head close require_comma s = .closed rest → rest <:+ s ∧ rest.length < s.length) ∧
      ∀ entry, loop_head close require_comma s = .entry entry → entry <:+ s ∧ entry ≠ [] := by
  have hskip := skip_chars_suffix s
  rw [loop_head]
  cases hcase : skip_chars s with
  | nil => simp
  | cons c tail =>
    rw [hcase] at hskip
    have htail : tail <:+ s := (suffix_cons c tail).trans hskip
    have hlength := hskip.length_le
    rw [length_cons] at hlength
    simp only
    refine ⟨fun rest h => ?_, fun entry h => ?_⟩
    · split_ifs at h
      simp only [Head.closed.injEq] at h
      rw [← h]
      exact ⟨htail, by omega⟩
    split_ifs at h with hclose hrequire hcomma hnil
    · simp only [Head.entry.injEq] at h
      rw [← h]
      exact ⟨htail, hnil⟩
    simp only [Head.entry.injEq] at h
    rw [← h]
    exact ⟨hskip, by simp⟩

variable {rest : List Byte}

theorem string_rest_found {escaped : Bool} {copied : List Byte}
    (h : string_rest escaped copied s = .found v rest) : rest <:+ s ∧ rest.length < s.length := by
  induction s generalizing escaped copied with
  | nil => cases escaped <;> simp [string_rest] at h
  | cons c s ih =>
    have hstep : ∀ escaped copied, string_rest escaped copied s = .found v rest →
        rest <:+ c :: s ∧ rest.length < (c :: s).length := by
      intro escaped copied hrest
      obtain ⟨hsuffix, hlength⟩ := ih hrest
      exact ⟨hsuffix.trans (suffix_cons c s), by rw [length_cons]; omega⟩
    cases escaped with
    | true =>
      rw [string_rest] at h
      split at h
      · exact hstep _ _ h
      · simp at h
    | false =>
      rw [string_rest] at h
      split_ifs at h
      · exact hstep _ _ h
      · simp only [Outcome.found.injEq] at h
        rw [← h.2]
        exact ⟨suffix_cons c s, by rw [length_cons]; omega⟩
      · exact hstep _ _ h

theorem parse_word_found {word : List Byte} {v w : Value} (h : parse_word word v s = .found w rest) :
    s = word ++ rest ∧ w = v := by
  rw [parse_word] at h
  split at h
  · rename_i htake
    simp only [Outcome.found.injEq] at h
    rw [← h.2, ← h.1]
    have hsplit := take_append_drop word.length s
    rw [htake] at hsplit
    exact ⟨hsplit.symm, rfl⟩
  · simp at h

/-- The functions for the fixed words. -/
def word_of : ParseFunc → Option (List Byte × Value)
  | .null => some ([110, 117, 108, 108], .null)
  | .true_ => some ([116, 114, 117, 101], .true_)
  | .false_ => some ([102, 97, 108, 115, 101], .false_)
  | _ => none

theorem call_word {inner : Mode → List Byte → Option (Outcome Value)} {word : List Byte}
    (h : word_of func = some (word, v)) (s : List Byte) : call inner s func = some (parse_word word v s) := by
  cases func <;> simp only [word_of, some.injEq, Prod.mk.injEq, reduceCtorEq] at h <;>
  · rw [← h.1, ← h.2]
    rfl

theorem word_ne_nil {word : List Byte} (h : word_of func = some (word, v)) : word ≠ [] := by
  cases func <;> simp only [word_of, some.injEq, Prod.mk.injEq, reduceCtorEq] at h <;>
  · rw [← h.1]
    simp

theorem parse_string_found (h : parse_string s = .found v rest) :
    2 ≤ s.length ∧ string_rest false [] s.tail = .found v rest := by
  rw [parse_string] at h
  split at h
  · simp at h
  · exact ⟨by omega, h⟩

theorem parse_number_found (h : parse_number s = .found v rest) :
    2 ≤ s.length ∧ v = .number (s.take (cstring.strtod s)) ∧ rest = s.drop (cstring.strtod s) := by
  rw [parse_number] at h
  split at h
  · simp at h
  simp only [Outcome.found.injEq] at h
  exact ⟨by omega, h.1.symm, h.2.symm⟩

theorem parse_suffix (h : parse depth m s = some (.found v rest)) : rest <:+ s := by
  induction depth generalizing m s v rest with
  | zero => simp [parse] at h
  | succ depth ih =>
    cases m with
    | token =>
      obtain ⟨c, tail, func, hskip, -, hcall⟩ := token_found h
      have hwhole : c :: tail <:+ s := hskip ▸ skip_chars_suffix s
      refine List.IsSuffix.trans ?_ hwhole
      have hloop : ∀ m : Mode, (if (c :: tail).tail = [] then some .premature else parse depth m (c :: tail).tail) =
          some (.found v rest) → rest <:+ c :: tail := by
        intro m hm
        split at hm
        · simp at hm
        · exact (ih hm).trans (suffix_cons c tail)
      cases hword : word_of func with
      | some word =>
        rw [call_word hword, some.injEq] at hcall
        exact ⟨word.1, (parse_word_found hcall).1.symm⟩
      | none =>
        cases func with
        | string =>
          have hstring := (parse_string_found (some.inj hcall)).2
          exact (string_rest_found hstring).1.trans (suffix_cons c tail)
        | number =>
          rw [(parse_number_found (some.inj hcall)).2.2]
          exact drop_suffix _ _
        | list => exact hloop _ hcall
        | object => exact hloop _ hcall
        | _ => simp [word_of] at hword
    | list items =>
      obtain ⟨rfl, -, rfl⟩ | ⟨-, hclosed, -⟩ | ⟨entry, item, behind, -, hentry, hitem, hloop⟩ := list_found h
      · exact suffix_refl _
      · exact (loop_head_suffix.1 rest hclosed).1
      · exact (ih hloop).trans ((ih hitem).trans (loop_head_suffix.2 entry hentry).1)
    | object pairs =>
      obtain ⟨-, ⟨hclosed, -⟩ | ⟨entry, key, between, content, item, behind, hentry, -, hkey, hskip, hitem, -, hloop⟩⟩ :=
        object_found h
      · exact (loop_head_suffix.1 rest hclosed).1
      have hcontent : content <:+ between :=
        (suffix_cons colon content).trans (hskip ▸ skip_chars_suffix between)
      exact (ih hloop).trans ((ih hitem).trans (hcontent.trans ((ih hkey).trans
        (loop_head_suffix.2 entry hentry).1)))

theorem loop_shorter (hm : m ≠ .token)
    (h : parse depth m s = some (.found v rest)) (hs : s ≠ []) : rest.length < s.length := by
  induction depth generalizing m s v rest with
  | zero => simp [parse] at h
  | succ depth ih =>
    have hpos : 0 < s.length := length_pos_iff.mpr hs
    -- the rest of the loop gets shorter, unless there is nothing left
    have hrest : ∀ (m : Mode) (behind : List Byte), m ≠ .token → behind <:+ s →
        parse depth m behind = some (.found v rest) → rest.length < s.length := by
      intro m behind hmode hbehind hloop
      have hle := hbehind.length_le
      by_cases hnil : behind = []
      · have hnone := (parse_suffix hloop).length_le
        rw [hnil, length_nil] at hnone
        omega
      have hless := ih hmode hloop hnil
      omega
    cases m with
    | token => exact absurd rfl hm
    | list items =>
      obtain ⟨hnil, -, -⟩ | ⟨-, hclosed, -⟩ | ⟨entry, item, behind, -, hentry, hitem, hloop⟩ := list_found h
      · exact absurd hnil hs
      · exact (loop_head_suffix.1 rest hclosed).2
      · exact hrest _ behind (by simp) ((parse_suffix hitem).trans (loop_head_suffix.2 entry hentry).1) hloop
    | object pairs =>
      obtain ⟨-, ⟨hclosed, -⟩ | ⟨entry, key, between, content, item, behind, hentry, -, hkey, hskip, hitem, -, hloop⟩⟩ :=
        object_found h
      · exact (loop_head_suffix.1 rest hclosed).2
      have hcontent : content <:+ between :=
        (suffix_cons colon content).trans (hskip ▸ skip_chars_suffix between)
      exact hrest _ behind (by simp) ((parse_suffix hitem).trans (hcontent.trans ((parse_suffix hkey).trans
        (loop_head_suffix.2 entry hentry).1))) hloop

theorem begins_number_of_func : ∀ {c : Byte}, get_parse_func_for c = some .number → begins_number c = true := by
  decide +kernel

theorem token_shorter (h : parse depth .token s = some (.found v rest)) :
    rest.length < s.length ∨ (v = .number [] ∧ ∃ c tail, rest = c :: tail ∧ begins_number c = true) := by
  cases depth with
  | zero => simp [parse] at h
  | succ depth =>
    obtain ⟨c, tail, func, hskip, hfunc, hcall⟩ := token_found h
    have hwhole := skip_chars_length s
    rw [hskip, length_cons] at hwhole
    have hloop : ∀ m : Mode, m ≠ .token → (if (c :: tail).tail = [] then some .premature else
        parse depth m (c :: tail).tail) = some (.found v rest) → rest.length < s.length := by
      intro m hmode hm
      split at hm
      · simp at hm
      rename_i hne
      have hless := loop_shorter hmode hm hne
      rw [tail_cons] at hless
      omega
    cases hword : word_of func with
    | some word =>
      rw [call_word hword, some.injEq] at hcall
      have hsplit := congrArg List.length (parse_word_found hcall).1
      have hpos := length_pos_iff.mpr (word_ne_nil hword)
      rw [length_append, length_cons] at hsplit
      exact .inl (by omega)
    | none =>
      cases func with
      | string =>
        have hless := (string_rest_found (parse_string_found (some.inj hcall)).2).2
        rw [tail_cons] at hless
        exact .inl (by omega)
      | number =>
        obtain ⟨-, hv, hrest⟩ := parse_number_found (some.inj hcall)
        by_cases hzero : cstring.strtod (c :: tail) = 0
        · rw [hzero] at hv hrest
          exact .inr ⟨hv, c, tail, hrest, begins_number_of_func hfunc⟩
        rw [hrest, length_drop, length_cons]
        exact .inl (by omega)
      | list => exact .inl (hloop _ (by simp) hcall)
      | object => exact .inl (hloop _ (by simp) hcall)
      | _ => simp [word_of] at hword

theorem begins_number_char : ∀ c : Byte, begins_number c = true → is_numeral_char c = true := by decide +kernel

theorem numeral_char_between : ∀ c : Byte, is_numeral_char c = true →
    is_separator c = false ∧ c ≠ comma ∧ c ≠ close_list ∧ c ≠ close_object := by decide +kernel

theorem loop_head_numeral {close : Byte} {tail : List Byte} (hclose : close = close_list ∨ close = close_object)
    (hc : is_numeral_char c = true) : loop_head close true (c :: tail) = .error := by
  obtain ⟨hseparator, hcomma, hlist, hobject⟩ := numeral_char_between c hc
  have hne : c ≠ close := by
    obtain rfl | rfl := hclose
    · exact hlist
    · exact hobject
  have hskip : skip_chars (c :: tail) = c :: tail := by rw [skip_chars, dropWhile_cons_of_neg (by simp [hseparator])]
  rw [loop_head, hskip]
  simp [hne, hcomma]

theorem list_numeral {item : Value} {tail : List Byte} (hc : is_numeral_char c = true) :
    parse (depth + 1) (.list (items ++ [item])) (c :: tail) = some .error := by
  have hrequire : (!(items ++ [item]).isEmpty) = true := by simp
  rw [parse, parse_list, if_neg (by simp), hrequire, loop_head_numeral (.inl rfl) hc]

theorem object_numeral {pair : List Byte × Value} {tail : List Byte} (hc : is_numeral_char c = true) :
    parse (depth + 1) (.object (pairs ++ [pair])) (c :: tail) = some .error := by
  have hrequire : (!(pairs ++ [pair]).isEmpty) = true := by simp
  rw [parse, parse_object, if_neg (by simp), hrequire, loop_head_numeral (.inr rfl) hc]

theorem parse_defined (depth : Nat) :
    (∀ s : List Byte, 2 * s.length + 1 ≤ depth → parse depth .token s ≠ none) ∧
      ∀ (m : Mode) (s : List Byte), m ≠ .token → 2 * s.length + 2 ≤ depth → parse depth m s ≠ none := by
  induction depth with
  | zero => exact ⟨fun s h => by omega, fun m s _ h => by omega⟩
  | succ depth ih =>
    obtain ⟨htoken, hloop⟩ := ih
    refine ⟨fun s h => ?_, fun m s hmode h => ?_⟩
    · rw [parse, parse_next_token]
      cases hskip : skip_chars s with
      | nil => simp
      | cons c tail =>
        have hwhole := skip_chars_length s
        rw [hskip, length_cons] at hwhole
        have hcall : ∀ m : Mode, m ≠ .token → (if (c :: tail).tail = [] then some .premature else
            parse depth m (c :: tail).tail) ≠ none := by
          intro m hmode
          split
          · simp
          · exact hloop m tail hmode (by omega)
        simp only
        cases get_parse_func_for c with
        | none => simp
        | some func =>
          cases func with
          | list => exact hcall _ (by simp)
          | object => exact hcall _ (by simp)
          | _ => simp [call]
    cases m with
    | token => exact absurd rfl hmode
    | list items =>
      rw [parse, parse_list]
      split
      · simp
      split
      · simp
      · simp
      · simp
      rename_i entry hentry
      have hlength := (loop_head_suffix.2 entry hentry).1.length_le
      refine chain_ne_none (htoken entry (by omega)) fun item behind hitem => ?_
      obtain hless | ⟨-, c, tail, rfl, hc⟩ := token_shorter hitem
      · exact hloop _ behind (by simp) (by omega)
      obtain ⟨depth, rfl⟩ := Nat.exists_eq_succ_of_ne_zero (n := depth) (by omega)
      rw [list_numeral (begins_number_char c hc)]
      simp
    | object pairs =>
      rw [parse, parse_object]
      split
      · simp
      split
      · simp
      · simp
      · simp
      rename_i entry hentry
      have hlength := (loop_head_suffix.2 entry hentry).1.length_le
      rw [parse_kv_pair]
      split
      · simp
      refine chain_ne_none (htoken entry (by omega)) fun key between hkey => ?_
      have hbetween := (parse_suffix hkey).length_le
      cases key with
      | string key =>
        simp only
        cases hskip : skip_chars between with
        | nil => simp
        | cons c content =>
          have hcontent := skip_chars_length between
          rw [hskip, length_cons] at hcontent
          simp only
          split
          · simp
          refine chain_ne_none (htoken content (by omega)) fun item behind hitem => ?_
          have hbehind := (parse_suffix hitem).length_le
          split
          · simp
          · exact hloop _ behind (by simp) (by omega)
      | _ => simp

theorem ov_value_parse_eq (h : parse depth .token s = some o) :
    ov_value_parse s = some o := by
  have hdefined := (parse_defined (2 * s.length + 2)).1 s (by omega)
  obtain ⟨outcome, houtcome⟩ := ne_none_iff_exists'.mp hdefined
  have hmore := parse_mono (Nat.le_max_left depth (2 * s.length + 2)) h
  have hmore' := parse_mono (Nat.le_max_right depth (2 * s.length + 2)) houtcome
  rw [hmore] at hmore'
  rw [ov_value_parse, houtcome, hmore']

theorem ov_value_parse_defined (s : List Byte) : ∃ o, ov_value_parse s = some o :=
  ne_none_iff_exists'.mp ((parse_defined (2 * s.length + 2)).1 s (by omega))

/-- The same with more octets at the end. -/
def Head.append (q : List Byte) : Head → Head
  | .closed rest => .closed (rest ++ q)
  | .entry s => .entry (s ++ q)
  | .premature => .premature
  | .error => .error

theorem loop_head_append {close : Byte} (h : loop_head close require_comma p ≠ .premature) (q : List Byte) :
    loop_head close require_comma (p ++ q) = (loop_head close require_comma p).append q := by
  rw [loop_head] at h
  cases hskip : skip_chars p with
  | nil =>
    rw [hskip] at h
    exact absurd rfl h
  | cons c tail =>
    rw [hskip] at h
    have hwhole : skip_chars (p ++ q) = c :: (tail ++ q) := by
      rw [skip_chars_append (by rw [hskip]; simp), hskip, List.cons_append]
    simp only at h
    rw [loop_head, loop_head, hwhole, hskip]
    simp only
    by_cases hclose : c = close
    · rw [if_pos hclose, if_pos hclose]
      rfl
    rw [if_neg hclose, if_neg hclose]
    rw [if_neg hclose] at h
    cases require_comma with
    | false => rfl
    | true =>
      simp only [if_true] at h ⊢
      by_cases hcomma : c ≠ comma
      · rw [if_pos hcomma, if_pos hcomma]
        rfl
      rw [if_neg hcomma] at h
      have htail : tail ≠ [] := by
        intro hnil
        rw [if_pos hnil] at h
        exact h rfl
      rw [if_neg hcomma, if_neg hcomma, if_neg htail, if_neg (by simp [htail])]
      rfl

theorem loop_head_premature {close : Byte}
    (h : loop_head close require_comma p = .premature) (q : List Byte) :
    (∀ rest, loop_head close require_comma (p ++ q) = .closed rest → rest.length < q.length) ∧
      ∀ entry, loop_head close require_comma (p ++ q) = .entry entry → entry.length ≤ q.length := by
  rw [loop_head] at h
  cases hskip : skip_chars p with
  | nil =>
    have hwhole : loop_head close require_comma (p ++ q) = loop_head close require_comma q := by
      rw [loop_head, loop_head, skip_chars_append_nil hskip]
    rw [hwhole]
    exact ⟨fun rest hrest => (loop_head_suffix.1 rest hrest).2,
      fun entry hentry => (loop_head_suffix.2 entry hentry).1.length_le⟩
  | cons c tail =>
    rw [hskip] at h
    simp only at h
    split_ifs at h with hclose hrequire hcomma hnil
    have hwhole : skip_chars (p ++ q) = c :: q := by
      rw [skip_chars_append (by rw [hskip]; simp), hskip, hnil]
      rfl
    rw [loop_head, hwhole]
    simp only [hclose, hrequire, hcomma, if_false, if_true]
    refine ⟨fun rest hrest => ?_, fun entry hentry => ?_⟩
    · split_ifs at hrest
    split_ifs at hentry
    simp only [Head.entry.injEq] at hentry
    rw [hentry]

variable {p : List Byte}

theorem string_rest_cut {escaped : Bool} {copied : List Byte}
    (h : string_rest escaped copied (p ++ q) = .found v rest) :
    (q.length ≤ rest.length → ∃ r, rest = r ++ q ∧ string_rest escaped copied p = .found v r) ∧
      (rest.length < q.length → string_rest escaped copied p = .premature) := by
  induction p generalizing escaped copied with
  | nil =>
    rw [nil_append] at h
    have hless := (string_rest_found h).2
    exact ⟨fun hle => absurd hless (by omega), fun _ => by cases escaped <;> rfl⟩
  | cons c p ih =>
    rw [List.cons_append] at h
    cases escaped with
    | true =>
      rw [string_rest] at h ⊢
      split_ifs at h ⊢
      exact ih h
    | false =>
      rw [string_rest] at h ⊢
      split_ifs at h ⊢
      · exact ih h
      · simp only [Outcome.found.injEq] at h ⊢
        refine ⟨fun _ => ⟨p, h.2.symm, h.1, rfl⟩, fun hless => ?_⟩
        rw [← h.2, length_append] at hless
        omega
      · exact ih h

theorem eq_of_suffix (h : rest <:+ p ++ q) (hle : q.length ≤ rest.length) :
    ∃ r, rest = r ++ q ∧ r <:+ p := by
  obtain ⟨t, ht⟩ := h
  obtain ⟨r, hp, hrest⟩ | ⟨r, hrest, hq⟩ := append_eq_append_iff.mp ht
  · exact ⟨r, hrest, t, hp.symm⟩
  have hlength := congrArg List.length hq
  rw [length_append] at hlength
  have hnil : r = [] := length_eq_zero_iff.mp (by omega)
  rw [hnil, nil_append] at hq
  exact ⟨[], by rw [hq, nil_append], nil_suffix⟩

theorem loop_rest_le (hm : m ≠ .token) (hq : q ≠ [])
    (h : parse depth m s = some (.found v rest)) (hle : s.length ≤ q.length) : rest.length < q.length := by
  have hpos : 0 < q.length := length_pos_iff.mpr hq
  by_cases hnil : s = []
  · have hrest := (parse_suffix h).length_le
    rw [hnil, length_nil] at hrest
    omega
  have hless := loop_shorter hm h hnil
  omega

theorem list_cut (hp : p ≠ []) (hq : q ≠ [])
    (h : parse (depth + 1) (.list items) (p ++ q) = some (.found v rest)) :
    (loop_head close_list (!items.isEmpty) p = .premature ∧ rest.length < q.length) ∨
      (∃ r, loop_head close_list (!items.isEmpty) p = .closed r ∧ v = .list items ∧ rest = r ++ q) ∨
      ∃ entry item behind, loop_head close_list (!items.isEmpty) p = .entry entry ∧
        parse depth .token (entry ++ q) = some (.found item behind) ∧
        parse depth (.list (items ++ [item])) behind = some (.found v rest) := by
  have hfound := list_found h
  by_cases hhead : loop_head close_list (!items.isEmpty) p = .premature
  · refine .inl ⟨hhead, ?_⟩
    obtain ⟨hnil, -, -⟩ | ⟨-, hclosed, -⟩ | ⟨entry, item, behind, -, hentry, hitem, hloop⟩ := hfound
    · rw [append_eq_nil_iff] at hnil
      exact absurd hnil.1 hp
    · exact (loop_head_premature hhead q).1 rest hclosed
    have hle := (loop_head_premature hhead q).2 entry hentry
    have hbehind := (parse_suffix hitem).length_le
    exact loop_rest_le (by simp) hq hloop (by omega)
  right
  rw [loop_head_append hhead] at hfound
  obtain ⟨hnil, -, -⟩ | ⟨-, hclosed, hv⟩ | ⟨entry, item, behind, -, hentry, hitem, hloop⟩ := hfound
  · rw [append_eq_nil_iff] at hnil
    exact absurd hnil.1 hp
  · cases hcase : loop_head close_list (!items.isEmpty) p with
    | closed r =>
      rw [hcase, Head.append, Head.closed.injEq] at hclosed
      exact .inl ⟨r, rfl, hv, hclosed.symm⟩
    | _ => simp [hcase, Head.append] at hclosed
  cases hcase : loop_head close_list (!items.isEmpty) p with
  | entry entry' =>
    rw [hcase, Head.append, Head.entry.injEq] at hentry
    rw [← hentry] at hitem
    exact .inr ⟨entry', item, behind, rfl, hitem, hloop⟩
  | _ => simp [hcase, Head.append] at hentry

theorem object_cut (hq : q ≠ [])
    (h : parse (depth + 1) (.object pairs) (p ++ q) = some (.found v rest)) :
    (loop_head close_object (!pairs.isEmpty) p = .premature ∧ rest.length < q.length) ∨
      (∃ r, loop_head close_object (!pairs.isEmpty) p = .closed r ∧ v = .object pairs ∧ rest = r ++ q) ∨
      ∃ entry key between content item behind,
        loop_head close_object (!pairs.isEmpty) p = .entry entry ∧
        parse depth .token (entry ++ q) = some (.found (.string key) between) ∧
        skip_chars between = colon :: content ∧ parse depth .token content = some (.found item behind) ∧
        key ∉ pairs.map Prod.fst ∧ parse depth (.object (pairs ++ [(key, item)])) behind = some (.found v rest) := by
  obtain ⟨-, hfound⟩ := object_found h
  by_cases hhead : loop_head close_object (!pairs.isEmpty) p = .premature
  · refine .inl ⟨hhead, ?_⟩
    obtain ⟨hclosed, -⟩ | ⟨entry, key, between, content, item, behind, hentry, -, hkey, hskip, hitem, -, hloop⟩ := hfound
    · exact (loop_head_premature hhead q).1 rest hclosed
    have hle := (loop_head_premature hhead q).2 entry hentry
    have hbetween := (parse_suffix hkey).length_le
    have hcontent := skip_chars_length between
    have hbehind := (parse_suffix hitem).length_le
    rw [hskip, length_cons] at hcontent
    exact loop_rest_le (by simp) hq hloop (by omega)
  right
  rw [loop_head_append hhead] at hfound
  obtain ⟨hclosed, hv⟩ | ⟨entry, key, between, content, item, behind, hentry, -, hkey, hskip, hitem, hnew, hloop⟩ :=
    hfound
  · cases hcase : loop_head close_object (!pairs.isEmpty) p with
    | closed r =>
      rw [hcase, Head.append, Head.closed.injEq] at hclosed
      exact .inl ⟨r, rfl, hv, hclosed.symm⟩
    | _ => simp [hcase, Head.append] at hclosed
  cases hcase : loop_head close_object (!pairs.isEmpty) p with
  | entry entry' =>
    rw [hcase, Head.append, Head.entry.injEq] at hentry
    rw [← hentry] at hkey
    exact .inr ⟨entry', key, between, content, item, behind, rfl, hkey, hskip, hitem, hnew, hloop⟩
  | _ => simp [hcase, Head.append] at hentry

theorem ne_nil_of_head {close : Byte}
    (h : loop_head close require_comma s ≠ .premature) : s ≠ [] := by
  rintro rfl
  exact h rfl

theorem list_of_entry {entry : List Byte} (h : loop_head close_list (!items.isEmpty) s = .entry entry) :
    parse (depth + 1) (.list items) s =
      chain (parse depth .token entry) fun item rest => parse depth (.list (items ++ [item])) rest := by
  rw [parse, parse_list, if_neg (ne_nil_of_head (by rw [h]; simp)), h]

theorem list_of_closed (h : loop_head close_list (!items.isEmpty) s = .closed rest) :
    parse (depth + 1) (.list items) s = some (.found (.list items) rest) := by
  rw [parse, parse_list, if_neg (ne_nil_of_head (by rw [h]; simp)), h]

theorem object_of_closed (h : loop_head close_object (!pairs.isEmpty) s = .closed rest) :
    parse (depth + 1) (.object pairs) s = some (.found (.object pairs) rest) := by
  rw [parse, parse_object, if_neg (ne_nil_of_head (by rw [h]; simp)), h]

theorem list_of_premature (hne : s ≠ [])
    (h : loop_head close_list (!items.isEmpty) s = .premature) :
    parse (depth + 1) (.list items) s = some .premature := by
  rw [parse, parse_list, if_neg hne, h]

theorem object_of_premature (h : loop_head close_object (!pairs.isEmpty) s = .premature) :
    parse (depth + 1) (.object pairs) s = some .premature := by
  rw [parse, parse_object, h]
  simp

theorem object_of_entry {entry : List Byte} (h : loop_head close_object (!pairs.isEmpty) s = .entry entry) :
    parse (depth + 1) (.object pairs) s = parse_kv_pair (parse depth) entry fun key v rest =>
      if key ∈ pairs.map Prod.fst then some .error else parse depth (.object (pairs ++ [(key, v)])) rest := by
  rw [parse, parse_object, if_neg (ne_nil_of_head (by rw [h]; simp)), h]

theorem object_of_key {entry key between content : List Byte}
    (h : loop_head close_object (!pairs.isEmpty) s = .entry entry)
    (hkey : parse depth .token entry = some (.found (.string key) between)) (hlength : 2 ≤ entry.length)
    (hskip : skip_chars between = colon :: content) (hnew : key ∉ pairs.map Prod.fst) :
    parse (depth + 1) (.object pairs) s =
      chain (parse depth .token content) fun item rest => parse depth (.object (pairs ++ [(key, item)])) rest := by
  rw [object_of_entry h]
  simp only [parse_kv_pair, if_neg (Nat.not_lt.mpr hlength), hkey, chain, hskip, ne_eq, not_true_eq_false, if_false,
    hnew]

theorem parse_word_append (word : List Byte) (v : Value) (rest : List Byte) :
    parse_word word v (word ++ rest) = .found v rest := by
  rw [parse_word, take_left, if_pos rfl, drop_left]

/-- A number at the end of the input that has less than two octets. -/
def TooShort (v : Value) (rest : List Byte) : Prop := ∃ digits, v = .number digits ∧ digits.length + rest.length ≤ 1

theorem list_kind
    (h : parse depth (.list items) s = some (.found v rest)) : ∃ more, v = .list (items ++ more) := by
  induction depth generalizing items s with
  | zero => simp [parse] at h
  | succ depth ih =>
    obtain ⟨-, hv, -⟩ | ⟨-, -, hv⟩ | ⟨entry, item, behind, -, -, -, hloop⟩ := list_found h
    · exact ⟨[], by rw [hv, List.append_nil]⟩
    · exact ⟨[], by rw [hv, List.append_nil]⟩
    obtain ⟨more, hmore⟩ := ih hloop
    exact ⟨item :: more, by rw [hmore, append_assoc, singleton_append]⟩

theorem object_kind
    (h : parse depth (.object pairs) s = some (.found v rest)) : ∃ more, v = .object (pairs ++ more) := by
  induction depth generalizing pairs s with
  | zero => simp [parse] at h
  | succ depth ih =>
    obtain ⟨-, ⟨-, hv⟩ | ⟨entry, key, between, content, item, behind, -, -, -, -, -, -, hloop⟩⟩ := object_found h
    · exact ⟨[], by rw [hv, List.append_nil]⟩
    obtain ⟨more, hmore⟩ := ih hloop
    exact ⟨(key, item) :: more, by rw [hmore, append_assoc, singleton_append]⟩

theorem string_kind {escaped : Bool} {copied : List Byte}
    (h : string_rest escaped copied s = .found v rest) : ∃ text, v = .string text := by
  induction s generalizing escaped copied with
  | nil => cases escaped <;> simp [string_rest] at h
  | cons c s ih =>
    cases escaped with
    | true =>
      rw [string_rest] at h
      split at h
      · exact ih h
      · simp at h
    | false =>
      rw [string_rest] at h
      split_ifs at h
      · exact ih h
      · simp only [Outcome.found.injEq] at h
        exact ⟨_, h.1.symm⟩
      · exact ih h

/-- The kinds of tokens, and how each of them is found. -/
inductive TokenCase (depth : Nat) (c : Byte) (tail : List Byte) : Value → List Byte → Prop where
  | word {func : ParseFunc} {word : List Byte} {v : Value} {rest : List Byte} (hfunc : get_parse_func_for c = some func)
      (hword : word_of func = some (word, v)) (htext : c :: tail = word ++ rest) : TokenCase depth c tail v rest
  | string {text rest : List Byte} (hfunc : get_parse_func_for c = some .string)
      (hrest : string_rest false [] tail = .found (.string text) rest) : TokenCase depth c tail (.string text) rest
  | number (hfunc : get_parse_func_for c = some .number) (hlength : 2 ≤ (c :: tail).length) :
      TokenCase depth c tail (.number ((c :: tail).take (cstring.strtod (c :: tail))))
        ((c :: tail).drop (cstring.strtod (c :: tail)))
  | list {items : List Value} {rest : List Byte} (hfunc : get_parse_func_for c = some .list) (htail : tail ≠ [])
      (hloop : parse depth (.list []) tail = some (.found (.list items) rest)) :
      TokenCase depth c tail (.list items) rest
  | object {pairs : List (List Byte × Value)} {rest : List Byte} (hfunc : get_parse_func_for c = some .object)
      (htail : tail ≠ []) (hloop : parse depth (.object []) tail = some (.found (.object pairs) rest)) :
      TokenCase depth c tail (.object pairs) rest

theorem token_cases (h : parse (depth + 1) .token s = some (.found v rest)) :
    ∃ c tail, skip_chars s = c :: tail ∧ TokenCase depth c tail v rest := by
  obtain ⟨c, tail, func, hskip, hfunc, hcall⟩ := token_found h
  refine ⟨c, tail, hskip, ?_⟩
  cases hword : word_of func with
  | some word =>
    rw [call_word hword, some.injEq] at hcall
    obtain ⟨htext, hv⟩ := parse_word_found hcall
    exact .word hfunc (by rw [hword, hv]) htext
  | none =>
    cases func with
    | string =>
      obtain ⟨-, hrest⟩ := parse_string_found (some.inj hcall)
      obtain ⟨text, rfl⟩ := string_kind hrest
      exact .string hfunc hrest
    | number =>
      obtain ⟨hlength, rfl, rfl⟩ := parse_number_found (some.inj hcall)
      exact .number hfunc hlength
    | list =>
      rw [call, tail_cons] at hcall
      split at hcall
      · simp at hcall
      rename_i htail
      obtain ⟨items, rfl⟩ := list_kind hcall
      exact .list hfunc htail hcall
    | object =>
      rw [call, tail_cons] at hcall
      split at hcall
      · simp at hcall
      rename_i htail
      obtain ⟨pairs, rfl⟩ := object_kind hcall
      exact .object hfunc htail hcall
    | _ => simp [word_of] at hword

theorem word_ne_number {word digits : List Byte} : word_of func ≠ some (word, .number digits) := by
  cases func <;> simp [word_of]

theorem string_length {text : List Byte}
    (h : parse depth .token s = some (.found (.string text) rest)) : 2 ≤ s.length := by
  cases depth with
  | zero => simp [parse] at h
  | succ depth =>
    obtain ⟨c, tail, func, hskip, -, hcall⟩ := token_found h
    have hlength := skip_chars_length s
    obtain ⟨c', tail', hskip', hcase⟩ := token_cases h
    rw [hskip'] at hlength
    generalize hv : Value.string text = v at hcase
    cases hcase with
    | word hfunc hword htext =>
      rename_i func' word
      rw [← hv] at hword
      cases func' <;> simp [word_of] at hword
    | string hfunc hrest =>
      have hless := (string_rest_found hrest).2
      rw [length_cons] at hlength
      omega
    | number => simp at hv
    | list => simp at hv
    | object => simp at hv

theorem empty_number_rest (h : parse depth .token s = some (.found v rest)) (hv : v = .number []) :
    ∃ c tail, rest = c :: tail ∧ is_numeral_char c = true := by
  cases depth with
  | zero => simp [parse] at h
  | succ depth =>
    obtain ⟨c, tail, -, hcase⟩ := token_cases h
    cases hcase with
    | word hfunc hword htext =>
      rw [hv] at hword
      exact absurd hword word_ne_number
    | number hfunc hlength =>
      simp only [Value.number.injEq, take_eq_nil_iff, reduceCtorEq, or_false] at hv
      rw [hv]
      exact ⟨c, tail, rfl, begins_number_char c (begins_number_of_func hfunc)⟩
    | string => simp at hv
    | list => simp at hv
    | object => simp at hv

/-- A loop that has an entry. -/
inductive Continued : Mode → Prop where
  | list (items : List Value) (item : Value) : Continued (.list (items ++ [item]))
  | object (pairs : List (List Byte × Value)) (pair : List Byte × Value) : Continued (.object (pairs ++ [pair]))

theorem Continued.numeral (h : Continued m) {tail : List Byte}
    (hc : is_numeral_char c = true) : parse (depth + 1) m (c :: tail) = some .error := by
  cases h with
  | list items item => exact list_numeral hc
  | object pairs pair => exact object_numeral hc

theorem Continued.too_short (hm : Continued m) {b : List Byte} {item v : Value}
    (hitem : parse depth .token s = some (.found item (b ++ q)))
    (hloop : parse depth m (b ++ q) = some (.found v rest)) (hshort : TooShort item b) : b = [] := by
  obtain ⟨digits, hdigits, hsmall⟩ := hshort
  by_contra hb
  have hpos := length_pos_iff.mpr hb
  have hnil : digits = [] := length_eq_zero_iff.mp (by omega)
  rw [hnil] at hdigits
  obtain ⟨c, tail, hrest, hc⟩ := empty_number_rest hitem hdigits
  rw [hrest] at hloop
  cases depth with
  | zero => simp [parse] at hloop
  | succ depth =>
    rw [hm.numeral hc] at hloop
    simp at hloop

theorem number_cut_behind (h : parse_number (p ++ q) = .found v rest)
    (hle : q.length ≤ rest.length) {r : List Byte} (hr : rest = r ++ q) (hp : p ≠ []) :
    parse_number p = .found v r ∨ (parse_number p = .premature ∧ TooShort v r) := by
  obtain ⟨-, hv, hrest⟩ := parse_number_found h
  have hpos : 0 < p.length := length_pos_iff.mpr hp
  have hlong := strtod_le (p ++ q)
  have hinside : cstring.strtod (p ++ q) ≤ p.length := by
    rw [hrest, length_drop, length_append] at hle
    rw [length_append] at hlong
    omega
  have hsame := strtod_append hinside
  rw [take_append_of_le_length hinside, ← hsame] at hv
  rw [drop_append_of_le_length hinside, ← hsame, hr] at hrest
  have hdrop : r = p.drop (cstring.strtod p) := append_cancel_right hrest
  rw [parse_number]
  by_cases hshort : p.length < 2
  · rw [if_pos hshort]
    refine .inr ⟨rfl, _, hv, ?_⟩
    rw [hdrop, length_take, length_drop]
    omega
  rw [if_neg hshort, hv, hdrop]
  exact .inl rfl

theorem parse_cut_behind (hq : q ≠ [])
    (h : parse depth m (p ++ q) = some (.found v rest)) (hle : q.length ≤ rest.length) :
    ∃ r, rest = r ++ q ∧ (parse depth m p = some (.found v r) ∨
      (m = .token ∧ parse depth m p = some .premature ∧ TooShort v r)) := by
  induction depth generalizing m p v rest with
  | zero => simp [parse] at h
  | succ depth ih =>
    obtain ⟨r, hr, -⟩ := eq_of_suffix (parse_suffix h) hle
    refine ⟨r, hr, ?_⟩
    have hpos : 0 < q.length := length_pos_iff.mpr hq
    cases m with
    | token =>
      cases hskip : skip_chars p with
      | nil =>
        have hbehind : parse (depth + 1) .token q = some (.found v rest) := by
          rw [parse, parse_next_token, skip_chars_append_nil hskip] at h
          rw [parse, parse_next_token]
          exact h
        obtain hless | ⟨hv, -⟩ := token_shorter hbehind
        · omega
        have hrest := (parse_suffix hbehind).length_le
        rw [hr, length_append] at hrest
        refine .inr ⟨rfl, token_of_skip_nil hskip, [], hv, ?_⟩
        rw [length_nil]
        omega
      | cons c tail =>
        have hwhole : skip_chars (p ++ q) = c :: (tail ++ q) := by
          rw [skip_chars_append (by rw [hskip]; simp), hskip, List.cons_append]
        obtain ⟨c', tail', func, hskip', hfunc, hcall⟩ := token_found h
        rw [hwhole, List.cons.injEq] at hskip'
        obtain ⟨rfl, rfl⟩ := hskip'
        rw [token_of_skip hskip hfunc]
        have hloop : ∀ m : Mode, m ≠ .token → (if (c :: (tail ++ q)).tail = [] then some .premature else
            parse depth m (c :: (tail ++ q)).tail) = some (.found v rest) →
            (if (c :: tail).tail = [] then some .premature else parse depth m (c :: tail).tail) =
              some (.found v r) := by
          intro m hmode hm
          rw [tail_cons, if_neg (by simp [hq])] at hm
          rw [tail_cons]
          by_cases hnil : tail = []
          · rw [hnil, nil_append] at hm
            have hless := loop_shorter hmode hm hq
            omega
          rw [if_neg hnil]
          obtain ⟨r', hr', hfound | ⟨htoken, -⟩⟩ := ih hm hle
          · rw [hfound, append_cancel_right (hr.symm.trans hr')]
          · exact absurd htoken hmode
        cases hword : word_of func with
        | some word =>
          rw [call_word hword, some.injEq] at hcall
          obtain ⟨hsplit, hv⟩ := parse_word_found hcall
          have htext : c :: tail = word.1 ++ r := by
            rw [hr, ← append_assoc, ← List.cons_append] at hsplit
            exact append_cancel_right hsplit
          rw [call_word hword, htext, parse_word_append, hv]
          exact .inl rfl
        | none =>
          cases func with
          | string =>
            obtain ⟨-, hstring⟩ := parse_string_found (some.inj hcall)
            obtain ⟨r', hr', hfound⟩ := (string_rest_cut (p := tail) hstring).1 hle
            have htail : tail ≠ [] := by
              rintro rfl
              simp [string_rest] at hfound
            have hlength : ¬ (c :: tail).length < 2 := by
              have htailpos := length_pos_iff.mpr htail
              rw [length_cons]
              omega
            left
            rw [call, parse_string, if_neg hlength, tail_cons, hfound, append_cancel_right (hr.symm.trans hr')]
          | number =>
            obtain hfound | ⟨hpremature, hshort⟩ :=
              number_cut_behind (p := c :: tail) (some.inj hcall) hle hr (by simp)
            · rw [call, hfound]
              exact .inl rfl
            rw [call, hpremature]
            exact .inr ⟨rfl, rfl, hshort⟩
          | list => exact .inl (hloop _ (by simp) hcall)
          | object => exact .inl (hloop _ (by simp) hcall)
          | _ => simp [word_of] at hword
    | list items =>
      left
      have hp : p ≠ [] := by
        rintro rfl
        have hless := loop_shorter (by simp) h hq
        rw [nil_append] at hless
        omega
      obtain ⟨-, hless⟩ | ⟨r', hclosed, hv, hr'⟩ | ⟨entry, item, behind, hentry, hitem, hloop⟩ := list_cut hp hq h
      · omega
      · rw [list_of_closed hclosed, hv, append_cancel_right (hr.symm.trans hr')]
      have hbehind : q.length ≤ behind.length := by
        by_contra hshort
        have hless := loop_rest_le (by simp) hq hloop (by omega)
        omega
      obtain ⟨b, hb, hfound | ⟨-, hpremature, digits, hdigits, hsmall⟩⟩ := ih hitem hbehind
      · rw [hb] at hloop
        obtain ⟨r', hr', hlast | ⟨htoken, -⟩⟩ := ih hloop hle
        · rw [list_of_entry hentry, hfound, chain, hlast, append_cancel_right (hr.symm.trans hr')]
        · simp at htoken
      rw [hb] at hitem hloop
      have hnil := (Continued.list items item).too_short hitem hloop ⟨digits, hdigits, hsmall⟩
      rw [hnil, nil_append] at hloop
      have hless := loop_shorter (by simp) hloop hq
      omega
    | object pairs =>
      left
      obtain ⟨-, hless⟩ | ⟨r', hclosed, hv, hr'⟩ |
        ⟨entry, key, between, content, item, behind, hentry, hkey, hskip, hitem, hnew, hloop⟩ := object_cut hq h
      · omega
      · rw [object_of_closed hclosed, hv, append_cancel_right (hr.symm.trans hr')]
      have hbehind : q.length ≤ behind.length := by
        by_contra hshort
        have hless := loop_rest_le (by simp) hq hloop (by omega)
        omega
      have hcontent := (parse_suffix hitem).length_le
      have hbetween := skip_chars_length between
      rw [hskip, length_cons] at hbetween
      obtain ⟨b, rfl, hfound | ⟨-, -, digits, hdigits, -⟩⟩ := ih hkey (by omega)
      · obtain ⟨b', hskip', rfl⟩ := skip_chars_cut hskip (by omega)
        have hentry' := object_of_key hentry hfound (string_length hfound) hskip' hnew
        obtain ⟨e, rfl, hfound' | ⟨-, -, hshort⟩⟩ := ih hitem hbehind
        · obtain ⟨r', hr', hlast | ⟨htoken, -⟩⟩ := ih hloop hle
          · rw [hentry', hfound', chain, hlast, append_cancel_right (hr.symm.trans hr')]
          · simp at htoken
        have hnil := (Continued.object pairs (key, item)).too_short hitem hloop hshort
        rw [hnil, nil_append] at hloop
        have hless := loop_shorter (by simp) hloop hq
        omega
      · simp at hdigits

end openvocs.value
