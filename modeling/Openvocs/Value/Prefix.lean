import Openvocs.Value.Cut

open List

namespace openvocs.value

open cstring

/-- A number that stays one while it is typed. -/
def Gradual (digits : List Byte) : Prop :=
  ∀ part, part <+: digits → part ≠ digits → 2 ≤ part.length → is_numeral part = true

/-- No word in it, and no number that is something else in between. -/
inductive Calm : Value → Prop where
  | string (s : List Byte) : Calm (.string s)
  | number (digits : List Byte) (h : Gradual digits) : Calm (.number digits)
  | list (items : List Value) (h : ∀ item ∈ items, Calm item) : Calm (.list items)
  | object (pairs : List (List Byte × Value)) (h : ∀ pair ∈ pairs, Calm pair.2) : Calm (.object pairs)

/-- A part of a number or of a list may be a value. -/
inductive Soft : Value → Prop where
  | number (digits : List Byte) : Soft (.number digits)
  | list (items : List Value) : Soft (.list items)

theorem number_cut_inside {p q rest : List Byte} {digits : List Byte}
    (hdigits : digits = (p ++ q).take (cstring.strtod (p ++ q))) (hrest : rest = (p ++ q).drop (cstring.strtod (p ++ q)))
    (hless : rest.length < q.length) (hgradual : Gradual digits) :
    parse_number p = .premature ∨ parse_number p = .found (.number p) [] := by
  have hlong := strtod_le (p ++ q)
  have hinside : p.length < cstring.strtod (p ++ q) := by
    rw [hrest, length_drop, length_append] at hless
    rw [length_append] at hlong
    omega
  rw [parse_number]
  by_cases hshort : p.length < 2
  · exact .inl (if_pos hshort)
  have hpart : p <+: digits := by
    rw [hdigits, prefix_take_iff]
    exact ⟨prefix_append p q, by omega⟩
  have hne : p ≠ digits := by
    intro heq
    have hlength := congrArg List.length (heq.trans hdigits)
    rw [length_take] at hlength
    omega
  have hwhole := strtod_eq_length (hgradual p hpart hne (by omega))
  rw [if_neg hshort, hwhole, take_length, drop_length]
  exact .inr rfl

variable {depth : Nat} {m : Mode} {v : Value}

theorem parse_cut_inside {p q rest : List Byte}
    (h : parse depth m (p ++ q) = some (.found v rest)) (hless : rest.length < q.length) (hcalm : Calm v) :
    parse depth m p = some .premature ∨ (Soft v ∧ ∃ part, parse depth m p = some (.found part [])) := by
  have hq : q ≠ [] := by
    rintro rfl
    simp at hless
  induction depth generalizing m p v rest with
  | zero => simp [parse] at h
  | succ depth ih =>
    cases m with
    | token =>
      cases hskip : skip_chars p with
      | nil => exact .inl (token_of_skip_nil hskip)
      | cons c tail =>
        have hwhole : skip_chars (p ++ q) = c :: (tail ++ q) := by
          rw [skip_chars_append (by rw [hskip]; simp), hskip, List.cons_append]
        obtain ⟨c', tail', hskip', hcase⟩ := token_cases h
        rw [hwhole, List.cons.injEq] at hskip'
        obtain ⟨rfl, rfl⟩ := hskip'
        cases hcase with
        | word hfunc hword htext =>
          rename_i func word
          cases func <;> simp [word_of] at hword
          all_goals
            rw [← hword.2] at hcalm
            cases hcalm
        | string hfunc hrest =>
          left
          rw [token_of_skip hskip hfunc, call, parse_string]
          split
          · rfl
          · rw [tail_cons, (string_rest_cut hrest).2 hless]
        | number hfunc hlength =>
          cases hcalm with
          | number _ hgradual =>
            rw [token_of_skip hskip hfunc, call]
            obtain hpremature | hfound :=
              number_cut_inside (p := c :: tail) (q := q) rfl rfl hless hgradual
            · rw [hpremature]
              exact .inl rfl
            rw [hfound]
            exact .inr ⟨.number _, _, rfl⟩
        | list hfunc htail hloop =>
          rw [token_of_skip hskip hfunc, call, tail_cons]
          by_cases hnil : tail = []
          · rw [if_pos hnil]
            exact .inl rfl
          rw [if_neg hnil]
          exact ih hloop hless hcalm
        | object hfunc htail hloop =>
          rw [token_of_skip hskip hfunc, call, tail_cons]
          by_cases hnil : tail = []
          · rw [if_pos hnil]
            exact .inl rfl
          rw [if_neg hnil]
          exact ih hloop hless hcalm
    | list items =>
      obtain ⟨more, rfl⟩ := list_kind h
      by_cases hp : p = []
      · rw [hp]
        exact .inr ⟨.list _, _, rfl⟩
      obtain ⟨hpremature, -⟩ | ⟨r, -, -, hr⟩ | ⟨entry, item, behind, hentry, hitem, hloop⟩ := list_cut hp hq h
      · exact .inl (list_of_premature hp hpremature)
      · rw [hr, length_append] at hless
        omega
      rw [list_of_entry hentry]
      have hitems : Calm item := by
        obtain ⟨others, hothers⟩ := list_kind hloop
        cases hcalm with
        | list _ hall => 
          rw [Value.list.injEq] at hothers
          exact hall item (by rw [hothers]; simp)
      by_cases hinside : behind.length < q.length
      · obtain hpremature | ⟨-, part, hpart⟩ := ih hitem hinside hitems
        · rw [hpremature]
          exact .inl rfl
        rw [hpart, chain]
        cases depth with
        | zero => simp [parse] at hitem
        | succ depth => exact .inr ⟨.list _, _, rfl⟩
      obtain ⟨b, rfl, hfound | ⟨-, hpremature, -⟩⟩ := parse_cut_behind hq hitem (by omega)
      · rw [hfound, chain]
        exact ih hloop hless hcalm
      rw [hpremature]
      exact .inl rfl
    | object pairs =>
      obtain ⟨more, rfl⟩ := object_kind h
      left
      obtain ⟨hpremature, -⟩ | ⟨r, -, -, hr⟩ |
        ⟨entry, key, between, content, item, behind, hentry, hkey, hskip, hitem, hnew, hloop⟩ := object_cut hq h
      · exact object_of_premature hpremature
      · rw [hr, length_append] at hless
        omega
      have hitems : Calm item := by
        obtain ⟨others, hothers⟩ := object_kind hloop
        cases hcalm with
        | object _ hall =>
          rw [Value.object.injEq] at hothers
          exact hall (key, item) (by rw [hothers]; simp)
      by_cases hlength : entry.length < 2
      · rw [object_of_entry hentry, parse_kv_pair, if_pos hlength]
      by_cases hinside : between.length < q.length
      · obtain hpremature | ⟨hsoft, -⟩ := ih hkey hinside (.string key)
        · rw [object_of_entry hentry, parse_kv_pair, if_neg hlength, hpremature]
          rfl
        · cases hsoft
      obtain ⟨b, rfl, hfound | ⟨-, -, digits, hdigits, -⟩⟩ := parse_cut_behind hq hkey (by omega)
      · cases hb : skip_chars b with
        | nil =>
          rw [object_of_entry hentry, parse_kv_pair, if_neg hlength, hfound]
          simp only [chain, hb]
        | cons c b' =>
          rw [skip_chars_append (by rw [hb]; simp), hb, List.cons_append, List.cons.injEq] at hskip
          obtain ⟨rfl, rfl⟩ := hskip
          rw [object_of_key hentry hfound (by omega) hb hnew]
          by_cases hbehind : behind.length < q.length
          · obtain hpremature | ⟨-, part, hpart⟩ := ih hitem hbehind hitems
            · rw [hpremature]
              rfl
            rw [hpart, chain]
            cases depth with
            | zero => simp [parse] at hitem
            | succ depth => exact object_of_premature rfl
          obtain ⟨e, rfl, hfound' | ⟨-, hpremature, -⟩⟩ := parse_cut_behind hq hitem (by omega)
          · rw [hfound', chain]
            obtain hpremature | ⟨hsoft, -⟩ := ih hloop hless hcalm
            · exact hpremature
            · cases hsoft
          rw [hpremature]
          rfl
      · simp at hdigits

theorem digit_token {s q behind : List Byte} {c : Byte}
    (h : parse depth .token (s ++ q) = some (.found (.number [c]) behind)) :
    parse depth .token s = some .premature ∨
      ∃ t, t ≠ [] ∧ behind = t ++ q ∧ parse depth .token s = some (.found (.number [c]) t) := by
  cases depth with
  | zero => simp [parse] at h
  | succ depth =>
    cases hskip : skip_chars s with
    | nil => exact .inl (token_of_skip_nil hskip)
    | cons first tail =>
      have hwhole : skip_chars (s ++ q) = first :: (tail ++ q) := by
        rw [skip_chars_append (by rw [hskip]; simp), hskip, List.cons_append]
      obtain ⟨first', rest, hskip', hcase⟩ := token_cases h
      rw [hwhole, List.cons.injEq] at hskip'
      obtain ⟨rfl, rfl⟩ := hskip'
      generalize hv : Value.number [c] = v at hcase
      cases hcase with
      | word hfunc hword htext =>
        rw [← hv] at hword
        exact absurd hword word_ne_number
      | number hfunc hlength =>
        rw [token_of_skip hskip hfunc, call]
        by_cases hnil : tail = []
        · rw [hnil]
          exact .inl rfl
        have hpos := length_pos_iff.mpr hnil
        have hone : cstring.strtod (first :: tail ++ q) = 1 := by
          rw [Value.number.injEq] at hv
          have hcount := congrArg List.length hv
          rw [length_take, length_singleton] at hcount
          rw [List.cons_append]
          omega
        have hsame : cstring.strtod (first :: tail) = cstring.strtod (first :: tail ++ q) := by
          apply strtod_append
          rw [hone, length_cons]
          omega
        right
        refine ⟨tail, hnil, ?_, ?_⟩
        · rw [← List.cons_append, hone]
          rfl
        rw [parse_number, if_neg (by rw [length_cons]; omega), hsame, hone, ← List.cons_append, hone]
        rfl
      | string => simp at hv
      | list => simp at hv
      | object => simp at hv

variable {items : List Value}

theorem digits_cut {more : List Value} {p q rest : List Byte} (hp : p ≠ [])
    (h : parse depth (.list items) (p ++ q) = some (.found (.list (items ++ more)) rest))
    (hless : rest.length < q.length) (hdigits : ∀ item ∈ more, ∃ c, item = .number [c]) :
    parse depth (.list items) p = some .premature := by
  have hq : q ≠ [] := by
    rintro rfl
    simp at hless
  induction depth generalizing items more p with
  | zero => simp [parse] at h
  | succ depth ih =>
    obtain ⟨hpremature, -⟩ | ⟨r, -, -, hr⟩ | ⟨entry, item, behind, hentry, hitem, hloop⟩ := list_cut hp hq h
    · exact list_of_premature hp hpremature
    · rw [hr, length_append] at hless
      omega
    obtain ⟨others, hothers⟩ := list_kind hloop
    have hmore : more = item :: others := by
      rw [Value.list.injEq, append_assoc, append_cancel_left_eq, singleton_append] at hothers
      exact hothers
    obtain ⟨c, rfl⟩ := hdigits item (by rw [hmore]; simp)
    rw [list_of_entry hentry]
    obtain hpremature | ⟨t, ht, rfl, hfound⟩ := digit_token hitem
    · rw [hpremature]
      rfl
    rw [hfound, chain]
    rw [hothers] at hloop
    apply ih ht hloop
    intro item hmem
    exact hdigits item (by rw [hmore]; exact mem_cons_of_mem _ hmem)

/-- A value whose text is not taken for another one before its end. -/
def Steady : Value → Prop
  | .string _ => True
  | .object pairs => ∀ pair ∈ pairs, Calm pair.2
  | .list items => ∀ item ∈ items, ∃ c, item = .number [c]
  | _ => False

theorem token_list_cut {p q rest : List Byte}
    (h : parse depth .token (p ++ q) = some (.found (.list items) rest)) (hless : rest.length < q.length)
    (hdigits : ∀ item ∈ items, ∃ c, item = .number [c]) : parse depth .token p = some .premature := by
  cases depth with
  | zero => simp [parse] at h
  | succ depth =>
    cases hskip : skip_chars p with
    | nil => exact token_of_skip_nil hskip
    | cons c tail =>
      have hwhole : skip_chars (p ++ q) = c :: (tail ++ q) := by
        rw [skip_chars_append (by rw [hskip]; simp), hskip, List.cons_append]
      obtain ⟨c', tail', hskip', hcase⟩ := token_cases h
      rw [hwhole, List.cons.injEq] at hskip'
      obtain ⟨rfl, rfl⟩ := hskip'
      generalize hv : Value.list items = v at hcase
      cases hcase with
      | word hfunc hword htext =>
        rename_i func word
        rw [← hv] at hword
        cases func <;> simp [word_of] at hword
      | list hfunc htail hloop =>
        rw [← hv] at hloop
        rw [token_of_skip hskip hfunc, call, tail_cons]
        by_cases hnil : tail = []
        · rw [if_pos hnil]
        rw [if_neg hnil]
        exact @digits_cut depth [] items tail q rest hnil hloop hless hdigits
      | string => simp at hv
      | number => simp at hv
      | object => simp at hv

theorem steady_cut {p q rest : List Byte} (hsteady : Steady v)
    (h : parse depth .token (p ++ q) = some (.found v rest)) (hless : rest.length < q.length) :
    parse depth .token p = some .premature := by
  cases v with
  | string text =>
    obtain hpremature | ⟨hsoft, -⟩ := parse_cut_inside h hless (.string text)
    · exact hpremature
    · cases hsoft
  | object pairs =>
    obtain hpremature | ⟨hsoft, -⟩ := parse_cut_inside h hless (.object pairs hsteady)
    · exact hpremature
    · cases hsoft
  | list items => exact token_list_cut h hless hsteady
  | _ => exact hsteady.elim

theorem skip_chars_split {s x q : List Byte} (h : skip_chars s = x ++ q) (hx : x ≠ []) :
    ∃ p, s = p ++ q ∧ skip_chars p = x := by
  obtain ⟨c, x', rfl⟩ := exists_cons_of_ne_nil hx
  have hfirst : is_separator c = false := by
    have hhead := head?_dropWhile_not is_separator s
    rw [skip_chars] at h
    rw [h] at hhead
    simpa using hhead
  refine ⟨s.takeWhile is_separator ++ c :: x', ?_, ?_⟩
  · rw [append_assoc, ← h, skip_chars, takeWhile_append_dropWhile]
  rw [skip_chars, dropWhile_append_of_pos]
  · simp [hfirst]
  intro octet hoctet
  exact mem_takeWhile_imp hoctet

theorem loop_head_split {close : Byte} {require_comma : Bool} {s x q : List Byte}
    (h : loop_head close require_comma s = .entry (x ++ q)) (hx : x ≠ []) :
    ∃ p, s = p ++ q ∧ loop_head close require_comma p = .entry x := by
  rw [loop_head] at h
  cases hskip : skip_chars s with
  | nil =>
    rw [hskip] at h
    simp at h
  | cons c tail =>
    rw [hskip] at h
    simp only at h
    split_ifs at h with hclose hrequire hcomma hnil
    · rw [Head.entry.injEq] at h
      obtain ⟨p, hp, hskip'⟩ := @skip_chars_split s (c :: x) q (by rw [hskip, h, List.cons_append]) (by simp)
      refine ⟨p, hp, ?_⟩
      rw [loop_head, hskip']
      simp [hclose, hrequire, hcomma, hx]
    rw [Head.entry.injEq] at h
    obtain ⟨p, hp, hskip'⟩ := skip_chars_split (hskip.trans h) hx
    obtain ⟨c', x', rfl⟩ := exists_cons_of_ne_nil hx
    rw [List.cons_append, List.cons.injEq] at h
    refine ⟨p, hp, ?_⟩
    rw [loop_head, hskip', ← h.1]
    simp only [hclose, hrequire, if_false]
    rfl

theorem list_split_behind {item v : Value} {s entry x q rest : List Byte}
    (hentry : loop_head close_list (!items.isEmpty) s = .entry entry)
    (hitem : parse depth .token entry = some (.found item (x ++ q))) (hx : x ≠ []) (hq : q ≠ [])
    (hloop : parse depth (.list (items ++ [item])) (x ++ q) = some (.found v rest)) :
    ∃ p, s = p ++ q ∧ p ≠ [] ∧ parse (depth + 1) (.list items) p = parse depth (.list (items ++ [item])) x := by
  obtain ⟨k, rfl⟩ := parse_suffix hitem
  rw [← append_assoc] at hentry hitem
  obtain ⟨p, hp, hhead⟩ := loop_head_split hentry (by simp [hx])
  refine ⟨p, hp, ne_nil_of_head (by rw [hhead]; simp), ?_⟩
  obtain ⟨r, hr, hfound | ⟨-, -, hshort⟩⟩ := parse_cut_behind hq hitem (by simp)
  · rw [list_of_entry hhead, hfound, append_cancel_right hr]
    rfl
  rw [← append_cancel_right hr] at hshort
  exact absurd ((Continued.list items item).too_short hitem hloop hshort) hx

theorem list_split_item {s x q : List Byte}
    (hentry : loop_head close_list (!items.isEmpty) s = .entry (x ++ q)) (hx : x ≠ []) :
    ∃ p, s = p ++ q ∧ p ≠ [] ∧ parse (depth + 1) (.list items) p =
      chain (parse depth .token x) fun item rest => parse depth (.list (items ++ [item])) rest := by
  obtain ⟨p, hp, hhead⟩ := loop_head_split hentry hx
  exact ⟨p, hp, ne_nil_of_head (by rw [hhead]; simp), list_of_entry hhead⟩

theorem object_split_item {pairs : List (List Byte × Value)} {s entry key between x q : List Byte}
    (hentry : loop_head close_object (!pairs.isEmpty) s = .entry entry)
    (hkey : parse depth .token entry = some (.found (.string key) between))
    (hskip : skip_chars between = colon :: (x ++ q)) (hnew : key ∉ pairs.map Prod.fst) (hq : q ≠ []) :
    ∃ p, s = p ++ q ∧ parse (depth + 1) (.object pairs) p =
      chain (parse depth .token x) fun item rest => parse depth (.object (pairs ++ [(key, item)])) rest := by
  obtain ⟨r, rfl, hskip'⟩ := @skip_chars_split between (colon :: x) q hskip (by simp)
  obtain ⟨k, rfl⟩ := parse_suffix hkey
  rw [← append_assoc] at hentry hkey
  obtain ⟨r', hr', hfound | ⟨-, -, digits, hdigits, -⟩⟩ := parse_cut_behind hq hkey (by simp)
  · rw [← append_cancel_right hr'] at hfound
    have hlength := string_length hfound
    have hne : k ++ r ≠ [] := by
      intro hnil
      rw [hnil] at hlength
      simp at hlength
    obtain ⟨p, hp, hhead⟩ := loop_head_split hentry hne
    exact ⟨p, hp, object_of_key hhead hfound hlength hskip' hnew⟩
  · simp at hdigits

theorem object_split_behind {pairs : List (List Byte × Value)} {item v : Value}
    {s entry key between content x q rest : List Byte}
    (hentry : loop_head close_object (!pairs.isEmpty) s = .entry entry)
    (hkey : parse depth .token entry = some (.found (.string key) between))
    (hskip : skip_chars between = colon :: content) (hnew : key ∉ pairs.map Prod.fst)
    (hitem : parse depth .token content = some (.found item (x ++ q))) (hx : x ≠ []) (hq : q ≠ [])
    (hloop : parse depth (.object (pairs ++ [(key, item)])) (x ++ q) = some (.found v rest)) :
    ∃ p, s = p ++ q ∧ parse (depth + 1) (.object pairs) p = parse depth (.object (pairs ++ [(key, item)])) x := by
  obtain ⟨k, rfl⟩ := parse_suffix hitem
  rw [← append_assoc] at hskip hitem
  obtain ⟨p, hp, hparse⟩ := object_split_item hentry hkey hskip hnew hq
  refine ⟨p, hp, ?_⟩
  obtain ⟨r, hr, hfound | ⟨-, -, hshort⟩⟩ := parse_cut_behind hq hitem (by simp)
  · rw [hparse, hfound, append_cancel_right hr]
    rfl
  rw [← append_cancel_right hr] at hshort
  exact absurd ((Continued.object pairs (key, item)).too_short hitem hloop hshort) hx

theorem list_found_early {more : List Value} {s rest : List Byte}
    (h : parse depth (.list items) s = some (.found (.list (items ++ more)) rest)) (hrest : rest ≠ [])
    (hmore : ¬ ∀ item ∈ more, ∃ c, item = .number [c]) :
    ∃ p q, s = p ++ q ∧ p ≠ [] ∧ rest.length < q.length ∧ ∃ v, parse depth (.list items) p = some (.found v []) := by
  induction depth generalizing items more s with
  | zero => simp [parse] at h
  | succ depth ih =>
    have hnone : ∀ l : List Value, Value.list (l ++ more) = .list l → False := by
      intro l hl
      rw [Value.list.injEq, append_right_eq_self] at hl
      rw [hl] at hmore
      simp at hmore
    obtain ⟨-, hv, -⟩ | ⟨-, -, hv⟩ | ⟨entry, item, behind, hs, hentry, hitem, hloop⟩ := list_found h
    · exact (hnone _ hv).elim
    · exact (hnone _ hv).elim
    have hbehind : behind ≠ [] := by
      rintro rfl
      exact hrest (suffix_nil.mp (parse_suffix hloop))
    obtain ⟨others, hothers⟩ := list_kind hloop
    rw [hothers] at hloop
    have hsplit : more = item :: others := by
      rw [Value.list.injEq, append_assoc, append_cancel_left_eq, singleton_append] at hothers
      exact hothers
    by_cases hitems : ∃ c, item = .number [c]
    · have hmore' : ¬ ∀ item ∈ others, ∃ c, item = .number [c] := by
        intro hall
        apply hmore
        rw [hsplit]
        exact forall_mem_cons.mpr ⟨hitems, hall⟩
      obtain ⟨x, q, rfl, hx, hless, v, hv⟩ := ih hloop hmore'
      have hq : q ≠ [] := by
        rintro rfl
        simp at hless
      obtain ⟨p, hp, hne, hparse⟩ := list_split_behind hentry hitem hx hq hloop
      exact ⟨p, q, hp, hne, hless, v, hparse.trans hv⟩
    obtain ⟨k, rfl⟩ := parse_suffix hitem
    have hless := loop_shorter (by simp) hloop hbehind
    obtain ⟨r, hr, hfound | ⟨-, -, digits, rfl, hshort⟩⟩ := parse_cut_behind hbehind hitem (Nat.le_refl _)
    · have hnil : r = [] := self_eq_append_left.mp hr
      rw [hnil] at hfound
      have hk : k ≠ [] := by
        rintro rfl
        cases depth with
        | zero => simp [parse] at hfound
        | succ depth =>
          rw [token_of_skip_nil rfl] at hfound
          simp at hfound
      obtain ⟨p, hp, hne, hparse⟩ := @list_split_item depth items s k behind hentry hk
      refine ⟨p, behind, hp, hne, hless, .list (items ++ [item]), ?_⟩
      rw [hparse, hfound, chain]
      cases depth with
      | zero => simp [parse] at hfound
      | succ depth => rfl
    -- a number of one octet is a digit, and one without octets is followed by an error
    have hempty : digits = [] := by
      by_contra hne
      have hpos := length_pos_iff.mpr hne
      obtain ⟨c, hc⟩ := length_eq_one_iff.mp (show digits.length = 1 by omega)
      exact hitems ⟨c, by rw [hc]⟩
    obtain ⟨c, tail, rfl, hc⟩ := empty_number_rest hitem (by rw [hempty])
    cases depth with
    | zero => simp [parse] at hloop
    | succ depth =>
      rw [list_numeral hc] at hloop
      simp at hloop

theorem token_found_early {s rest : List Byte}
    (h : parse depth .token s = some (.found (.list items) rest)) (hrest : rest ≠ [])
    (hitems : ¬ ∀ item ∈ items, ∃ c, item = .number [c]) :
    ∃ p q, s = p ++ q ∧ rest.length < q.length ∧ ∃ v, parse depth .token p = some (.found v []) := by
  cases depth with
  | zero => simp [parse] at h
  | succ depth =>
    obtain ⟨c, tail, hskip, hcase⟩ := token_cases h
    generalize hv : Value.list items = v at hcase
    cases hcase with
    | word hfunc hword htext =>
      rename_i func word
      rw [← hv] at hword
      cases func <;> simp [word_of] at hword
    | list hfunc htail hloop =>
      rw [← hv] at hloop
      obtain ⟨x, q, rfl, hx, hless, part, hpart⟩ := @list_found_early depth [] items tail rest hloop hrest hitems
      obtain ⟨p, hp, hskip'⟩ := @skip_chars_split s (c :: x) q hskip (by simp)
      refine ⟨p, q, hp, hless, part, ?_⟩
      rw [token_of_skip hskip' hfunc, call, tail_cons, if_neg hx, hpart]
    | string => simp at hv
    | number => simp at hv
    | object => simp at hv

/-- An outcome after which no loop goes on. A number that is cut leaves a part of itself. -/
inductive Spoiled : Mode → Option (Outcome Value) → Prop where
  | error (m : Mode) : Spoiled m (some .error)
  | number (v : Value) {c : Byte} (tail : List Byte) (hc : is_numeral_char c = true) :
      Spoiled .token (some (.found v (c :: tail)))

theorem Spoiled.chain {x : List Byte} {next : Value → Mode} (h : Spoiled .token (parse depth .token x))
    (hnext : ∀ v, Continued (next v)) :
    value.chain (parse depth .token x) (fun v rest => parse depth (next v) rest) = some .error := by
  cases depth with
  | zero => cases h
  | succ depth =>
    generalize parse (depth + 1) .token x = outcome at h
    cases h with
    | error => rfl
    | number v tail hc => exact (hnext v).numeral hc

theorem number_spoiled {s : List Byte} (h : ¬ Gradual (s.take (cstring.strtod s))) :
    ∃ x q, s = x ++ q ∧ x ≠ [] ∧ (s.drop (cstring.strtod s)).length < q.length ∧
      Spoiled .token (some (parse_number x)) := by
  simp only [Gradual, not_forall] at h
  obtain ⟨part, ⟨more, hmore⟩, hne, hlength, hnumeral⟩ := h
  have hrest : more ≠ [] := by
    rintro rfl
    exact hne (by rw [← hmore, List.append_nil])
  have hshort : cstring.strtod part < part.length := by
    apply lt_of_le_of_ne (strtod_le part)
    intro hwhole
    have hcontra := is_numeral_strtod (s := part) (by omega)
    rw [hwhole, take_length] at hcontra
    exact hnumeral hcontra
  refine ⟨part, more ++ s.drop (cstring.strtod s), ?_, ?_, ?_, ?_⟩
  · rw [← append_assoc, hmore, take_append_drop]
  · rintro rfl
    simp at hlength
  · have hpos := length_pos_iff.mpr hrest
    rw [length_append]
    omega
  rw [parse_number, if_neg (by omega)]
  have hleft : part.drop (cstring.strtod part) ≠ [] := by
    rw [ne_eq, drop_eq_nil_iff]
    omega
  obtain ⟨c, tail, htail⟩ := exists_cons_of_ne_nil hleft
  rw [htail]
  apply Spoiled.number
  have hc : c ∈ part := mem_of_mem_drop (by rw [htail]; exact mem_cons_self)
  have hzero : cstring.strtod s ≠ 0 := by
    intro hzero
    rw [hzero, take_zero, append_eq_nil_iff] at hmore
    exact hrest hmore.2
  apply numeral_chars (is_numeral_strtod hzero)
  rw [← hmore]
  exact mem_append_left _ hc

/-- All that a loop has collected is calm. -/
def Mode.Calm : Mode → Prop
  | .token => True
  | .list items => ∀ item ∈ items, value.Calm item
  | .object pairs => ∀ pair ∈ pairs, value.Calm pair.2

theorem Spoiled.ne_nil {x : List Byte} (h : Spoiled m (parse depth m x)) : x ≠ [] := by
  rintro rfl
  cases depth with
  | zero => cases h
  | succ depth => cases m <;> cases h

theorem Spoiled.eq_error (hm : m ≠ .token) {o : Option (Outcome Value)} (h : Spoiled m o) :
    o = some .error := by
  cases h with
  | error => rfl
  | number => exact absurd rfl hm

theorem word_length {func : ParseFunc} {word : List Byte} (h : word_of func = some (word, v)) :
    4 ≤ word.length := by
  cases func <;> simp only [word_of, Option.some.injEq, Prod.mk.injEq, reduceCtorEq] at h <;> rw [← h.1] <;> decide

theorem word_spoiled {inner : Mode → List Byte → Option (Outcome Value)} {func : ParseFunc} {word : List Byte}
    (h : word_of func = some (word, v)) (c : Byte) : Spoiled .token (call inner [c] func) := by
  have hlength := word_length h
  rw [call_word h, parse_word, if_neg]
  · exact .error _
  intro htake
  rw [← htake, length_take, length_singleton] at hlength
  omega

theorem parse_spoiled {s rest : List Byte}
    (h : parse depth m s = some (.found v rest)) (hv : ¬ Calm v) (hm : m.Calm) :
    ∃ p q, s = p ++ q ∧ rest.length < q.length ∧ Spoiled m (parse depth m p) := by
  induction depth generalizing m s v rest with
  | zero => simp [parse] at h
  | succ depth ih =>
    cases m with
    | token =>
      obtain ⟨c, tail, hskip, hcase⟩ := token_cases h
      cases hcase with
      | word hfunc hword htext =>
        have hlength := congrArg List.length htext
        have hlong := word_length hword
        rw [length_cons, length_append] at hlength
        obtain ⟨p, hp, hskip'⟩ := @skip_chars_split s [c] tail hskip (by simp)
        refine ⟨p, tail, hp, by omega, ?_⟩
        rw [token_of_skip hskip' hfunc]
        exact word_spoiled hword c
      | string => exact absurd (.string _) hv
      | number hfunc hlength =>
        obtain ⟨x, q, hx, hne, hless, hspoiled⟩ := number_spoiled fun hgradual => hv (.number _ hgradual)
        obtain ⟨c', x', rfl⟩ := exists_cons_of_ne_nil hne
        obtain ⟨p, hp, hskip'⟩ := skip_chars_split (hskip.trans hx) hne
        rw [List.cons_append, List.cons.injEq] at hx
        refine ⟨p, q, hp, hless, ?_⟩
        rw [token_of_skip hskip' (hx.1 ▸ hfunc)]
        exact hspoiled
      | list hfunc htail hloop =>
        obtain ⟨x, q, rfl, hless, hspoiled⟩ := ih hloop hv (by simp [Mode.Calm])
        obtain ⟨p, hp, hskip'⟩ := @skip_chars_split s (c :: x) q hskip (by simp)
        refine ⟨p, q, hp, hless, ?_⟩
        rw [token_of_skip hskip' hfunc, call, tail_cons, if_neg hspoiled.ne_nil, hspoiled.eq_error (by simp)]
        exact .error _
      | object hfunc htail hloop =>
        obtain ⟨x, q, rfl, hless, hspoiled⟩ := ih hloop hv (by simp [Mode.Calm])
        obtain ⟨p, hp, hskip'⟩ := @skip_chars_split s (c :: x) q hskip (by simp)
        refine ⟨p, q, hp, hless, ?_⟩
        rw [token_of_skip hskip' hfunc, call, tail_cons, if_neg hspoiled.ne_nil, hspoiled.eq_error (by simp)]
        exact .error _
    | list items =>
      obtain ⟨-, rfl, -⟩ | ⟨-, -, rfl⟩ | ⟨entry, item, behind, hs, hentry, hitem, hloop⟩ := list_found h
      · exact absurd (.list items hm) hv
      · exact absurd (.list items hm) hv
      by_cases hcalm : Calm item
      · have hitems : (Mode.list (items ++ [item])).Calm := by
          intro other hmem
          rw [mem_append, mem_singleton] at hmem
          obtain hmem | rfl := hmem
          · exact hm other hmem
          · exact hcalm
        obtain ⟨x, q, rfl, hless, hspoiled⟩ := ih hloop hv hitems
        have hq : q ≠ [] := by
          rintro rfl
          simp at hless
        obtain ⟨p, hp, -, hparse⟩ := list_split_behind hentry hitem hspoiled.ne_nil hq hloop
        refine ⟨p, q, hp, hless, ?_⟩
        rw [hparse, hspoiled.eq_error (by simp)]
        exact .error _
      obtain ⟨x, q, rfl, hless, hspoiled⟩ := ih hitem hcalm trivial
      obtain ⟨p, hp, -, hparse⟩ := @list_split_item depth items s x q hentry hspoiled.ne_nil
      have hrest := (parse_suffix hloop).length_le
      refine ⟨p, q, hp, by omega, ?_⟩
      rw [hparse, hspoiled.chain fun item => .list items item]
      exact .error _
    | object pairs =>
      obtain ⟨-, ⟨-, rfl⟩ |
        ⟨entry, key, between, content, item, behind, hentry, -, hkey, hskip, hitem, hnew, hloop⟩⟩ := object_found h
      · exact absurd (.object pairs hm) hv
      by_cases hcalm : Calm item
      · have hitems : (Mode.object (pairs ++ [(key, item)])).Calm := by
          intro other hmem
          rw [mem_append, mem_singleton] at hmem
          obtain hmem | rfl := hmem
          · exact hm other hmem
          · exact hcalm
        obtain ⟨x, q, rfl, hless, hspoiled⟩ := ih hloop hv hitems
        have hq : q ≠ [] := by
          rintro rfl
          simp at hless
        obtain ⟨p, hp, hparse⟩ := object_split_behind hentry hkey hskip hnew hitem hspoiled.ne_nil hq hloop
        refine ⟨p, q, hp, hless, ?_⟩
        rw [hparse, hspoiled.eq_error (by simp)]
        exact .error _
      obtain ⟨x, q, rfl, hless, hspoiled⟩ := ih hitem hcalm trivial
      have hq : q ≠ [] := by
        rintro rfl
        simp at hless
      obtain ⟨p, hp, hparse⟩ := object_split_item hentry hkey hskip hnew hq
      have hrest := (parse_suffix hloop).length_le
      refine ⟨p, q, hp, by omega, ?_⟩
      rw [hparse, hspoiled.chain fun item => .object pairs (key, item)]
      exact .error _

end openvocs.value
