import Openvocs.Http.Bounds

namespace openvocs.http.inside

open checked (get slice place)

variable {t u : List Byte} {way size : Nat} {s : List Byte}

/-- A value is closed: behind each of its line ends up to the last one there is an octet, and when
that is white space, there is one more line end. Where nothing is in front of the first line end
the octets that are left are counted right, and there need not be one. -/
def fold_closed (empty : Bool) : List Byte → Bool
  | [] => true
  | [_] => true
  | c :: d :: t =>
    if c = cr ∧ d = lf then
      match t with
      | [] => false
      | e :: _ => !is_whitespace e || ((seek crlf t).isSome || empty) && fold_closed false t
    else fold_closed false (d :: t)

/-- What is left of a value, or just an empty line. -/
def ValueBounded (t : List Byte) : Prop := t = crlf ∨ fold_closed true t = true

theorem fold_closed_line_end (empty : Bool) (t : List Byte) : fold_closed empty (cr :: lf :: t) =
      match t with
      | [] => false
      | e :: _ => !is_whitespace e || ((seek crlf t).isSome || empty) && fold_closed false t := by
  cases t <;> rfl

theorem fold_closed_skip (empty : Bool) {c d : Byte} (h : ¬ (c = cr ∧ d = lf)) (t : List Byte) :
    fold_closed empty (c :: d :: t) = fold_closed false (d :: t) := by
  cases t <;> exact if_neg h

theorem fold_closed_seek (empty : Bool) (t : List Byte) : fold_closed empty t =
      match seek crlf t with
      | none => true
      | some l => fold_closed (empty && decide (l.length = t.length)) l := by
  induction t generalizing empty with
  | nil => rfl
  | cons c t ih =>
    cases t with
    | nil =>
      have hprefix : ¬ crlf <+: [c] := fun h => absurd h.length_le (by simp [crlf])
      rw [seek_later hprefix]
      rfl
    | cons d t =>
      by_cases hprefix : crlf <+: c :: d :: t
      · rw [seek_here hprefix]
        simp
      have hnot : ¬ (c = cr ∧ d = lf) := by
        rintro ⟨rfl, rfl⟩
        exact hprefix ⟨t, rfl⟩
      rw [seek_later hprefix, fold_closed_skip empty hnot, ih]
      cases hseek : seek crlf (d :: t) with
      | none => rfl
      | some l =>
        have hle := (seek_eq_some hseek).1.length_le
        have hne : ¬ l.length = (c :: d :: t).length := by
          simp only [List.length_cons] at hle ⊢
          omega
        simp only [hne, decide_false, Bool.and_false, Bool.false_and]

theorem string_find_crlf (t : List Byte) (extra : Nat) :
    string_find crlf (t.length + extra) t = if extra = 0 then some (seek crlf t) else (seek crlf t).map some := by
  cases extra with
  | zero => exact string_find_eq cr [lf] t
  | succ extra => exact string_find_more t extra

theorem fold_end_isSome (size extra : Nat) {l : List Byte} (hl : crlf <+: l) (hsize : size = l.length + extra)
    (htwo : 2 < size) : (fold_end size l).isSome = fold_closed (decide (extra = 0)) l := by
  induction size using Nat.strongRecOn generalizing extra l with
  | ind size ih =>
    obtain ⟨y, rfl⟩ := hl
    obtain ⟨size, rfl⟩ : ∃ n, size = n + 3 := ⟨size - 3, by omega⟩
    rw [fold_end, crlf, List.cons_append, List.cons_append, List.nil_append, fold_closed_line_end]
    cases y with
    | nil => rfl
    | cons e y =>
      have hget : get (cr :: lf :: e :: y) 2 = some e := rfl
      have hdrop : (cr :: lf :: e :: y).drop 2 = e :: y := rfl
      have hlength : size + 1 = (e :: y).length + extra := by
        simp only [crlf, List.length_append, List.length_cons, List.length_nil] at hsize ⊢
        omega
      rw [← crlf, hget, Option.bind_some, hdrop, hlength, string_find_crlf]
      cases hblank : is_whitespace e with
      | false => simp [hblank]
      | true =>
        simp only [if_true, hblank, Bool.not_true, Bool.false_or]
        rw [fold_closed_seek false (e :: y)]
        cases hseek : seek crlf (e :: y) with
        | none => by_cases hextra : extra = 0 <;> simp [hextra]
        | some l' =>
          obtain ⟨hsuffix, hprefix⟩ := seek_eq_some hseek
          have hshorter : l'.length < (e :: y).length := by
            refine Nat.lt_of_le_of_ne hsuffix.length_le fun heq => ?_
            have hsame := hsuffix.eq_of_length heq
            rw [hsame, crlf, List.cons_prefix_cons] at hprefix
            rw [← hprefix.1] at hblank
            revert hblank
            decide
          have htwo' : 2 ≤ l'.length := hprefix.length_le
          have hrest := ih ((e :: y).length + extra) (by omega) ((e :: y).length + extra - l'.length) hprefix (by omega)
            (by omega)
          have hextra : ¬ (e :: y).length + extra - l'.length = 0 := by omega
          rw [decide_eq_false hextra] at hrest
          simpa using hrest

theorem fold_end_spec (size : Nat) {l last : List Byte} (hl : crlf <+: l) (h : fold_end size l = some (some last)) :
    last <:+ l ∧ crlf <+: last ∧ ∃ c, get last 2 = some c ∧ is_whitespace c = false := by
  induction size using Nat.strongRecOn generalizing l with
  | ind size ih =>
    match size, h with
    | size + 3, h =>
      rw [fold_end] at h
      obtain ⟨c, hc, h⟩ := Option.bind_eq_some_iff.mp h
      split at h
      · obtain ⟨next, hfind, h⟩ := Option.bind_eq_some_iff.mp h
        cases next with
        | none => cases h
        | some next =>
          obtain ⟨hsuffix, hprefix⟩ := string_find_some hfind
          obtain ⟨hlast, hrest⟩ := ih (size + 1) (by omega) hprefix h
          exact ⟨hlast.trans (hsuffix.trans (List.drop_suffix 2 l)), hrest⟩
      rename_i hblank
      obtain rfl := Option.some.inj (Option.some.inj h)
      exact ⟨List.suffix_rfl, hl, c, hc, by simpa using hblank⟩

theorem trim_end_isSome {start q p : Nat} (hq : is_whitespace (s.getD q 0) = false) (hle : q ≤ p) (hp : p < s.length) :
    ∃ found, trim_end s start p = some found ∧
      ∀ ptr, found = some ptr → ptr < s.length ∧ ∀ j, ptr < j → j ≤ p → is_whitespace (s.getD j 0) = true := by
  induction p with
  | zero =>
    obtain rfl : q = 0 := by omega
    refine ⟨some 0, ?_, ?_⟩
    · rw [trim_end, get_of_lt hp, Option.bind_some, hq]
      rfl
    rintro ptr hptr
    obtain rfl := Option.some.inj hptr
    exact ⟨hp, fun j hj hle => by omega⟩
  | succ p ih =>
    rw [trim_end, get_of_lt hp, Option.bind_some]
    cases hblank : is_whitespace (s.getD (p + 1) 0) with
    | false =>
      refine ⟨some (p + 1), rfl, ?_⟩
      rintro ptr hptr
      obtain rfl := Option.some.inj hptr
      exact ⟨hp, fun j hj hle => by omega⟩
    | true =>
      rw [if_pos rfl]
      by_cases hstart : p = start
      · exact ⟨none, if_pos hstart, fun _ h => by cases h⟩
      have hne : q ≠ p + 1 := by
        rintro rfl
        rw [hq] at hblank
        cases hblank
      obtain ⟨found, hfound, hall⟩ := ih (by omega) (by omega)
      refine ⟨found, by rw [if_neg hstart, hfound], fun ptr hptr => ⟨(hall ptr hptr).1, fun j hj hle => ?_⟩⟩
      by_cases hj' : j = p + 1
      · rw [hj', hblank]
      · exact (hall ptr hptr).2 j hj (by omega)

theorem is_linear_whitespace_isSome (h : 3 ≤ t.length) : (is_linear_whitespace t).isSome = true := by
  rw [is_linear_whitespace, get_of_lt (by omega), Option.bind_some]
  split
  · rfl
  rw [get_of_lt (by omega), Option.bind_some]
  split
  · rfl
  rw [get_of_lt (by omega)]
  rfl

theorem is_text_step (size : Nat) (c : Byte) (t : List Byte) : is_text (size + 1) (c :: t) =
      (if 2 ≤ size then is_linear_whitespace (c :: t) else some false).bind fun linear =>
        if linear then is_text (size - 2) (t.drop 2) else if is_text_item c then is_text size t else some false := by
  match size with
  | 0 | 1 => rfl
  | size + 2 => exact congrArg (fun first => Option.bind first _) (if_pos (by omega)).symm

theorem is_text_isSome (size : Nat) (t : List Byte) (h : size ≤ t.length) : (is_text size t).isSome = true := by
  induction size using Nat.strongRecOn generalizing t with
  | ind size ih =>
    match size, t, h with
    | 0, t, _ => cases t <;> rfl
    | size + 1, c :: t, h =>
      rw [List.length_cons] at h
      have hfirst : (if 2 ≤ size then is_linear_whitespace (c :: t) else some false).isSome = true := by
        split
        · exact is_linear_whitespace_isSome (by rw [List.length_cons]; omega)
        · rfl
      obtain ⟨linear, hlinear⟩ := Option.isSome_iff_exists.mp hfirst
      rw [is_text_step, hlinear, Option.bind_some]
      split
      · exact ih (size - 2) (by omega) (t.drop 2) (by rw [List.length_drop]; omega)
      split
      · exact ih size (by omega) t (by omega)
      · rfl

theorem length_of_linear (h : is_linear_whitespace t = some true) : 3 ≤ t.length := by
  obtain ⟨c, hc, h⟩ := Option.bind_eq_some_iff.mp h
  split at h
  · cases h
  obtain ⟨d, hd, h⟩ := Option.bind_eq_some_iff.mp h
  split at h
  · cases h
  obtain ⟨e, he, -⟩ := Option.map_eq_some_iff.mp h
  by_contra hshort
  rw [get_of_le (by omega)] at he
  cases he

theorem length_of_is_text (size : Nat) (t : List Byte) (h : is_text size t = some true) : size ≤ t.length := by
  induction size using Nat.strongRecOn generalizing t with
  | ind size ih =>
    match size, t, h with
    | 0, _, _ => exact Nat.zero_le _
    | size + 1, c :: t, h =>
      rw [is_text_step] at h
      obtain ⟨linear, hlinear, h⟩ := Option.bind_eq_some_iff.mp h
      rw [List.length_cons]
      split at h
      · rename_i htrue
        split at hlinear
        · have hthree := length_of_linear (htrue ▸ hlinear)
          have hle := ih (size - 2) (by omega) _ h
          rw [List.length_cons] at hthree
          rw [List.length_drop] at hle
          omega
        rw [htrue] at hlinear
        cases hlinear
      split at h
      · have hle := ih size (by omega) t h
        omega
      · cases h

theorem is_text_blank {blank rest : List Byte} {c : Byte} (hblank : ∀ b ∈ blank, is_whitespace b = true)
    (hc : is_whitespace c = false) (size : Nat) :
    (is_text size (blank ++ (crlf ++ c :: rest))).isSome = true := by
  induction blank generalizing size with
  | nil =>
    cases size with
    | zero => rfl
    | succ size =>
      have hlinear : is_linear_whitespace (cr :: lf :: c :: rest) = some false := by
        simp [is_linear_whitespace, checked.get, hc]
      have hitem : is_text_item cr = false := by decide
      rw [List.nil_append, crlf, List.cons_append, List.cons_append, List.nil_append, is_text_step, hlinear]
      simp [hitem]
  | cons b blank ih =>
    cases size with
    | zero => rfl
    | succ size =>
      obtain ⟨hitem, hcr⟩ := is_whitespace_facts b (hblank b (by simp))
      have hlinear : is_linear_whitespace (b :: (blank ++ (crlf ++ c :: rest))) = some false := by
        simp [is_linear_whitespace, checked.get, hcr]
      rw [List.cons_append, is_text_step, hlinear]
      simpa [hitem] using ih (fun b' hb' => hblank b' (List.mem_cons_of_mem b hb')) size

theorem getD_place_add (h : t <:+ s) (i : Nat) : s.getD (place s t + i) 0 = t.getD i 0 := by
  have hdrop := checked.drop_place h
  rw [List.getD_eq_getElem?_getD, List.getD_eq_getElem?_getD]
  conv_rhs => rw [← hdrop, List.getElem?_drop]

theorem header_value_isSome (name : Pointer) {c : Byte} {ptr start last : List Byte} (hc : is_whitespace c = false)
    (hptr : c :: ptr <:+ s) (hstart : start <:+ ptr) (hlast : last <:+ start) (hcrlf : crlf <+: last)
    (hbehind : ∃ e, get last 2 = some e ∧ is_whitespace e = false) :
    (header_value s name start last).isSome = true := by
  have hsuffix : start <:+ s := hstart.trans ((List.suffix_cons c ptr).trans hptr)
  have hcolon : is_whitespace (s.getD (place s (c :: ptr)) 0) = false := by
    rw [← Nat.add_zero (place s (c :: ptr)), getD_place_add hptr]
    exact hc
  have hlengths : place s (c :: ptr) + 1 + ptr.length = s.length ∧ place s start + start.length = s.length ∧
      place s last + last.length = s.length := by
    refine ⟨?_, checked.place_add_length hsuffix, checked.place_add_length (hlast.trans hsuffix)⟩
    rw [Nat.add_assoc, Nat.add_comm 1]
    exact checked.place_add_length hptr
  have hshort := hstart.length_le
  have hshorter := hlast.length_le
  have htwo : 2 ≤ last.length := hcrlf.length_le
  obtain ⟨found, htrim, hfound⟩ := @trim_end_isSome s (place s start) (place s (c :: ptr)) (place s last - 1) hcolon
    (by omega) (by omega)
  rw [header_value, htrim, Option.bind_some]
  cases found with
  | none => rfl
  | some p =>
    obtain ⟨hp, hblank⟩ := hfound p rfl
    simp only [Option.isSome_map]
    by_cases hbefore : place s start ≤ p + 1
    · rw [minus, if_pos hbefore]
      exact is_text_isSome _ start (by omega)
    obtain ⟨before, hbefore'⟩ := hlast
    obtain ⟨rest, hrest⟩ := hcrlf
    obtain ⟨e, he, hnot⟩ := hbehind
    have hcut : start.length = before.length + last.length := by rw [← hbefore', List.length_append]
    cases rest with
    | nil =>
      rw [← hrest] at he
      cases he
    | cons e' rest =>
      obtain rfl : e' = e := by
        rw [← hrest] at he
        exact Option.some.inj he
      rw [← hbefore', ← hrest]
      refine is_text_blank (fun b hb => ?_) hnot _
      obtain ⟨i, hi, rfl⟩ := List.getElem_of_mem hb
      have hall := hblank (place s start + i) (by omega) (by omega)
      rw [getD_place_add hsuffix, ← hbefore', List.getD_eq_getElem?_getD, List.getElem?_append_left hi,
        List.getElem?_eq_getElem hi, Option.getD_some] at hall
      exact hall

/-- Behind the colon there is an octet, and the value is closed. -/
def StartBounded (way : Nat) (ptr : List Byte) : Prop := ptr ≠ [] ∧ ValueBounded (ptr.drop (skipped way ptr))

theorem skipped_lt (hway : 0 < way) (ht : t ≠ []) : skipped way t < t.length := by
  have hpos := List.length_pos_iff.mpr ht
  unfold skipped
  omega

theorem value_bounded_iff {l : List Byte} (hseek : seek crlf t = some l) :
    (fold_end t.length l).isSome = true ↔ ValueBounded t := by
  obtain ⟨hsuffix, hprefix⟩ := seek_eq_some hseek
  have hle := hsuffix.length_le
  have htwo : 2 ≤ l.length := hprefix.length_le
  by_cases hshort : t.length = 2
  · have hl : l = t := hsuffix.eq_of_length (by omega)
    have hcrlf : crlf = l := hprefix.eq_of_length (by
      rw [hl, hshort]
      rfl)
    rw [hshort]
    exact iff_of_true rfl (.inl (hl ▸ hcrlf.symm))
  rw [fold_end_isSome t.length (t.length - l.length) hprefix (by omega) (by omega), ValueBounded,
    fold_closed_seek true t, hseek]
  have hne : t ≠ crlf := by
    rintro rfl
    exact hshort rfl
  have hsame : decide (t.length - l.length = 0) = decide (l.length = t.length) := by
    rw [decide_eq_decide]
    omega
  simp [hne, hsame]

theorem header_start_isSome (max size : Nat) (name : Pointer) (hway : 0 < way) {c : Byte} {ptr : List Byte}
    (hc : is_whitespace c = false) (hptr : c :: ptr <:+ s) :
    (header_start s max size name way ptr).isSome = true ↔ StartBounded way ptr := by
  unfold header_start StartBounded
  rw [skip_whitespace_eq]
  cases hnil : ptr with
  | nil => simp
  | cons d t =>
    rw [← hnil]
    have hne : ptr ≠ [] := by simp [hnil]
    rw [if_pos (skipped_lt hway hne), Option.bind_some,
      show string_find crlf _ _ = _ from string_find_eq cr [lf] _, Option.bind_some, ← crlf]
    simp only [hne, ne_eq, not_false_eq_true, true_and]
    have hstart : ptr.drop (skipped way ptr) <:+ ptr := List.drop_suffix _ _
    generalize ptr.drop (skipped way ptr) = start at hstart ⊢
    cases hseek : seek crlf start with
    | none =>
      have hclosed : ValueBounded start := .inr (by rw [fold_closed_seek, hseek])
      simp only [hclosed, iff_true]
      split <;> rfl
    | some l =>
      rw [← value_bounded_iff hseek]
      obtain ⟨hsuffix, hprefix⟩ := seek_eq_some hseek
      cases hfold : fold_end start.length l with
      | none => simp [hfold]
      | some found =>
        simp only [hfold, Option.bind_some, Option.isSome_some, iff_true]
        cases found with
        | none => rfl
        | some last =>
          obtain ⟨hlast, hcrlf, hbehind⟩ := fold_end_spec start.length hprefix hfold
          exact header_value_isSome name hc hptr hstart (hlast.trans hsuffix) hcrlf hbehind

/-- Behind a name that is accepted, with no line end too far behind, the value is closed. -/
def LineBounded (max : Nat) (t : List Byte) : Prop :=
  Begun t ∧ ∀ name ptr, unspaced t = name ++ colon :: ptr → name ≠ [] → name.all is_token = true →
    (∀ a b, t = a ++ cr :: b → cr ∉ a → max = 0 ∨ a.length ≤ max) → StartBounded (t.length - ptr.length) ptr

theorem line_too_long_iff (max : Nat) (t : List Byte) :
    ((seek [cr] t).any fun lineend => decide (max ≠ 0 ∧ max < t.length - lineend.length)) = true ↔
      ¬ ∀ a b, t = a ++ cr :: b → cr ∉ a → max = 0 ∨ a.length ≤ max := by
  cases hseek : seek [cr] t with
  | none =>
    simp only [Option.any_none, Bool.false_eq_true, false_iff, not_not]
    rintro a b rfl -
    have hbefore := lineend_before_iff (a ++ [cr]) b
    rw [List.append_assoc, List.singleton_append, hseek] at hbefore
    simp at hbefore
  | some l =>
    obtain ⟨⟨front, rfl⟩, rest, rfl⟩ := seek_eq_some hseek
    have hfront : cr ∉ front := by
      intro hmem
      have hbefore := (lineend_before_iff front ([cr] ++ rest)).mpr hmem
      rw [hseek] at hbefore
      simp at hbefore
    have hlength : (front ++ ([cr] ++ rest)).length - ([cr] ++ rest).length = front.length := by
      rw [List.length_append]
      omega
    simp only [hlength, Option.any_some, decide_eq_true_eq]
    constructor
    · intro hlong hall
      have hshort := hall front rest rfl hfront
      omega
    intro hnot
    by_contra hshort
    refine hnot fun a b heq ha => ?_
    obtain ⟨rfl, -⟩ := Byte.split_unique hfront ha heq
    omega

theorem colon_not_mem_of_token {a : List Byte} (h : a.all is_token = true) : colon ∉ a := by
  rw [List.all_eq_true] at h
  exact fun hmem => (is_token_facts _ (h _ hmem)).2.2.2 rfl

theorem begun_of_cr (h : cr ∈ t) : Begun t := by
  rw [begun_iff]
  refine ⟨List.ne_nil_of_mem h, fun c hc => ?_⟩
  rw [hc, List.mem_singleton] at h
  rw [← h]
  decide

theorem parse_header_line_isSome (max : Nat) (ht : t <:+ s) :
    (parse_header_line s max t).isSome = true ↔ LineBounded max t := by
  unfold parse_header_line LineBounded
  rw [string_find_eq, Option.bind_some]
  by_cases hlong : ((seek [cr] t).any fun lineend => decide (max ≠ 0 ∧ max < t.length - lineend.length)) = true
  · have hnot := (line_too_long_iff max t).mp hlong
    have hmem : cr ∈ t := by
      by_contra habsent
      refine hnot fun a b heq _ => absurd ?_ habsent
      rw [heq]
      simp
    simp only [hlong, if_true, Option.isSome_some, true_iff]
    exact ⟨begun_of_cr hmem, fun _ _ _ _ _ hfits => absurd hfits hnot⟩
  have hfits := not_not.mp (mt (line_too_long_iff max t).mpr hlong)
  rw [if_neg hlong]
  by_cases hbegun : Begun t
  · rw [skip_of_begun hbegun, Option.bind_some]
    simp only [hbegun, true_and]
    have hwhole : t.take (skipped 0 t) ++ unspaced t = t := List.take_append_drop _ _
    have hblank := cr_not_mem_skipped 0 t
    generalize t.take (skipped 0 t) = blank at hwhole hblank
    cases hfind : find 58 (unspaced t) with
    | none =>
      have hnot := find_none hfind
      have hall : ∀ name ptr : List Byte, unspaced t ≠ name ++ colon :: ptr := by
        intro name ptr heq
        exact hnot (by simp [heq, colon])
      simp only [hall, false_implies, implies_true, iff_true]
      split
      · rfl
      · split <;> rfl
    | some last =>
      obtain ⟨name, ptr, heq, hcolon, rfl⟩ := find_eq_some hfind
      have heq : unspaced t = name ++ colon :: ptr := heq
      have hlength : (unspaced t).length - ((58 : Byte) :: ptr).length = name.length := by
        rw [heq, List.length_append, List.length_cons, List.length_cons]
        omega
      have htake : (unspaced t).take name.length = name := by rw [heq, List.take_left]
      have hcr : ((seek [cr] t).any fun lineend => decide (((58 : Byte) :: ptr).length < lineend.length)) = true ↔
          cr ∈ name := by
        conv_lhs => rw [← hwhole, heq, ← List.append_assoc]
        refine (lineend_before_iff (blank ++ name) (colon :: ptr)).trans ?_
        rw [List.mem_append]
        simp [hblank]
      have hunique : (∀ name' ptr' : List Byte, unspaced t = name' ++ colon :: ptr' → name' ≠ [] →
          name'.all is_token = true → (∀ a b, t = a ++ cr :: b → cr ∉ a → max = 0 ∨ a.length ≤ max) →
            StartBounded (t.length - ptr'.length) ptr') ↔
          (name ≠ [] → name.all is_token = true → StartBounded (t.length - ptr.length) ptr) := by
        constructor
        · exact fun h hne htoken => h name ptr heq hne htoken hfits
        intro h name' ptr' heq' hne htoken _
        obtain ⟨rfl, rfl⟩ := Byte.split_unique hcolon (colon_not_mem_of_token htoken) (heq.symm.trans heq')
        exact h hne htoken
      have hsuffix : colon :: ptr <:+ s :=
        ((heq ▸ List.suffix_append name (colon :: ptr)).trans (unspaced_suffix t)).trans ht
      rw [hunique]
      simp only [hlength, htake, List.tail_cons]
      by_cases htoken : name ≠ [] ∧ name.all is_token = true
      · have hline := (space_not_mem_of_token htoken.2).2
        have hbad : ¬ (name.length = 0 ∨ name.all is_token = false) := by
          rw [not_or, List.length_eq_zero_iff, Bool.not_eq_false]
          exact htoken
        have hway : 0 < t.length - ptr.length := by
          rw [← hwhole, heq]
          simp only [List.length_append, List.length_cons]
          omega
        rw [if_neg (fun h => hline (hcr.mp h)), if_neg hbad,
          @header_start_isSome _ s max t.length _ hway colon ptr (by decide) hsuffix]
        simp [htoken]
      have hbad : name.length = 0 ∨ name.all is_token = false := by
        rw [List.length_eq_zero_iff, ← Bool.not_eq_true]
        exact Decidable.or_iff_not_imp_left.mpr fun hne htoken' => htoken ⟨hne, htoken'⟩
      refine ⟨fun _ hne htoken' => absurd ⟨hne, htoken'⟩ htoken, fun _ => ?_⟩
      rw [if_pos hbad]
      split <;> rfl
  · rw [skip_of_not_begun hbegun]
    simp [hbegun]

theorem header_value_within {name : Pointer} {start last next : List Byte} {header : Header} (hstart : start <:+ s)
    (h : header_value s name start last = some (.success (header, next))) :
    header.name = name ∧ Within s.length header.value ∧ next <:+ last := by
  obtain ⟨found, htrim, h⟩ := Option.bind_eq_some_iff.mp h
  cases found with
  | none => cases h
  | some p =>
    obtain ⟨text, htext, h⟩ := Option.map_eq_some_iff.mp h
    split at h
    · rename_i htrue
      simp only [Parsed.success.injEq, Prod.mk.injEq] at h
      obtain ⟨rfl, rfl⟩ := h
      have hle := length_of_is_text _ _ (htrue ▸ htext)
      have hwhole := checked.place_add_length hstart
      refine ⟨rfl, ?_, List.drop_suffix 2 last⟩
      simp only [Within]
      omega
    · cases h

theorem parse_header_line_within {max : Nat} {header : Header} {next : List Byte} (ht : t <:+ s)
    (h : parse_header_line s max t = some (.success (header, next))) :
    Within s.length header.name ∧ Within s.length header.value ∧ next <:+ t := by
  obtain ⟨lineend, hlineend, h⟩ := Option.bind_eq_some_iff.mp h
  split at h
  · cases h
  obtain ⟨ptr, hskip, h⟩ := Option.bind_eq_some_iff.mp h
  have hptr := skip_suffix hskip
  split at h
  · split at h
    · cases h
    · split at h <;> cases h
  rename_i last hfind
  have hlast := find_suffix hfind
  simp only at h
  split at h
  · cases h
  split at h
  · cases h
  obtain ⟨start, hstart, h⟩ := Option.bind_eq_some_iff.mp h
  obtain ⟨lineend', hlineend', h⟩ := Option.bind_eq_some_iff.mp h
  have hstart' : start <:+ t := ((skip_suffix hstart).trans ((List.tail_suffix last).trans hlast)).trans hptr
  cases lineend' with
  | none =>
    simp only at h
    split at h <;> cases h
  | some l =>
    obtain ⟨found, hfold, h⟩ := Option.bind_eq_some_iff.mp h
    cases found with
    | none => cases h
    | some last' =>
      obtain ⟨hl, hprefix⟩ := string_find_some hlineend'
      obtain ⟨hlast', -⟩ := fold_end_spec _ hprefix hfold
      obtain ⟨hname, hvalue, hnext⟩ := header_value_within (hstart'.trans ht) h
      exact ⟨hname ▸ within_between hlast (hptr.trans ht), hvalue, hnext.trans (hlast'.trans (hl.trans hstart'))⟩

/-- Every line that is reached behind lines that were read as headers is bounded. -/
def HeaderBounded (s : List Byte) (max : Nat) : Nat → List Byte → Prop
  | 0, _ => True
  | array_size + 1, t =>
    LineBounded max t ∧ ∀ header next, parse_header_line s max t = some (.success (header, next)) →
      HeaderBounded s max array_size next

theorem parse_header_isSome (max array_size : Nat) (ht : t <:+ s) :
    (parse_header s max array_size t).isSome = true ↔ HeaderBounded s max array_size t := by
  induction array_size generalizing t with
  | zero => simp [parse_header, HeaderBounded]
  | succ array_size ih =>
    rw [parse_header, HeaderBounded, ← parse_header_line_isSome max ht]
    cases hline : parse_header_line s max t with
    | none => simp
    | some state =>
      simp only [Option.bind_some, Option.isSome_some, true_and]
      cases state with
      | success value =>
        obtain ⟨header, next⟩ := value
        obtain ⟨-, -, hnext⟩ := parse_header_line_within ht hline
        simp only [Option.isSome_map, ih (hnext.trans ht), Option.some.injEq, Parsed.success.injEq, Prod.mk.injEq]
        exact ⟨fun h _ _ heq => heq.2 ▸ h, fun h => h header next ⟨rfl, rfl⟩⟩
      | progress => simp
      | error | oob =>
        simp only [Option.some.injEq, reduceCtorEq, false_implies, implies_true, iff_true]
        split
        · rfl
        rw [get_of_lt (by omega), Option.bind_some]
        split
        · rfl
        split
        · rw [get_of_lt (by omega), Option.bind_some]
          split <;> rfl
        · rfl

theorem parse_header_within {max array_size : Nat} {headers : List Header} {next : Nat} (ht : t <:+ s)
    (h : parse_header s max array_size t = some (.success (headers, next))) :
    (∀ header ∈ headers, Within s.length header.name ∧ Within s.length header.value) ∧ next ≤ s.length := by
  induction array_size generalizing t headers with
  | zero => cases h
  | succ array_size ih =>
    rw [parse_header] at h
    obtain ⟨state, hline, h⟩ := Option.bind_eq_some_iff.mp h
    cases state with
    | success value =>
      obtain ⟨header, rest⟩ := value
      obtain ⟨hname, hvalue, hrest⟩ := parse_header_line_within ht hline
      obtain ⟨behind, hbehind, h⟩ := Option.map_eq_some_iff.mp h
      cases behind with
      | success value =>
        obtain ⟨headers', next'⟩ := value
        simp only [Parsed.cons, Parsed.success.injEq, Prod.mk.injEq] at h
        obtain ⟨rfl, rfl⟩ := h
        obtain ⟨hall, hnext⟩ := ih (hrest.trans ht) hbehind
        exact ⟨List.forall_mem_cons.mpr ⟨⟨hname, hvalue⟩, hall⟩, hnext⟩
      | error | oob | progress => cases h
    | progress => cases h
    | error | oob =>
      simp only at h
      split at h
      · cases h
      obtain ⟨c, hc, h⟩ := Option.bind_eq_some_iff.mp h
      split at h
      · cases h
      split at h
      · rename_i htwo
        obtain ⟨d, hd, h⟩ := Option.bind_eq_some_iff.mp h
        split at h
        · cases h
        simp only [Option.some.injEq, Parsed.success.injEq, Prod.mk.injEq] at h
        obtain ⟨rfl, rfl⟩ := h
        have hwhole := checked.place_add_length ht
        exact ⟨fun _ hmem => absurd hmem List.not_mem_nil, by omega⟩
      · cases h

/-- A reader looks at nothing but its octets, and what it returns lies inside of them. -/
def Bounded {α : Type} (reader : Option (Parsed α)) (inside : α → Prop) : Prop :=
  ∃ result, reader = some result ∧ ∀ value, result = .success value → inside value

theorem bounded_iff_isSome {α : Type} {reader : Option (Parsed α)} {inside : α → Prop}
    (h : ∀ value, reader = some (.success value) → inside value) : Bounded reader inside ↔ reader.isSome = true := by
  rw [Option.isSome_iff_exists]
  exact ⟨fun ⟨result, hresult, _⟩ => ⟨result, hresult⟩, fun ⟨result, hresult⟩ =>
    ⟨result, hresult, fun value hvalue => h value (hvalue ▸ hresult)⟩⟩

/-- Each of the three readers stays inside of the octets if and only if these are bounded for it. -/
theorem readers_bounded_iff (inet_pton : uri.Family → List Byte → Bool) (max_method_name max array_size : Nat)
    (s : List Byte) :
    (Bounded (parse_status_line s) (fun (status, _, next) => Within s.length status.phrase ∧ next ≤ s.length) ↔
        StatusBounded s) ∧
      (Bounded (parse_request_line s inet_pton max_method_name)
          (fun (request, next) => Within s.length request.method ∧ Within s.length request.uri ∧ next ≤ s.length) ↔
        RequestBounded inet_pton max_method_name s) ∧
      (Bounded (parse_header s max array_size s)
          (fun (headers, next) =>
            (∀ header ∈ headers, Within s.length header.name ∧ Within s.length header.value) ∧ next ≤ s.length) ↔
        HeaderBounded s max array_size s) := by
  refine ⟨?_, ?_, ?_⟩
  · rw [bounded_iff_isSome fun (status, version, next) h => parse_status_line_within h, parse_status_line_isSome]
  · rw [bounded_iff_isSome fun (request, next) h => parse_request_line_within h, parse_request_line_isSome]
  · rw [bounded_iff_isSome fun (headers, next) h => parse_header_within List.suffix_rfl h,
      parse_header_isSome max array_size List.suffix_rfl]

def open_status : List Byte := [72, 84, 84, 80, 47, 49, 46, 49, 32, 50, 48, 48, 32, 79, 75]

def last_header : List Byte := [72, 111, 115, 116, 58, 32, 97, 13, 10]

/-- Both readers look at the octet behind the last one. -/
theorem next_octet_read : (¬ Bounded (parse_status_line open_status) fun (status, _, next) =>
        Within open_status.length status.phrase ∧ next ≤ open_status.length) ∧
      ¬ Bounded (parse_header last_header 0 8 last_header) fun (headers, next) =>
        (∀ header ∈ headers, Within last_header.length header.name ∧ Within last_header.length header.value) ∧
          next ≤ last_header.length := by
  have hstatus : parse_status_line open_status = none := by decide +kernel
  have hheader : parse_header last_header 0 8 last_header = none := by decide +kernel
  constructor
  · rintro ⟨result, hresult, -⟩
    rw [hstatus] at hresult
    cases hresult
  · rintro ⟨result, hresult, -⟩
    rw [hheader] at hresult
    cases hresult

end openvocs.http.inside
