import Mathlib.Data.List.Forall2
import Openvocs.Uri.Parse

open List Option

namespace openvocs.uri

def path_max : Nat := 4096

/-- The segments that a slash follows, and the last one. -/
def segments : List Byte → List (List Byte) × List Byte
  | [] => ([], [])
  | c :: s =>
    let (before, last) := segments s
    if c = slash then ([] :: before, last)
    else
      match before with
      | [] => ([], c :: last)
      | segment :: before => ((c :: segment) :: before, last)

/-- The slash that a path starts with, and what is behind it. -/
def split_root (path : List Byte) : List Byte × List Byte :=
  if path.head? = some slash then ([slash], path.tail) else ([], path)

/-- The buffer for the output, where it is written to, and how many segments can be removed. -/
structure Cleaning where
  out : List Byte
  wptr : Nat
  level : Nat

/-- The loop over the output that removes the previous segment, with the new write position. -/
def remove_previous (out : List Byte) : Nat → List Byte × Nat
  | 0 => (out, 0)
  | i + 1 => if out[i + 1]? = some slash then (out.set (i + 1) 0, i) else remove_previous out i

/-- A round of the loop over the segments that a slash follows. -/
def clean_segment (segment : List Byte) (cleaning : Cleaning) : Option Cleaning :=
  if segment = [] ∨ segment = [dot] then some cleaning
  else if segment = [dot, dot] then
    if cleaning.level = 0 then none
    else
      let (out, wptr) := remove_previous cleaning.out cleaning.wptr
      some ⟨out, wptr, cleaning.level - 1⟩
  else
    some ⟨bytes.overwrite cleaning.out cleaning.wptr (segment ++ [slash]), cleaning.wptr + segment.length + 1,
      cleaning.level + 1⟩

def clean_segments : List (List Byte) → Cleaning → Option Cleaning
  | [], cleaning => some cleaning
  | segment :: rest, cleaning => (clean_segment segment cleaning).bind (clean_segments rest)

/-- `ov_uri_path_remove_dot_segments`, with the buffer afterwards. It is set to zero where the
call fails. -/
def ov_uri_path_remove_dot_segments (path out : List Byte) : Bool × List Byte :=
  if path = [] then (false, bytes.overwrite out 0 (List.replicate path_max 0))
  else
    let (root, rest) := split_root path
    let (before, last) := segments rest
    match clean_segments before ⟨bytes.overwrite out 0 root, root.length, 0⟩ with
    | none => (false, bytes.overwrite out 0 (List.replicate path_max 0))
    | some cleaning => (true, bytes.overwrite cleaning.out cleaning.wptr last)

/-- The segments that are left of some, behind others, each in front of the one before it. -/
def removed : List (List Byte) → List (List Byte) → Option (List (List Byte))
  | [], kept => some kept
  | segment :: rest, kept =>
    if segment = [] ∨ segment = [dot] then removed rest kept
    else if segment = [dot, dot] then
      match kept with
      | [] => none
      | _ :: kept => removed rest kept
    else removed rest (segment :: kept)

/-- Segments with a slash behind each of them. -/
def slashed (kept : List (List Byte)) : List Byte := kept.reverse.flatMap (· ++ [slash])

/-- Segments with a slash between them, and with the slashes at the start and at the end of the path
that they are from. -/
def normal_text (root last : List Byte) (kept : List (List Byte)) : List Byte :=
  root ++ [slash].intercalate kept.reverse ++ if last = [] ∧ kept ≠ [] then [slash] else []

/-- The path without dot segments and empty segments. There is none of an empty path, or if there is
no segment to remove. -/
def normal_path (path : List Byte) : Option (List Byte) :=
  if path = [] then none
  else
    let (root, rest) := split_root path
    let (before, last) := segments rest
    (removed (before ++ [last]) []).map (normal_text root last)

/-- A path is brought to its normal form, or refused where there is none. -/
def Normalises (path : List Byte) : Prop :=
  let result := ov_uri_path_remove_dot_segments path (List.replicate path_max 0)
  match normal_path path with
  | some text => result.1 = true ∧ cstring.of result.2 = text
  | none => result.1 = false

def all_segments (path : List Byte) : List (List Byte) := (segments path).1 ++ [(segments path).2]

/-- No segment of the path is a dot segment. -/
def Dotless (path : List Byte) : Prop := ∀ segment ∈ all_segments path, segment ≠ [dot] ∧ segment ≠ [dot, dot]

/-- The texts in front of the slashes, the last one first, what is behind the last slash, and what
is behind the write position. -/
structure Trail where
  texts : List (List Byte) := []
  part : List Byte := []
  behind : List Byte := []

/-- A segment is written behind the part that is left of the last one that was removed. A segment
that is removed leaves its last octet and a zero in front of all that was left before. -/
def Trail.go (segment : List Byte) (trail : Trail) : Option Trail :=
  if segment = [] ∨ segment = [dot] then some trail
  else if segment = [dot, dot] then
    match trail.texts with
    | [] => none
    | text :: texts => some ⟨texts, text.dropLast, text.getLast?.toList ++ 0 :: (trail.part ++ trail.behind)⟩
  else some ⟨(trail.part ++ segment) :: trail.texts, [], trail.behind.drop (segment.length + 1)⟩

def Trail.along : List (List Byte) → Trail → Option Trail
  | [], trail => some trail
  | segment :: rest, trail => (trail.go segment).bind (Trail.along rest)

/-- Nothing is left of removed segments in front of the last one, nor right behind it. -/
structure Trail.Clean (kept : List (List Byte)) (last : List Byte) (trail : Trail) : Prop where
  texts : trail.texts = kept
  part : trail.part = []
  behind : (trail.behind.drop last.length).head?.getD 0 = 0

/-- The path is refused in front of its last segment, or this is no dot segment and nothing is
left of removed segments. -/
def Tidy (path : List Byte) : Prop :=
  let (before, last) := segments (split_root path).2
  ∀ kept trail, removed before [] = some kept → Trail.along before {} = some trail → path ≠ [] →
    last ≠ [dot] ∧ last ≠ [dot, dot] ∧ trail.Clean kept last

variable {s a b : List Byte} {c : Byte} {segment last : List Byte}

theorem segments_append_slash (ha : slash ∉ a) : segments (a ++ slash :: b) = (a :: (segments b).1, (segments b).2) := by
  induction a with
  | nil => simp only [nil_append, segments, if_true]
  | cons c a ih =>
    obtain ⟨hne, hnot⟩ := not_or.mp (fun hor => ha (mem_cons.mpr hor))
    simp [segments, ih hnot, Ne.symm hne]

theorem segments_of_not_mem (hs : slash ∉ s) : segments s = ([], s) := by
  induction s with
  | nil => rfl
  | cons c s ih =>
    obtain ⟨hne, hnot⟩ := not_or.mp (fun hor => hs (mem_cons.mpr hor))
    simp only [segments, ih hnot, Ne.symm hne, if_false]

theorem slash_cases (s : List Byte) : slash ∉ s ∨ ∃ a b, s = a ++ slash :: b ∧ slash ∉ a := by
  induction s with
  | nil => exact .inl (by simp)
  | cons c s ih =>
    by_cases hc : c = slash
    · exact .inr ⟨[], s, by rw [hc, nil_append], by simp⟩
    obtain hnot | ⟨a, b, rfl, ha⟩ := ih
    · exact .inl (by simp [Ne.symm hc, hnot])
    · exact .inr ⟨c :: a, b, rfl, by simp [Ne.symm hc, ha]⟩

theorem segments_induction {P : List Byte → Prop} (single : ∀ s, slash ∉ s → P s)
    (more : ∀ a b, slash ∉ a → P b → P (a ++ slash :: b)) (s : List Byte) : P s := by
  induction hn : s.length using Nat.strong_induction_on generalizing s with
  | h n ih =>
    obtain hnot | ⟨a, b, rfl, ha⟩ := slash_cases s
    · exact single s hnot
    refine more a b ha (ih b.length ?_ b rfl)
    rw [← hn, length_append, length_cons]
    omega

theorem segments_text (s : List Byte) : (segments s).1.flatMap (· ++ [slash]) ++ (segments s).2 = s := by
  induction s using segments_induction with
  | single s hs => rw [segments_of_not_mem hs, flatMap_nil, nil_append]
  | more a b ha ih =>
    rw [segments_append_slash ha, flatMap_cons, append_assoc, ih, append_assoc]
    rfl

theorem slash_not_mem_segments (s : List Byte) : ∀ segment ∈ all_segments s, slash ∉ segment := by
  induction s using segments_induction with
  | single s hs =>
    rw [all_segments, segments_of_not_mem hs]
    simpa using hs
  | more a b ha ih =>
    rw [all_segments, segments_append_slash ha]
    intro segment hmem
    rw [List.cons_append, mem_cons] at hmem
    obtain rfl | hmem := hmem
    · exact ha
    · exact ih segment hmem

theorem mem_of_mem_segments (hmem : segment ∈ all_segments s) (hc : c ∈ segment) : c ∈ s := by
  rw [all_segments, mem_append, mem_singleton] at hmem
  rw [← segments_text s, mem_append]
  obtain hbefore | rfl := hmem
  · exact .inl (mem_flatMap.mpr ⟨segment, hbefore, mem_append_left _ hc⟩)
  · exact .inr hc

theorem split_root_append (path : List Byte) : (split_root path).1 ++ (split_root path).2 = path := by
  rw [split_root]
  cases path with
  | nil => rfl
  | cons c path =>
    by_cases hc : c = slash
    · simp [hc]
    · simp [hc]

theorem remove_previous_eq (ha : a ≠ []) (hb : slash ∉ b) (k : Nat) :
    remove_previous (a ++ slash :: b) (a.length + k) = (a ++ 0 :: b, a.length - 1) := by
  have hpos := length_pos_iff.mpr ha
  induction k with
  | zero =>
    obtain ⟨n, hn⟩ := Nat.exists_eq_add_of_le' hpos
    have hget : (a ++ slash :: b)[n + 1]? = some slash := by rw [← hn]; simp
    have hset : (a ++ slash :: b).set (n + 1) 0 = a ++ 0 :: b := by rw [← hn]; simp
    rw [Nat.add_zero, hn, remove_previous, if_pos hget, hset, Nat.add_sub_cancel]
  | succ k ih =>
    have hget : (a ++ slash :: b)[a.length + k + 1]? ≠ some slash := by
      rw [getElem?_append_right (by omega), show a.length + k + 1 - a.length = k + 1 by omega, getElem?_cons_succ]
      exact fun hsome => hb (mem_of_getElem? hsome)
    rw [← Nat.add_assoc, remove_previous, if_neg hget, ih]

namespace Trail

variable {root : List Byte} {trail trail' : Trail} {cleaning : Cleaning}

/-- What is in front of the write position. -/
def front (root : List Byte) (trail : Trail) : List Byte := root ++ slashed trail.texts ++ trail.part

structure Sound (trail : Trail) : Prop where
  texts : ∀ text ∈ trail.texts, text ≠ [] ∧ slash ∉ text ∧ 0 ∉ text
  part : slash ∉ trail.part ∧ 0 ∉ trail.part
  behind : slash ∉ trail.behind

/-- The buffer has what the trail says, and zeros behind it. -/
structure Written (root : List Byte) (trail : Trail) (cleaning : Cleaning) : Prop where
  out : ∃ zeros, cleaning.out = trail.front root ++ (trail.behind ++ List.replicate zeros 0)
  wptr : cleaning.wptr = (trail.front root).length
  level : cleaning.level = trail.texts.length

theorem slashed_cons (text : List Byte) (texts : List (List Byte)) :
    slashed (text :: texts) = slashed texts ++ text ++ [slash] := by
  simp [slashed]

theorem Sound.go (h : trail.Sound) (hslash : slash ∉ segment) (hzero : 0 ∉ segment)
    (hgo : trail.go segment = some trail') : trail'.Sound := by
  rw [Trail.go] at hgo
  split at hgo
  · cases hgo
    exact h
  rename_i hplain
  split at hgo
  · cases htexts : trail.texts with
    | nil =>
      rw [htexts] at hgo
      cases hgo
    | cons text texts =>
      rw [htexts] at hgo
      cases hgo
      obtain ⟨hne, hno_slash, hno_zero⟩ := h.texts text (by simp [htexts])
      refine ⟨fun other hother => h.texts other (by simp [htexts, hother]), ?_, ?_⟩
      · exact ⟨fun hmem => hno_slash (mem_of_mem_dropLast hmem), fun hmem => hno_zero (mem_of_mem_dropLast hmem)⟩
      have hlast : slash ∉ text.getLast?.toList := by
        intro hmem
        exact hno_slash (mem_of_getLast? (mem_toList.mp hmem))
      have hne_zero : slash ≠ 0#8 := by decide
      simp [hlast, hne_zero, h.part.1, h.behind]
  cases hgo
  refine ⟨fun text hmem => ?_, by simp, fun hmem => h.behind (mem_of_mem_drop hmem)⟩
  obtain rfl | hmem := mem_cons.mp hmem
  · refine ⟨?_, ?_, ?_⟩
    · simp [(not_or.mp hplain).1]
    · simp [hslash, h.part.1]
    rw [mem_append, not_or]
    exact ⟨h.part.2, hzero⟩
  · exact h.texts text hmem

theorem overwrite_front {front rest octets : List Byte} :
    bytes.overwrite (front ++ rest) front.length octets = front ++ (octets ++ rest.drop octets.length) := by
  rw [bytes.overwrite, take_left, ← drop_drop, drop_left, append_assoc]

theorem drop_behind (behind : List Byte) (zeros n : Nat) :
    ∃ zeros', (behind ++ List.replicate zeros (0 : Byte)).drop n = behind.drop n ++ List.replicate zeros' 0 := by
  refine ⟨zeros - (n - behind.length), ?_⟩
  rw [drop_append, drop_replicate]

theorem Written.go (h : Written root trail cleaning) (hsound : trail.Sound) (segment : List Byte) :
    match trail.go segment with
    | none => clean_segment segment cleaning = none
    | some trail' => ∃ cleaning', clean_segment segment cleaning = some cleaning' ∧ Written root trail' cleaning' := by
  obtain ⟨zeros, hout⟩ := h.out
  by_cases hplain : segment = [] ∨ segment = [dot]
  · rw [Trail.go, if_pos hplain]
    exact ⟨cleaning, if_pos hplain, h⟩
  rw [Trail.go, if_neg hplain, clean_segment, if_neg hplain]
  by_cases hdots : segment = [dot, dot]
  · rw [if_pos hdots, if_pos hdots]
    cases htexts : trail.texts with
    | nil => simp [h.level, htexts]
    | cons text texts =>
      have hlevel : cleaning.level ≠ 0 := by simp [h.level, htexts]
      obtain ⟨hne, hno_slash, hno_zero⟩ := hsound.texts text (by simp [htexts])
      obtain ⟨start, last, rfl⟩ : ∃ start last, text = start ++ [last] :=
        ⟨_, _, (dropLast_append_getLast hne).symm⟩
      have hbefore : root ++ slashed texts ++ (start ++ [last]) ≠ [] := by simp
      have hbehind : slash ∉ trail.part ++ (trail.behind ++ List.replicate zeros 0) := by
        have hne_zero : slash ≠ 0#8 := by decide
        simp [hsound.part.1, hsound.behind, hne_zero]
      have hsplit : cleaning.out =
          (root ++ slashed texts ++ (start ++ [last])) ++ slash :: (trail.part ++ (trail.behind ++ List.replicate zeros 0)) := by
        rw [hout, front, htexts, slashed_cons]
        simp
      have hwptr : cleaning.wptr = (root ++ slashed texts ++ (start ++ [last])).length + (1 + trail.part.length) := by
        rw [h.wptr, front, htexts, slashed_cons]
        simp
        omega
      rw [if_neg hlevel, hsplit, hwptr, remove_previous_eq hbefore hbehind]
      refine ⟨_, rfl, ⟨zeros, ?_⟩, ?_, ?_⟩
      · simp [front]
      · simp [front]
        omega
      · simp [h.level, htexts]
  · rw [if_neg hdots, if_neg hdots]
    refine ⟨_, rfl, ?_, ?_, ?_⟩
    · obtain ⟨zeros', hdrop⟩ := drop_behind trail.behind zeros (segment ++ [slash]).length
      refine ⟨zeros', ?_⟩
      simp only
      rw [hout, h.wptr, overwrite_front, hdrop, front, front, slashed_cons]
      simp
    · simp [h.wptr, front, slashed_cons]
      omega
    · simp [h.level]

theorem Written.along {before : List (List Byte)} (h : Written root trail cleaning) (hsound : trail.Sound)
    (hbefore : ∀ segment ∈ before, slash ∉ segment ∧ 0 ∉ segment) :
    match Trail.along before trail with
    | none => clean_segments before cleaning = none
    | some trail' => trail'.Sound ∧
        ∃ cleaning', clean_segments before cleaning = some cleaning' ∧ Written root trail' cleaning' := by
  induction before generalizing trail cleaning with
  | nil => exact ⟨hsound, cleaning, rfl, h⟩
  | cons segment before ih =>
    obtain ⟨hslash, hzero⟩ := hbefore segment mem_cons_self
    have hstep := h.go hsound segment
    rw [Trail.along, clean_segments]
    cases hgo : trail.go segment with
    | none =>
      rw [hgo] at hstep
      simp [hstep]
    | some next =>
      rw [hgo] at hstep
      obtain ⟨cleaning', hclean, hwritten⟩ := hstep
      rw [hclean, bind_some, bind_some]
      exact ih hwritten (hsound.go hslash hzero hgo) fun other hother => hbefore other (mem_cons_of_mem _ hother)

end Trail

theorem removed_append (before more kept : List (List Byte)) :
    removed (before ++ more) kept = (removed before kept).bind (removed more) := by
  induction before generalizing kept with
  | nil => rfl
  | cons segment before ih =>
    simp only [List.cons_append, removed]
    split
    · exact ih kept
    split
    · cases kept with
      | nil => rfl
      | cons _ kept => exact ih kept
    · exact ih (segment :: kept)

/-- The segments that are kept and the texts of the trail: each text ends in its segment. -/
abbrev EndsIn : List (List Byte) → List (List Byte) → Prop := List.Forall₂ fun segment text => segment <:+ text

theorem trail_removed {trail : Trail} {kept : List (List Byte)} (before : List (List Byte))
    (h : EndsIn kept trail.texts) :
    Option.Rel (fun kept trail => EndsIn kept trail.texts) (removed before kept) (Trail.along before trail) := by
  induction before generalizing kept trail with
  | nil => exact .some h
  | cons segment before ih =>
    by_cases hplain : segment = [] ∨ segment = [dot]
    · simp only [removed, Trail.along, Trail.go, hplain, if_true, bind_some]
      exact ih h
    by_cases hdots : segment = [dot, dot]
    · subst hdots
      simp only [removed, Trail.along, Trail.go, hplain, if_false, if_true]
      cases htexts : trail.texts with
      | nil =>
        rw [htexts] at h
        cases h
        exact .none
      | cons text texts =>
        rw [htexts] at h
        cases h with
        | cons _ hrest => exact ih hrest
    simp only [removed, Trail.along, Trail.go, hplain, hdots, if_false, bind_some]
    exact ih (.cons ⟨_, rfl⟩ h)

theorem length_slashed_le {kept texts : List (List Byte)} (h : EndsIn kept texts) :
    (slashed kept).length ≤ (slashed texts).length := by
  induction h with
  | nil => exact Nat.le_refl _
  | cons hsuffix _ ih =>
    rw [Trail.slashed_cons, Trail.slashed_cons]
    have hle := hsuffix.length_le
    simp only [length_append, length_singleton]
    omega

theorem eq_of_length_slashed {kept texts : List (List Byte)} (h : EndsIn kept texts)
    (hlength : (slashed texts).length ≤ (slashed kept).length) : texts = kept := by
  induction h with
  | nil => rfl
  | cons hsuffix hrest ih =>
    rw [Trail.slashed_cons, Trail.slashed_cons] at hlength
    simp only [length_append, length_singleton] at hlength
    have hle := hsuffix.length_le
    have hrest_le := length_slashed_le hrest
    rw [ih (by omega), hsuffix.eq_of_length (by omega)]

theorem slashed_eq (kept : List (List Byte)) :
    slashed kept = [slash].intercalate kept.reverse ++ if kept ≠ [] then [slash] else [] := by
  suffices h : ∀ l : List (List Byte), l.flatMap (· ++ [slash]) = [slash].intercalate l ++ if l ≠ [] then [slash] else [] by
    simpa [slashed] using h kept.reverse
  intro l
  induction l with
  | nil => rfl
  | cons segment l ih =>
    cases l with
    | nil => simp [List.intercalate]
    | cons next l =>
      rw [flatMap_cons, ih]
      simp [List.intercalate, intersperse_cons_cons]

theorem intercalate_cons (segment : List Byte) (kept : List (List Byte)) :
    [slash].intercalate (segment :: kept).reverse = slashed kept ++ segment := by
  have h := slashed_eq (segment :: kept)
  rw [Trail.slashed_cons, if_pos (cons_ne_nil _ _)] at h
  exact (append_cancel_right h).symm

theorem of_written {root : List Byte} {trail : Trail} {cleaning : Cleaning} (h : Trail.Written root trail cleaning)
    (hsound : trail.Sound) (hroot : 0 ∉ root) (hlast : 0 ∉ last) :
    cstring.of (bytes.overwrite cleaning.out cleaning.wptr last) =
      trail.front root ++ (last ++ cstring.of (trail.behind.drop last.length)) := by
  obtain ⟨zeros, hout⟩ := h.out
  obtain ⟨zeros', hdrop⟩ := Trail.drop_behind trail.behind zeros last.length
  have hfront : 0 ∉ trail.front root := by
    intro hmem
    simp only [Trail.front, slashed, mem_append, mem_flatMap, mem_reverse] at hmem
    obtain (hmem | ⟨text, htext, hmem | hmem⟩) | hmem := hmem
    · exact hroot hmem
    · exact (hsound.texts text htext).2.2 hmem
    · exact absurd (mem_singleton.mp hmem) (by decide)
    · exact hsound.part.2 hmem
  have hzeros : cstring.of (trail.behind.drop last.length ++ List.replicate zeros' 0) =
      cstring.of (trail.behind.drop last.length) := by
    rw [cstring.of, cstring.of, takeWhile_append]
    split
    · rename_i hall
      rw [(takeWhile_eq_self_iff.mpr fun c hc => ?_ : List.takeWhile _ _ = trail.behind.drop last.length)]
      · cases zeros' <;> simp [replicate_succ]
      have heq := (takeWhile_sublist (· ≠ 0) (l := trail.behind.drop last.length)).eq_of_length hall
      rw [← heq] at hc
      have hne := mem_takeWhile_imp hc
      exact hne
    · rfl
  have hskip : ∀ text rest : List Byte, 0 ∉ text → cstring.of (text ++ rest) = text ++ cstring.of rest := by
    intro text rest htext
    rw [cstring.of, takeWhile_append_of_pos fun c hc => ?_]
    · rfl
    simp only [decide_eq_true_eq]
    rintro rfl
    exact htext hc
  rw [hout, h.wptr, Trail.overwrite_front, hdrop, hskip _ _ hfront, hskip _ _ hlast, hzeros]

theorem of_eq_nil_iff (l : List Byte) : cstring.of l = [] ↔ l.head?.getD 0 = 0 := by
  cases l with
  | nil => simp [cstring.of]
  | cons c l =>
    by_cases hc : c = 0
    · simp [cstring.of, hc]
    rw [cstring.of, takeWhile_cons_of_pos (by simpa using hc)]
    simpa using hc

theorem remove_previous_le (out : List Byte) (i : Nat) :
    (remove_previous out i).1.length = out.length ∧ (remove_previous out i).2 ≤ i := by
  induction i with
  | zero => exact ⟨rfl, Nat.le_refl _⟩
  | succ i ih =>
    rw [remove_previous]
    split
    · exact ⟨length_set, Nat.le_succ i⟩
    · exact ⟨ih.1, Nat.le_succ_of_le ih.2⟩

theorem clean_segments_size {before : List (List Byte)} {cleaning cleaning' : Cleaning}
    (h : clean_segments before cleaning = some cleaning') {rest : Nat}
    (hroom : cleaning.wptr + (before.flatMap (· ++ [slash])).length + rest ≤ cleaning.out.length) :
    cleaning'.out.length = cleaning.out.length ∧ cleaning'.wptr + rest ≤ cleaning.out.length := by
  induction before generalizing cleaning with
  | nil =>
    cases h
    exact ⟨rfl, hroom⟩
  | cons segment before ih =>
    rw [clean_segments, bind_eq_some_iff] at h
    obtain ⟨next, hnext, hrest⟩ := h
    rw [flatMap_cons, length_append, length_append, length_singleton] at hroom
    have hstep : next.out.length = cleaning.out.length ∧ next.wptr ≤ cleaning.wptr + segment.length + 1 := by
      rw [clean_segment] at hnext
      split at hnext
      · cases hnext
        exact ⟨rfl, by omega⟩
      split at hnext
      · split at hnext
        · cases hnext
        cases hnext
        have hle := remove_previous_le cleaning.out cleaning.wptr
        exact ⟨hle.1, by simp only; omega⟩
      cases hnext
      exact ⟨bytes.length_overwrite (by rw [length_append, length_singleton]; omega), Nat.le_refl _⟩
    obtain ⟨hlength, hwptr⟩ := ih hrest (by omega)
    exact ⟨hlength.trans hstep.1, by omega⟩

theorem remove_dot_segments_size {path : List Byte} (hpath : path.length < path_max) :
    (ov_uri_path_remove_dot_segments path (List.replicate path_max 0)).2.length = path_max := by
  have hzero : (bytes.overwrite (List.replicate path_max (0 : Byte)) 0 (List.replicate path_max 0)).length = path_max := by
    rw [bytes.length_overwrite (by simp), length_replicate]
  have hlength : (split_root path).1.length + (split_root path).2.length = path.length := by
    rw [← length_append, split_root_append]
  have htext := congrArg List.length (segments_text (split_root path).2)
  rw [length_append] at htext
  have hstart : (bytes.overwrite (List.replicate path_max (0 : Byte)) 0 (split_root path).1).length = path_max := by
    rw [bytes.length_overwrite (by rw [length_replicate]; omega), length_replicate]
  rw [ov_uri_path_remove_dot_segments]
  split
  · exact hzero
  simp only
  split
  · exact hzero
  rename_i cleaning hclean
  have hfits : (split_root path).1.length + ((segments (split_root path).2).1.flatMap (· ++ [slash])).length +
      (segments (split_root path).2).2.length ≤
      (bytes.overwrite (List.replicate path_max (0 : Byte)) 0 (split_root path).1).length := by omega
  obtain ⟨hsame, hroom⟩ := clean_segments_size hclean hfits
  rw [hstart] at hsame hroom
  rw [bytes.length_overwrite (by rw [hsame]; exact hroom), hsame]

theorem zero_not_mem_segments {path : List Byte} (hzero : 0 ∉ path) :
    0 ∉ (split_root path).1 ∧ ∀ segment ∈ all_segments (split_root path).2, slash ∉ segment ∧ 0 ∉ segment := by
  rw [← split_root_append path, mem_append, not_or] at hzero
  refine ⟨hzero.1, fun segment hmem => ⟨slash_not_mem_segments _ segment hmem, fun hin => ?_⟩⟩
  exact hzero.2 (mem_of_mem_segments hmem hin)

theorem start_written (root : List Byte) :
    Trail.Written root {} ⟨bytes.overwrite (List.replicate path_max 0) 0 root, root.length, 0⟩ := by
  refine ⟨⟨path_max - root.length, ?_⟩, ?_, rfl⟩
  · simp [bytes.overwrite, Trail.front, slashed]
  · simp [Trail.front, slashed]

theorem output_eq_iff {root : List Byte} {kept : List (List Byte)} {trail : Trail} (h : EndsIn kept trail.texts) :
    trail.front root ++ (last ++ cstring.of (trail.behind.drop last.length)) = root ++ (slashed kept ++ last) ↔
      trail.Clean kept last := by
  constructor
  · intro heq
    have hlength := congrArg List.length heq
    simp only [Trail.front, length_append] at hlength
    have hle := length_slashed_le h
    refine ⟨eq_of_length_slashed h (by omega), length_eq_zero_iff.mp (by omega), ?_⟩
    exact (of_eq_nil_iff _).mp (length_eq_zero_iff.mp (by omega))
  rintro ⟨htexts, hpart, hbehind⟩
  rw [Trail.front, htexts, hpart, (of_eq_nil_iff _).mpr hbehind]
  simp

theorem last_segment_iff (root : List Byte) {kept : List (List Byte)} {trail : Trail} (h : EndsIn kept trail.texts) :
    (removed [last] kept).map (normal_text root last) =
        some (trail.front root ++ (last ++ cstring.of (trail.behind.drop last.length))) ↔
      last ≠ [dot] ∧ last ≠ [dot, dot] ∧ trail.Clean kept last := by
  have hle := length_slashed_le h
  have hjoined : ∀ kept : List (List Byte), ([slash].intercalate kept.reverse).length ≤ (slashed kept).length := by
    intro kept
    rw [slashed_eq, length_append]
    exact Nat.le_add_right _ _
  -- a dot segment makes the output longer than the normal form
  have hlonger : ∀ kept' : List (List Byte), (slashed kept').length ≤ (slashed kept).length → last ≠ [] →
      normal_text root last kept' ≠ trail.front root ++ (last ++ cstring.of (trail.behind.drop last.length)) := by
    intro kept' hkept' hne heq
    have hlength := congrArg List.length heq
    have hpos := length_pos_iff.mpr hne
    have hless := hjoined kept'
    simp only [normal_text, hne, false_and, if_false, List.append_nil, Trail.front, length_append] at hlength
    omega
  by_cases hnil : last = []
  · have htext : normal_text root last kept = root ++ (slashed kept ++ last) := by
      simp [normal_text, hnil, slashed_eq]
    have hremoved : removed [last] kept = some kept := by simp [removed, hnil]
    rw [hremoved, map_some, htext, some.injEq, eq_comm, output_eq_iff h]
    simp [hnil]
  by_cases hdot : last = [dot]
  · have hremoved : removed [last] kept = some kept := by simp [removed, hdot]
    rw [hremoved, map_some, some.injEq]
    exact ⟨fun heq => absurd heq (hlonger kept (Nat.le_refl _) hnil), fun hand => absurd hdot hand.1⟩
  by_cases hdots : last = [dot, dot]
  · refine ⟨fun heq => ?_, fun hand => absurd hdots hand.2.1⟩
    cases kept with
    | nil => simp [removed, hdots] at heq
    | cons segment kept =>
      have hremoved : removed [last] (segment :: kept) = some kept := by simp [removed, hdots]
      rw [hremoved, map_some, some.injEq] at heq
      refine absurd heq (hlonger kept ?_ hnil)
      rw [Trail.slashed_cons, append_assoc, length_append]
      exact Nat.le_add_right _ _
  have hremoved : removed [last] kept = some (last :: kept) := by simp [removed, hnil, hdot, hdots]
  have htext : normal_text root last (last :: kept) = root ++ (slashed kept ++ last) := by
    rw [normal_text, intercalate_cons]
    simp [hnil]
  rw [hremoved, map_some, htext, some.injEq, eq_comm, output_eq_iff h]
  simp [hdot, hdots]

theorem normalises_iff_tidy {path : List Byte} (hzero : 0 ∉ path) : Normalises path ↔ Tidy path := by
  by_cases hpath : path = []
  · simp [Normalises, Tidy, normal_path, ov_uri_path_remove_dot_segments, hpath]
  obtain ⟨hroot, hsegments⟩ := zero_not_mem_segments hzero
  obtain ⟨before, last, hsplit⟩ : ∃ before last, segments (split_root path).2 = (before, last) := ⟨_, _, rfl⟩
  simp only [all_segments, hsplit, forall_mem_append, forall_mem_singleton] at hsegments
  have hwritten := (start_written (split_root path).1).along ⟨by simp, by simp, by simp⟩ hsegments.1
  have hremoved := @trail_removed {} [] before .nil
  simp only [Normalises, Tidy, normal_path, ov_uri_path_remove_dot_segments, hpath, if_false, hsplit, removed_append]
  cases htrail : Trail.along before {} with
  | none =>
    rw [htrail] at hwritten hremoved
    cases hkept : removed before [] with
    | none => simp only [hwritten, bind_none, map_none, reduceCtorEq, false_implies, implies_true]
    | some kept =>
      rw [hkept] at hremoved
      cases hremoved
  | some trail =>
    rw [htrail] at hwritten hremoved
    cases hkept : removed before [] with
    | none =>
      rw [hkept] at hremoved
      cases hremoved
    | some kept =>
      rw [hkept] at hremoved
      cases hremoved with
      | some hends =>
      obtain ⟨hsound, cleaning, hclean, hwritten⟩ := hwritten
      have hof := of_written hwritten hsound hroot hsegments.2.2
      have hiff := @last_segment_iff last (split_root path).1 kept trail hends
      simp only [hclean, bind_some, hof]
      constructor
      · rintro hnormal _ _ hkept' htrail' -
        cases hkept'
        cases htrail'
        refine hiff.mp ?_
        split at hnormal
        · rename_i htext
          rw [htext, hnormal.2]
        · cases hnormal
      intro htidy
      rw [hiff.mpr (htidy kept trail rfl rfl hpath)]
      exact ⟨trivial, rfl⟩

theorem mem_of_mem_removed {before kept kept' : List (List Byte)} (h : removed before kept = some kept')
    (hmem : segment ∈ kept') : segment ∈ kept ∨ segment ∈ before ∧ segment ≠ [dot] ∧ segment ≠ [dot, dot] := by
  induction before generalizing kept with
  | nil =>
    cases h
    exact .inl hmem
  | cons first before ih =>
    have hlater : segment ∈ before ∧ segment ≠ [dot] ∧ segment ≠ [dot, dot] →
        segment ∈ first :: before ∧ segment ≠ [dot] ∧ segment ≠ [dot, dot] :=
      fun hand => ⟨mem_cons_of_mem _ hand.1, hand.2⟩
    rw [removed.eq_def] at h
    simp only at h
    split at h
    · exact (ih h).imp_right hlater
    rename_i hplain
    split at h
    · cases kept with
      | nil => cases h
      | cons _ kept => exact (ih h).imp (mem_cons_of_mem _) hlater
    rename_i hdots
    obtain hmem | hmem := ih h
    · obtain rfl | hmem := mem_cons.mp hmem
      · exact .inr ⟨mem_cons_self, (not_or.mp hplain).2, hdots⟩
      · exact .inl hmem
    · exact .inr (hlater hmem)

theorem length_removed_le {before kept kept' : List (List Byte)} (h : removed before kept = some kept') :
    (slashed kept').length ≤ (slashed kept).length + (before.flatMap (· ++ [slash])).length := by
  induction before generalizing kept with
  | nil =>
    cases h
    exact Nat.le_add_right _ _
  | cons first before ih =>
    rw [removed.eq_def] at h
    simp only at h
    rw [flatMap_cons, length_append]
    split at h
    · have hle := ih h
      omega
    split at h
    · cases kept with
      | nil => cases h
      | cons segment kept =>
        have hle := ih h
        rw [Trail.slashed_cons, append_assoc, length_append]
        omega
    have hle := ih h
    rw [Trail.slashed_cons, append_assoc, length_append] at hle
    omega

theorem all_segments_slashed {l : List (List Byte)} (hl : ∀ segment ∈ l, slash ∉ segment) (hlast : slash ∉ last) :
    all_segments (l.flatMap (· ++ [slash]) ++ last) = l ++ [last] := by
  induction l with
  | nil => rw [flatMap_nil, nil_append, all_segments, segments_of_not_mem hlast]
  | cons segment l ih =>
    have hrest := ih fun other hother => hl other (mem_cons_of_mem _ hother)
    rw [all_segments] at hrest
    have hshape : (segment :: l).flatMap (· ++ [slash]) ++ last =
        segment ++ slash :: (l.flatMap (· ++ [slash]) ++ last) := by simp
    rw [hshape, all_segments, segments_append_slash (hl segment mem_cons_self), List.cons_append, hrest]
    rfl

theorem mem_segments_normal_text {path : List Byte} {kept : List (List Byte)} (hkept : ∀ segment ∈ kept, slash ∉ segment)
    (hmem : segment ∈ all_segments (normal_text (split_root path).1 last kept)) : segment = [] ∨ segment ∈ kept := by
  obtain ⟨roots, hroots, hroot⟩ : ∃ roots : List (List Byte), (∀ root ∈ roots, root = []) ∧
      (split_root path).1 = roots.flatMap (· ++ [slash]) := by
    rw [split_root]
    split
    · exact ⟨[[]], by simp, rfl⟩
    · exact ⟨[], by simp, rfl⟩
  obtain ⟨l, tail, hl, htail, htext⟩ : ∃ (l : List (List Byte)) (tail : List Byte), (∀ segment ∈ l, segment ∈ kept) ∧ (tail = [] ∨ tail ∈ kept) ∧
      [slash].intercalate kept.reverse ++ (if last = [] ∧ kept ≠ [] then [slash] else []) =
        l.flatMap (· ++ [slash]) ++ tail := by
    cases kept with
    | nil => exact ⟨[], [], by simp, .inl rfl, by simp⟩
    | cons first rest =>
      by_cases hnil : last = []
      · refine ⟨(first :: rest).reverse, [], fun segment hin => mem_reverse.mp hin, .inl rfl, ?_⟩
        rw [List.append_nil, ← slashed, slashed_eq, if_pos ⟨hnil, cons_ne_nil _ _⟩, if_pos (cons_ne_nil _ _)]
      refine ⟨rest.reverse, first, fun segment hin => ?_, .inr mem_cons_self, ?_⟩
      · exact mem_cons_of_mem _ (mem_reverse.mp hin)
      · rw [if_neg fun hand => hnil hand.1, List.append_nil, intercalate_cons, slashed]
  have hclear : ∀ segment ∈ roots ++ l, slash ∉ segment := by
    intro segment hin
    obtain hin | hin := mem_append.mp hin
    · rw [hroots segment hin]
      simp
    · exact hkept segment (hl segment hin)
  have htail_clear : slash ∉ tail := by
    obtain rfl | hin := htail
    · simp
    · exact hkept tail hin
  rw [normal_text, append_assoc, htext, hroot, ← append_assoc, ← flatMap_append,
    all_segments_slashed hclear htail_clear] at hmem
  simp only [mem_append, mem_singleton] at hmem
  obtain (hin | hin) | rfl := hmem
  · exact .inl (hroots segment hin)
  · exact .inr (hl segment hin)
  · exact htail

theorem normal_path_facts {path text : List Byte} (h : normal_path path = some text) :
    text.length ≤ path.length ∧ Dotless text := by
  rw [normal_path] at h
  split at h
  · cases h
  simp only [map_eq_some_iff] at h
  obtain ⟨kept, hkept, rfl⟩ := h
  have hlength := congrArg List.length (segments_text (split_root path).2)
  have hroot := congrArg List.length (split_root_append path)
  rw [length_append] at hlength hroot
  refine ⟨?_, fun segment hmem => ?_⟩
  · have hle := length_removed_le hkept
    have hnone : (slashed []).length = 0 := rfl
    rw [hnone, flatMap_append, length_append] at hle
    have hslashed := congrArg List.length (slashed_eq kept)
    simp only [normal_text, length_append] at hslashed ⊢
    by_cases hnil : (segments (split_root path).2).2 = []
    · rw [removed_append] at hkept
      obtain ⟨kept', hkept', hlast⟩ := bind_eq_some_iff.mp hkept
      have hsame : kept' = kept := by simpa [removed, hnil] using hlast
      have hle := length_removed_le hkept'
      rw [hnone, hsame] at hle
      simp only [hnil, true_and, length_nil] at hlength ⊢
      omega
    simp only [hnil, false_and, if_false, length_nil]
    simp only [flatMap_singleton, length_append, length_singleton] at hle
    by_cases hkept_nil : kept = []
    · simp only [hkept_nil, reverse_nil, List.intercalate, intersperse_nil, flatten_nil, length_nil]
      omega
    simp only [ne_eq, hkept_nil, not_false_eq_true, if_true, length_singleton] at hslashed
    omega
  have hmem_before : ∀ segment ∈ kept, slash ∉ segment ∧ segment ≠ [dot] ∧ segment ≠ [dot, dot] := by
    intro segment hin
    obtain hin | ⟨hin, hne⟩ := mem_of_mem_removed hkept hin
    · cases hin
    · exact ⟨slash_not_mem_segments _ segment hin, hne⟩
  obtain rfl | hin := mem_segments_normal_text (fun segment hin => (hmem_before segment hin).1) hmem
  · simp
  · exact (hmem_before segment hin).2

/-- A path without a zero is brought to its normal form exactly when it is refused in front of its
last segment, or that is no dot segment and nothing is left of removed segments. -/
theorem remove_dot_segments_iff {path : List Byte} (hpath : path.length < path_max) (hzero : 0 ∉ path) :
    (Normalises path ↔ Tidy path) ∧
      (ov_uri_path_remove_dot_segments path (List.replicate path_max 0)).2.length = path_max ∧
      ∀ text, normal_path path = some text → text.length ≤ path.length ∧ Dotless text :=
  ⟨normalises_iff_tidy hzero, remove_dot_segments_size hpath, fun _ => normal_path_facts⟩

/-- The octets of `/a/../b`. -/
theorem remove_dot_segments_short :
    Normalises [47, 97, 47, 46, 46, 47, 98] ∧ normal_path [47, 97, 47, 46, 46, 47, 98] = some [47, 98] := by
  refine ⟨(remove_dot_segments_iff (by decide) (by decide)).1.mpr ?_, by decide⟩
  intro kept trail hkept htrail _
  have hkept' : removed [[97], [46, 46]] [] = some kept := hkept
  have htrail' : Trail.along [[97], [46, 46]] {} = some trail := htrail
  cases hkept'
  cases htrail'
  exact ⟨by decide, by decide, rfl, rfl, rfl⟩

/-- The octets of `/ab/../c` become those of `/ac`, and `/a/..` stays as it is. -/
theorem remove_dot_segments_fails :
    ¬ Normalises [47, 97, 98, 47, 46, 46, 47, 99] ∧ ¬ Normalises [47, 97, 47, 46, 46] := by
  refine ⟨fun h => ?_, fun h => ?_⟩
  · have htidy := (normalises_iff_tidy (by decide)).mp h _ _ rfl rfl (by decide)
    exact absurd htidy.2.2.part (by decide)
  · have htidy := (normalises_iff_tidy (by decide)).mp h _ _ rfl rfl (by decide)
    exact absurd rfl htidy.2.1

end openvocs.uri
