import Openvocs.Http.HeaderLine
import Openvocs.Http.Inside

open List Option

namespace openvocs.http.inside

open checked (get slice place)

variable {t u v : List Byte} {way size : Nat}

/-- The first place at which something stands. -/
def seek (delim : List Byte) : List Byte → Option (List Byte)
  | [] => none
  | c :: t => if delim <+: c :: t then some (c :: t) else seek delim t

variable {c : Byte} {delim : List Byte}

theorem seek_here (h : delim <+: c :: t) : seek delim (c :: t) = some (c :: t) := if_pos h

theorem seek_later (h : ¬ delim <+: c :: t) : seek delim (c :: t) = seek delim t := if_neg h

variable {l : List Byte}

theorem seek_eq_some {delim : List Byte} (h : seek delim t = some l) : l <:+ t ∧ delim <+: l := by
  induction t with
  | nil => cases h
  | cons c t ih =>
    rw [seek] at h
    split at h
    · rename_i hfront
      obtain rfl := some.inj h
      exact ⟨suffix_rfl, hfront⟩
    · exact ⟨(ih h).1.trans (suffix_cons c t), (ih h).2⟩

theorem seek_none_of_short (h : t.length < delim.length) : seek delim t = none := by
  induction t with
  | nil => rfl
  | cons c t ih =>
    rw [length_cons] at h
    rw [seek, if_neg (fun hfront => by
      have hle := hfront.length_le
      rw [length_cons] at hle
      omega), ih (by omega)]

theorem compare_eq (h : delim.length ≤ t.length) : compare delim t = some (decide (delim <+: t)) := by
  induction delim generalizing t with
  | nil => simp [compare]
  | cons d delim ih =>
    cases t with
    | nil => simp at h
    | cons c t =>
      rw [compare]
      by_cases hc : c = d
      · rw [if_pos hc, ih (by simpa using h)]
        simp [cons_prefix_cons, hc]
      · simp [cons_prefix_cons, hc, Ne.symm hc]

theorem prefix_of_compare (h : compare delim t = some true) : delim <+: t := by
  induction delim generalizing t with
  | nil => exact nil_prefix
  | cons d delim ih =>
    cases t with
    | nil => cases h
    | cons c t =>
      rw [compare] at h
      split at h
      · rename_i hc
        exact cons_prefix_cons.mpr ⟨hc.symm, ih h⟩
      · cases h

theorem string_find_eq (d : Byte) (delim t : List Byte) :
    string_find (d :: delim) t.length t = some (seek (d :: delim) t) := by
  induction t with
  | nil => rfl
  | cons c t ih =>
    rw [length_cons, string_find]
    by_cases hc : d = c
    · rw [if_neg (by simpa using hc)]
      by_cases hshort : t.length + 1 < (d :: delim).length
      · rw [if_pos hshort, @seek_none_of_short (c :: t) _ hshort]
      rw [if_neg hshort, compare_eq (by simpa using hshort), bind_some, ih]
      by_cases hfront : d :: delim <+: c :: t
      · rw [seek_here hfront, if_pos (decide_eq_true hfront)]
      · rw [seek_later hfront, if_neg (by simpa using hfront)]
    have hfront : ¬ d :: delim <+: c :: t := fun h => hc (cons_prefix_cons.mp h).1
    rw [if_pos (by simpa using hc), seek_later hfront, ih]

theorem string_find_more (t : List Byte) (k : Nat) :
    string_find crlf (t.length + k + 1) t = (seek crlf t).map some := by
  induction t with
  | nil => rfl
  | cons c t ih =>
    rw [length_cons, string_find, show t.length + 1 + k = t.length + k + 1 by omega]
    by_cases hc : cr = c
    · have hsize : ¬ t.length + k + 1 + 1 < crlf.length := by
        simp only [crlf, length_cons, length_nil]
        omega
      rw [if_neg (by simpa [crlf] using hc), if_neg hsize]
      cases t with
      | nil =>
        have hfront : ¬ crlf <+: [c] := fun h => absurd h.length_le (by simp [crlf])
        rw [seek_later hfront]
        simp [crlf, compare, hc, seek]
      | cons e t =>
        rw [compare_eq (by simp [crlf]), bind_some, ih]
        by_cases hfront : crlf <+: c :: e :: t
        · rw [seek_here hfront, if_pos (decide_eq_true hfront), map_some]
        · rw [seek_later hfront, if_neg (by simpa using hfront)]
    have hfront : ¬ crlf <+: c :: t := fun h => hc (cons_prefix_cons.mp h).1
    rw [if_pos (by simpa [crlf] using hc), seek_later hfront, ih]

theorem string_find_some {delim : List Byte} (h : string_find delim size t = some (some l)) :
    l <:+ t ∧ delim <+: l := by
  induction t generalizing size with
  | nil => cases size <;> cases h
  | cons c t ih =>
    cases size with
    | zero => cases h
    | succ size =>
      rw [string_find] at h
      split at h
      · exact ⟨(ih h).1.trans (suffix_cons c t), (ih h).2⟩
      split at h
      · cases h
      obtain ⟨same, hsame, h⟩ := bind_eq_some_iff.mp h
      split at h
      · rename_i htrue
        obtain rfl := some.inj (some.inj h)
        exact ⟨suffix_rfl, prefix_of_compare (htrue ▸ hsame)⟩
      · exact ⟨(ih h).1.trans (suffix_cons c t), (ih h).2⟩

theorem find_eq_some (h : find c t = some l) :
    ∃ before rest, t = before ++ c :: rest ∧ c ∉ before ∧ l = c :: rest := by
  induction t with
  | nil => cases h
  | cons d t ih =>
    rw [find] at h
    split at h
    · rename_i hd
      exact ⟨[], t, by rw [hd, nil_append], not_mem_nil, by rw [← some.inj h, hd]⟩
    rename_i hd
    obtain ⟨before, rest, rfl, hnot, hl⟩ := ih h
    exact ⟨d :: before, rest, rfl, by simpa [Ne.symm hd] using hnot, hl⟩

/-- How much white space a loop skips: it stops when half of what is left is skipped. -/
def skipped (way : Nat) (t : List Byte) : Nat :=
  min (t.takeWhile is_whitespace).length ((t.length - way + 1) / 2)

theorem skipped_cons (hc : is_whitespace c = true) (hway : way < t.length + 1) :
    skipped way (c :: t) = skipped (way + 1) t + 1 := by
  rw [skipped, takeWhile_cons_of_pos hc, length_cons, length_cons, skipped]
  omega

theorem skipped_stop (h : ¬ (is_whitespace c = true ∧ way < t.length + 1)) : skipped way (c :: t) = 0 := by
  by_cases hc : is_whitespace c = true
  · have hway : ¬ way < t.length + 1 := fun hway => h ⟨hc, hway⟩
    rw [skipped, length_cons]
    omega
  · rw [skipped, takeWhile_cons_of_neg hc, length_nil, Nat.zero_min]

theorem skip_whitespace_eq (way : Nat) (t : List Byte) :
    skip_whitespace way t = if skipped way t < t.length then some (t.drop (skipped way t)) else none := by
  induction t generalizing way with
  | nil => rfl
  | cons c t ih =>
    rw [skip_whitespace, ih, length_cons]
    by_cases h : is_whitespace c = true ∧ way < t.length + 1
    · rw [if_pos h, skipped_cons h.1 h.2, drop_succ_cons]
      by_cases hless : skipped (way + 1) t < t.length
      · rw [if_pos hless, if_pos (Nat.succ_lt_succ hless)]
      · rw [if_neg hless, if_neg (fun hmore => hless (Nat.lt_of_succ_lt_succ hmore))]
    · rw [if_neg h, skipped_stop h, if_pos (Nat.succ_pos _), drop_zero]

theorem get_of_lt {i : Nat} (h : i < t.length) : get t i = some (t.getD i 0) := by
  unfold checked.get
  rw [getD_eq_getElem?_getD, getElem?_eq_getElem h, getD_some]

theorem get_of_le {i : Nat} (h : t.length ≤ i) : get t i = none := getElem?_eq_none h

/-- The number of the version begins behind `HTTP/`, with one digit for each part. -/
def VersionAt (u : List Byte) : Prop :=
  8 ≤ u.length ∧ is_http_slash (u.take 5) = true ∧ cstring.is_digit (u.getD 5 0) = true ∧ u.getD 6 0 = 46 ∧
    cstring.is_digit (u.getD 7 0) = true

/-- Behind white space that was skipped the octets end in front of the point, although there would
be enough of them without the white space. -/
def BreaksOff (t u : List Byte) : Prop :=
  is_http_slash (u.take 5) = true ∧
    (u.length < 6 ∧ 6 ≤ t.length ∨ u.length = 6 ∧ 7 ≤ t.length ∧ cstring.is_digit (u.getD 5 0) = true)

/-- What is left behind the white space in front. -/
def unspaced (t : List Byte) : List Byte := t.drop (skipped 0 t)

/-- There is something other than a single white space. -/
def Begun (t : List Byte) : Prop := skipped 0 t < t.length

theorem begun_iff : Begun t ↔ t ≠ [] ∧ ∀ c, t = [c] → is_whitespace c = false := by
  unfold Begun skipped
  cases t with
  | nil => simp
  | cons c t =>
    cases t with
    | nil =>
      cases hc : is_whitespace c <;> simp [List.takeWhile, hc]
    | cons d t =>
      simp only [length_cons]
      constructor
      · exact fun _ => ⟨by simp, fun e he => by simp at he⟩
      intro _
      omega

def VersionBounded (t : List Byte) : Prop := t = [] ∨ Begun t ∧ ¬ BreaksOff t (unspaced t)

theorem skip_of_begun (h : Begun t) : skip_whitespace 0 t = some (unspaced t) := by
  rw [skip_whitespace_eq]
  exact if_pos h

theorem skip_of_not_begun (h : ¬ Begun t) : skip_whitespace 0 t = none := by
  rw [skip_whitespace_eq]
  exact if_neg h

theorem length_unspaced (t : List Byte) : (unspaced t).length = t.length - skipped 0 t := length_drop

theorem slice_word (u : List Byte) : slice u 0 (if u.length < 5 then u.length else 5) = some (u.take 5) := by
  by_cases h : u.length < 5
  · rw [if_pos h, slice, if_pos (by omega), drop_zero, take_length, take_of_length_le (by omega)]
  · rw [if_neg h, slice, if_pos (by omega), drop_zero]

theorem parse_version_isSome (t : List Byte) : (parse_version t).isSome = true ↔ VersionBounded t := by
  unfold parse_version VersionBounded
  cases t with
  | nil => simp
  | cons c t =>
    rw [if_neg (by simp)]
    by_cases hbegun : Begun (c :: t)
    · rw [skip_of_begun hbegun, bind_some, slice_word, bind_some]
      have hlength := length_unspaced (c :: t)
      generalize unspaced (c :: t) = u at hlength ⊢
      simp only [reduceCtorEq, false_or, hbegun, true_and, BreaksOff, length_cons] at hlength ⊢
      by_cases hword : is_http_slash (u.take 5) = true
      · simp only [hword, Bool.not_true, Bool.false_eq_true, if_false, true_and]
        by_cases hsix : t.length + 1 < 6
        · rw [if_pos hsix]
          simp only [isSome_some, true_iff]
          omega
        rw [if_neg hsix]
        by_cases hfive : u.length < 6
        · rw [get_of_le (by omega)]
          simp only [bind_none, isSome_none, Bool.false_eq_true, false_iff]
          omega
        rw [get_of_lt (by omega), bind_some]
        cases hdigit : cstring.is_digit (u.getD 5 0) with
        | false =>
          simp only [Bool.not_false, if_true, isSome_some, true_iff, Bool.false_eq_true, and_false, or_false]
          omega
        | true =>
          simp only [Bool.not_true, Bool.false_eq_true, if_false, and_true]
          by_cases hseven : t.length + 1 < 7
          · rw [if_pos hseven]
            simp only [isSome_some, true_iff]
            omega
          rw [if_neg hseven]
          by_cases hdot : u.length < 7
          · rw [get_of_le (by omega)]
            simp only [bind_none, isSome_none, Bool.false_eq_true, false_iff]
            omega
          rw [get_of_lt (by omega), bind_some]
          have hnot : ¬ (u.length < 6 ∧ 6 ≤ t.length + 1 ∨ u.length = 6 ∧ 7 ≤ t.length + 1) := by omega
          simp only [hnot, not_false_eq_true, iff_true]
          split
          · rfl
          split
          · rfl
          rw [get_of_lt (by omega), bind_some]
          split <;> rfl
      · simp [hword]
    · rw [skip_of_not_begun hbegun]
      simp [hbegun]

theorem parse_version_success_iff (t : List Byte) :
    (∃ version, parse_version t = some (.success version)) ↔ Begun t ∧ VersionAt (unspaced t) := by
  unfold parse_version VersionAt
  cases t with
  | nil => simp [Begun, skipped]
  | cons c t =>
    rw [if_neg (by simp)]
    by_cases hbegun : Begun (c :: t)
    · rw [skip_of_begun hbegun, bind_some, slice_word, bind_some]
      have hlength := length_unspaced (c :: t)
      generalize unspaced (c :: t) = u at hlength ⊢
      simp only [hbegun, true_and, length_cons] at hlength ⊢
      constructor
      · rintro ⟨version, h⟩
        split at h
        · simp at h
        rename_i hword
        split at h
        · simp at h
        obtain ⟨major, hmajor, h⟩ := bind_eq_some_iff.mp h
        split at h
        · simp at h
        rename_i hdigit
        split at h
        · simp at h
        obtain ⟨dot, hdot, h⟩ := bind_eq_some_iff.mp h
        split at h
        · simp at h
        rename_i hpoint
        split at h
        · simp at h
        rename_i height
        obtain ⟨minor, hminor, h⟩ := bind_eq_some_iff.mp h
        split at h
        · simp at h
        rename_i hlast
        rw [get_of_lt (by omega), some.injEq] at hmajor hdot hminor
        refine ⟨by omega, by simpa using hword, ?_, ?_, ?_⟩
        · rw [hmajor]
          simpa using hdigit
        · rw [hdot]
          simpa using hpoint
        rw [hminor]
        simpa using hlast
      · rintro ⟨height, hword, hmajor, hdot, hminor⟩
        have hnot : ¬ t.length + 1 < 6 ∧ ¬ t.length + 1 < 7 ∧ ¬ u.length < 8 := by omega
        have hfive : get u 5 = some (u.getD 5 0) := get_of_lt (by omega)
        have hsix : get u 6 = some (u.getD 6 0) := get_of_lt (by omega)
        have hseven : get u 7 = some (u.getD 7 0) := get_of_lt (by omega)
        simp only [hword, hnot, hfive, hsix, hseven, bind_some, hmajor, hdot, hminor, Bool.not_true,
          Bool.false_eq_true, if_false, not_true_eq_false, ne_eq]
        exact ⟨_, rfl⟩
    · rw [skip_of_not_begun hbegun]
      simp [hbegun]

theorem seek_isSome_iff (t : List Byte) : (seek crlf t).isSome = true ↔ crlf <:+: t := by
  induction t with
  | nil => simp [seek, crlf]
  | cons c t ih =>
    rw [infix_cons_iff]
    by_cases hfront : crlf <+: c :: t
    · simp [seek_here hfront, hfront]
    rw [seek_later hfront, ih]
    simp [hfront]

theorem slice_some {i n : Nat} (h : i + n ≤ t.length) : slice t i n = some ((t.drop i).take n) := if_pos h

/-- What stands in front of the phrase is a version and a code of three digits. -/
def StatusLead (t : List Byte) : Prop :=
  14 ≤ t.length ∧ (Begun t ∧ VersionAt (unspaced t)) ∧ t.getD 8 0 = space ∧
    ((t.drop 9).take 3).all cstring.is_digit = true ∧ t.getD 12 0 = space

/-- There is a version, and a phrase has its line end. -/
def StatusBounded (s : List Byte) : Prop :=
  Begun s ∧ VersionBounded (unspaced s) ∧ (StatusLead (unspaced s) → crlf <:+: (unspaced s).drop 13)

theorem unspaced_suffix (t : List Byte) : unspaced t <:+ t := drop_suffix _ _

variable {s : List Byte}

theorem status_phrase_isSome (version : Version) (ht : 14 ≤ t.length) :
    (status_phrase s version t).isSome = true ↔ crlf <:+: t.drop 13 := by
  have hsize : t.length - 13 + 1 = (t.drop 13).length + 0 + 1 := by rw [length_drop, Nat.add_zero]
  rw [status_phrase, hsize, string_find_more (t.drop 13) 0, ← seek_isSome_iff]
  cases hseek : seek crlf (t.drop 13) with
  | none => rfl
  | some last =>
    simp only [map_some, bind_some, isSome_some, iff_true]
    split
    · rfl
    rw [slice_some (by omega), bind_some]
    split
    · rfl
    rw [slice_some (by omega)]
    rfl

theorem status_code_isSome (version : Version) (hlead : Begun t ∧ VersionAt (unspaced t)) :
    (status_code s version t).isSome = true ↔ (StatusLead t → crlf <:+: t.drop 13) := by
  have height : 8 ≤ t.length := Nat.le_trans hlead.2.1 (unspaced_suffix t).length_le
  unfold status_code StatusLead
  by_cases h8 : t.length = 8
  · rw [if_pos h8]
    simp only [isSome_some, true_iff]
    omega
  rw [if_neg h8, get_of_lt (by omega), bind_some]
  by_cases hspace : t.getD 8 0 = space
  · rw [if_neg (not_not.mpr hspace)]
    by_cases h9 : t.length = 9
    · rw [if_pos h9]
      simp only [isSome_some, true_iff]
      omega
    rw [if_neg h9, slice_some (by split <;> omega), bind_some]
    by_cases hshort : t.length < 13
    · have hnot : ¬ 14 ≤ t.length := by omega
      simp only [hshort, if_true, hnot, false_and, false_implies, iff_true]
      split
      all_goals
        split <;> rfl
    rw [if_neg (by omega : ¬ t.length - 9 < 3), if_neg hshort]
    by_cases hdigits : ((t.drop 9).take 3).all cstring.is_digit = true
    · rw [hdigits, if_neg (by simp), get_of_lt (by omega), bind_some]
      by_cases hspace' : t.getD 12 0 = space
      · rw [if_neg (not_not.mpr hspace')]
        by_cases h13 : t.length = 13
        · rw [if_pos h13]
          simp only [isSome_some, true_iff]
          omega
        have h14 : 14 ≤ t.length := by omega
        rw [if_neg h13, status_phrase_isSome version h14]
        simp only [h14, hlead, hspace, hspace', true_implies, and_self]
      rw [if_pos hspace']
      simp only [hspace', and_false, false_implies, isSome_some]
    · simp [hdigits]
  · rw [if_pos hspace]
    simp only [hspace, false_and, and_false, false_implies, isSome_some]

theorem parse_status_line_isSome (s : List Byte) : (parse_status_line s).isSome = true ↔ StatusBounded s := by
  unfold parse_status_line StatusBounded
  by_cases hbegun : Begun s
  · rw [skip_of_begun hbegun, bind_some]
    simp only [hbegun, true_and]
    cases hversion : parse_version (unspaced s) with
    | none =>
      have hnot := mt (parse_version_isSome (unspaced s)).mpr (by simp [hversion])
      simp [hnot]
    | some state =>
      have hbounded := (parse_version_isSome (unspaced s)).mp (by simp [hversion])
      rw [bind_some]
      simp only [hbounded, true_and]
      by_cases hlead : Begun (unspaced s) ∧ VersionAt (unspaced (unspaced s))
      · obtain ⟨version, hsuccess⟩ := (parse_version_success_iff (unspaced s)).mpr hlead
        obtain rfl := some.inj (hversion.symm.trans hsuccess)
        exact status_code_isSome version hlead
      have hstatus : ¬ StatusLead (unspaced s) := fun h => hlead h.2.1
      cases state with
      | success version => exact absurd ((parse_version_success_iff _).mp ⟨version, hversion⟩) hlead
      | error | oob | progress => simp [hstatus]
  rw [skip_of_not_begun hbegun]
  simp [hbegun]

/-- A range inside of the first octets. -/
def Within (n : Nat) (pointer : Pointer) : Prop := pointer.start + pointer.length ≤ n

theorem place_le_of_prefix {delim : List Byte} (hl : l <:+ s) (hdelim : delim <+: l) :
    place s l + delim.length ≤ s.length := by
  have hwhole := checked.place_add_length hl
  have hle := hdelim.length_le
  omega

theorem skip_suffix (h : skip_whitespace way t = some u) : u <:+ t := by
  rw [skip_whitespace_eq] at h
  split at h
  · obtain rfl := some.inj h
    exact drop_suffix _ _
  · cases h

theorem within_between (hu : u <:+ t) (ht : t <:+ s) : Within s.length ⟨place s t, t.length - u.length⟩ := by
  have hwhole := checked.place_add_length ht
  have hle := hu.length_le
  simp only [Within]
  omega

theorem status_phrase_within {status : Status} {version version' : Version} {next : Nat} (ht : t <:+ s)
    (h : status_phrase s version t = some (.success (status, version', next))) :
    Within s.length status.phrase ∧ next ≤ s.length := by
  obtain ⟨last, hfind, h⟩ := bind_eq_some_iff.mp h
  have hstart : t.drop 13 <:+ s := (drop_suffix 13 t).trans ht
  have hlast : ∀ l, last = some l → l <:+ t.drop 13 ∧ crlf <+: l := by
    rintro l rfl
    by_cases hsize : 13 ≤ t.length
    · rw [show t.length - 13 + 1 = (t.drop 13).length + 0 + 1 by rw [length_drop, Nat.add_zero],
        string_find_more (t.drop 13) 0, map_eq_some_iff] at hfind
      obtain ⟨l', hseek, hl⟩ := hfind
      exact some.inj hl ▸ seek_eq_some hseek
    rw [drop_eq_nil_of_le (by omega)] at hfind
    cases hfind
  cases last with
  | none => cases h
  | some last =>
    obtain ⟨hsuffix, hfront⟩ := hlast last rfl
    simp only at h
    split at h
    · cases h
    obtain ⟨phrase, hphrase, h⟩ := bind_eq_some_iff.mp h
    split at h
    · cases h
    obtain ⟨code, hcode, h⟩ := map_eq_some_iff.mp h
    simp only [Parsed.success.injEq, Prod.mk.injEq] at h
    obtain ⟨rfl, rfl, rfl⟩ := h
    exact ⟨within_between hsuffix hstart, place_le_of_prefix (hsuffix.trans hstart) hfront⟩

theorem status_code_within {status : Status} {version version' : Version} {next : Nat} (ht : t <:+ s)
    (h : status_code s version t = some (.success (status, version', next))) :
    Within s.length status.phrase ∧ next ≤ s.length := by
  unfold status_code at h
  split at h
  · cases h
  obtain ⟨c, hc, h⟩ := bind_eq_some_iff.mp h
  split at h
  · cases h
  split at h
  · cases h
  obtain ⟨digits, hdigits, h⟩ := bind_eq_some_iff.mp h
  split at h
  · cases h
  split at h
  · cases h
  obtain ⟨c', hc', h⟩ := bind_eq_some_iff.mp h
  split at h
  · cases h
  split at h
  · cases h
  · exact status_phrase_within ht h

theorem parse_status_line_within {status : Status} {version : Version} {next : Nat}
    (h : parse_status_line s = some (.success (status, version, next))) :
    Within s.length status.phrase ∧ next ≤ s.length := by
  obtain ⟨ptr, hskip, h⟩ := bind_eq_some_iff.mp h
  obtain ⟨state, hstate, h⟩ := bind_eq_some_iff.mp h
  cases state with
  | success version' => exact status_code_within (skip_suffix hskip) h
  | error | oob | progress => cases h

theorem lineend_before_iff (a b : List Byte) :
    ((seek [cr] (a ++ b)).any fun lineend => decide (b.length < lineend.length)) = true ↔ cr ∈ a := by
  induction a with
  | nil =>
    simp only [nil_append, not_mem_nil, iff_false, Bool.not_eq_true, any_eq_false_iff_get, decide_eq_false_iff_not]
    intro hsome
    have hle := (seek_eq_some (some_get hsome).symm).1.length_le
    omega
  | cons c a ih =>
    rw [List.cons_append, mem_cons]
    by_cases hc : cr = c
    · have hfront : [cr] <+: c :: (a ++ b) := ⟨a ++ b, by rw [hc]; rfl⟩
      rw [seek_here hfront]
      simp only [hc, any_some, length_cons, length_append, true_or, iff_true, decide_eq_true_eq]
      omega
    have hfront : ¬ [cr] <+: c :: (a ++ b) := fun h => hc (cons_prefix_cons.mp h).1
    rw [seek_later hfront, ih]
    simp [hc]

variable {inet_pton : uri.Family → List Byte → Bool}

theorem request_version_isSome (method target : Pointer) (t : List Byte) :
    (request_version s method target t).isSome = true ↔ VersionBounded t := by
  unfold request_version
  cases t with
  | nil => simp [VersionBounded]
  | cons c t =>
    rw [if_neg (by simp), ← parse_version_isSome]
    cases hversion : parse_version (c :: t) with
    | none => simp
    | some state =>
      simp only [bind_some, isSome_some, iff_true]
      cases state with
      | error | oob | progress => rfl
      | success version =>
        simp only
        split
        · rfl
        rw [get_of_lt (by omega), bind_some]
        split
        · rfl
        rw [get_of_lt (by omega), bind_some]
        split <;> rfl

/-- Behind a URI that is accepted, with no line end in front of its end, the version is there. -/
def UriBounded (inet_pton : uri.Family → List Byte → Bool) (t : List Byte) : Prop :=
  ∀ target v, t = target ++ space :: v → space ∉ target → target.length ≤ path_max → cr ∉ target →
    uri.ov_uri_string_is_valid inet_pton target = true → VersionBounded v

theorem find_none (h : find c t = none) : c ∉ t := by
  induction t with
  | nil => exact not_mem_nil
  | cons d t ih =>
    rw [find] at h
    split at h
    · cases h
    rename_i hd
    simpa [Ne.symm hd] using ih h

theorem request_uri_isSome {front : List Byte} (hfront : cr ∉ front) (hs : s = front ++ t) (method : Pointer) :
    (request_uri s inet_pton (seek [cr] s) method t).isSome = true ↔ UriBounded inet_pton t := by
  unfold request_uri UriBounded
  cases hfind : find space t with
  | none =>
    have hnot := find_none hfind
    have hall : ∀ target v : List Byte, t ≠ target ++ space :: v := by
      rintro target v rfl
      exact hnot (by simp)
    simp only [hall, false_implies, implies_true, iff_true]
    split
    · rfl
    split
    · rfl
    · split <;> rfl
  | some last =>
    obtain ⟨target, v, rfl, hspace, rfl⟩ := find_eq_some hfind
    have hlength : (target ++ space :: v).length - (space :: v).length = target.length := by
      rw [length_append]
      omega
    have hpositive : ¬ (target ++ space :: v).length < 1 := by
      rw [length_append, length_cons]
      omega
    have hcr : ((seek [cr] s).any fun lineend => decide ((space :: v).length < lineend.length)) = true ↔ cr ∈ target := by
      rw [hs, ← append_assoc, lineend_before_iff, mem_append]
      simp [hfront]
    have hunique : (∀ target' v' : List Byte, target ++ space :: v = target' ++ space :: v' → space ∉ target' →
        target'.length ≤ path_max → cr ∉ target' → uri.ov_uri_string_is_valid inet_pton target' = true →
          VersionBounded v') ↔
        (target.length ≤ path_max → cr ∉ target → uri.ov_uri_string_is_valid inet_pton target = true →
          VersionBounded v) := by
      constructor
      · exact fun h => h target v rfl hspace
      intro h target' v' heq hspace'
      obtain ⟨rfl, rfl⟩ := Byte.split_unique hspace hspace' heq
      exact h
    rw [hunique, if_neg hpositive]
    simp only [hlength, take_left, tail_cons]
    by_cases hlong : path_max < target.length
    · rw [if_pos hlong]
      simp only [isSome_some, true_iff]
      omega
    rw [if_neg hlong]
    by_cases hline : cr ∈ target
    · rw [if_pos (hcr.mpr hline)]
      simp [hline]
    rw [if_neg (fun h => hline (hcr.mp h))]
    cases hvalid : uri.ov_uri_string_is_valid inet_pton target with
    | false => simp
    | true =>
      simp only [Bool.not_true, Bool.false_eq_true, if_false, request_version_isSome]
      simp [Nat.le_of_not_lt hlong, hline]

/-- Behind a method and a URI that are accepted, with no line end in front of their ends, the
version is there. -/
def RequestBounded (inet_pton : uri.Family → List Byte → Bool) (max_method_name : Nat) (s : List Byte) : Prop :=
  Begun s ∧ ∀ method t, unspaced s = method ++ space :: t → method ≠ [] → method.all is_token = true →
    (max_method_name = 0 ∨ method.length ≤ max_method_name) → UriBounded inet_pton t

theorem space_not_mem_of_token {a : List Byte} (h : a.all is_token = true) : space ∉ a ∧ cr ∉ a := by
  rw [List.all_eq_true] at h
  exact ⟨fun hmem => (is_token_facts _ (h _ hmem)).2.1 rfl, fun hmem => (is_token_facts _ (h _ hmem)).2.2.1 rfl⟩

theorem cr_not_mem_skipped (way : Nat) (t : List Byte) : cr ∉ t.take (skipped way t) := by
  intro hmem
  have htake : t.take (skipped way t) <+: t.takeWhile is_whitespace :=
    prefix_of_prefix_length_le ( take_prefix _ _) ( takeWhile_prefix _) (by
      rw [length_take, skipped]
      omega)
  have hblank := mem_takeWhile_imp (htake.subset hmem)
  revert hblank
  decide

theorem parse_request_line_isSome (inet_pton : uri.Family → List Byte → Bool) (max_method_name : Nat) (s : List Byte) :
    (parse_request_line s inet_pton max_method_name).isSome = true ↔ RequestBounded inet_pton max_method_name s := by
  unfold parse_request_line RequestBounded
  rw [string_find_eq, bind_some]
  by_cases hbegun : Begun s
  · rw [skip_of_begun hbegun, bind_some]
    simp only [hbegun, true_and]
    have hwhole : s.take (skipped 0 s) ++ unspaced s = s := take_append_drop _ _
    have hblank := cr_not_mem_skipped 0 s
    generalize s.take (skipped 0 s) = blank at hwhole hblank
    cases hfind : find space (unspaced s) with
    | none =>
      have hnot := find_none hfind
      have hall : ∀ method t : List Byte, unspaced s ≠ method ++ space :: t := by
        intro method t heq
        exact hnot (by simp [heq])
      simp only [hall, false_implies, implies_true, iff_true]
      split
      · rfl
      · split <;> rfl
    | some last =>
      obtain ⟨method, t, heq, hspace, rfl⟩ := find_eq_some hfind
      have hlength : (unspaced s).length - (space :: t).length = method.length := by
        rw [heq, length_append]
        omega
      have htake : (unspaced s).take method.length = method := by rw [heq, take_left]
      have hcr : ((seek [cr] s).any fun lineend => decide ((space :: t).length < lineend.length)) = true ↔
          cr ∈ method := by
        conv_lhs => rw [← hwhole, heq, ← append_assoc]
        rw [lineend_before_iff, mem_append]
        simp [hblank]
      have hunique : (∀ method' t' : List Byte, unspaced s = method' ++ space :: t' → method' ≠ [] →
          method'.all is_token = true → (max_method_name = 0 ∨ method'.length ≤ max_method_name) →
            UriBounded inet_pton t') ↔
          (method ≠ [] → method.all is_token = true → (max_method_name = 0 ∨ method.length ≤ max_method_name) →
            UriBounded inet_pton t) := by
        constructor
        · exact fun h => h method t heq
        intro h method' t' heq' hne htoken
        obtain ⟨rfl, rfl⟩ := Byte.split_unique hspace (space_not_mem_of_token htoken).1 (heq.symm.trans heq')
        exact h hne htoken
      rw [hunique]
      simp only [hlength, htake, tail_cons]
      by_cases hmax : max_method_name ≠ 0 ∧ max_method_name < method.length
      · rw [if_pos hmax]
        simp only [isSome_some, true_iff]
        omega
      rw [if_neg hmax]
      by_cases htoken : method ≠ [] ∧ method.all is_token = true
      · have hline := (space_not_mem_of_token htoken.2).2
        have hbad : ¬ (method.length = 0 ∨ method.all is_token = false) := by
          rw [not_or, length_eq_zero_iff, Bool.not_eq_false]
          exact htoken
        have hfront : cr ∉ blank ++ method ++ [space] := by
          simp only [mem_append, mem_singleton, not_or]
          exact ⟨⟨hblank, hline⟩, by decide⟩
        rw [if_neg (fun h => hline (hcr.mp h)), if_neg hbad, request_uri_isSome hfront (by rw [← hwhole, heq]; simp)]
        have hfits : max_method_name = 0 ∨ method.length ≤ max_method_name := by omega
        simp [htoken, hfits]
      have hbad : method.length = 0 ∨ method.all is_token = false := by
        rw [length_eq_zero_iff, ← Bool.not_eq_true]
        exact Decidable.or_iff_not_imp_left.mpr fun hne htoken' => htoken ⟨hne, htoken'⟩
      have hvacuous : method ≠ [] → method.all is_token = true →
          (max_method_name = 0 ∨ method.length ≤ max_method_name) → UriBounded inet_pton t :=
        fun hne htoken' => absurd ⟨hne, htoken'⟩ htoken
      refine ⟨fun _ => hvacuous, fun _ => ?_⟩
      rw [if_pos hbad]
      split <;> rfl
  · rw [skip_of_not_begun hbegun]
    simp [hbegun]

theorem request_version_within {method target : Pointer} {request : Request} {next : Nat} (ht : t <:+ s)
    (h : request_version s method target t = some (.success (request, next))) :
    request.method = method ∧ request.uri = target ∧ next ≤ s.length := by
  unfold request_version at h
  split at h
  · cases h
  obtain ⟨state, hstate, h⟩ := bind_eq_some_iff.mp h
  cases state with
  | error | oob | progress => cases h
  | success version =>
    simp only at h
    split at h
    · cases h
    rename_i hten
    obtain ⟨c, hc, h⟩ := bind_eq_some_iff.mp h
    split at h
    · cases h
    obtain ⟨c', hc', h⟩ := bind_eq_some_iff.mp h
    split at h
    · cases h
    simp only [some.injEq, Parsed.success.injEq, Prod.mk.injEq] at h
    obtain ⟨rfl, rfl⟩ := h
    have hwhole := checked.place_add_length ht
    exact ⟨rfl, rfl, by omega⟩

theorem find_suffix (h : find c t = some l) : l <:+ t := by
  obtain ⟨before, rest, rfl, -, rfl⟩ := find_eq_some h
  exact suffix_append _ _

theorem request_uri_within {lineend : Option (List Byte)} {method : Pointer} {request : Request} {next : Nat}
    (ht : t <:+ s) (h : request_uri s inet_pton lineend method t = some (.success (request, next))) :
    request.method = method ∧ Within s.length request.uri ∧ next ≤ s.length := by
  unfold request_uri at h
  split at h
  · cases h
  split at h
  · split at h
    · cases h
    · split at h <;> cases h
  rename_i last hfind
  have hlast := find_suffix hfind
  simp only at h
  split at h
  · cases h
  split at h
  · cases h
  split at h
  · cases h
  obtain ⟨hmethod, htarget, hnext⟩ :=
    request_version_within (((tail_suffix last).trans hlast).trans ht) h
  exact ⟨hmethod, htarget ▸ within_between hlast ht, hnext⟩

theorem parse_request_line_within {max_method_name : Nat} {request : Request} {next : Nat}
    (h : parse_request_line s inet_pton max_method_name = some (.success (request, next))) :
    Within s.length request.method ∧ Within s.length request.uri ∧ next ≤ s.length := by
  obtain ⟨lineend, hlineend, h⟩ := bind_eq_some_iff.mp h
  obtain ⟨ptr, hskip, h⟩ := bind_eq_some_iff.mp h
  have hptr := skip_suffix hskip
  split at h
  · split at h
    · cases h
    · split at h <;> cases h
  rename_i last hfind
  have hlast := find_suffix hfind
  simp only at h
  split at h
  · cases h
  split at h
  · cases h
  split at h
  · cases h
  obtain ⟨hmethod, htarget, hnext⟩ := request_uri_within (((tail_suffix last).trans hlast).trans hptr) h
  exact ⟨hmethod ▸ within_between hlast hptr, htarget, hnext⟩

end openvocs.http.inside
