import Openvocs.Json.Grammar

open List Option

namespace openvocs.json

theorem exceeds_of_lt {n : Nat} {size : Int} (h : n < size) : exceeds n size = true := by simp [exceeds, h]

theorem clear_whitespace_token {ws s : List Byte} {c : Byte} {size : Int}
    (hws : ∀ b ∈ ws, is_whitespace b = true) (hc : is_whitespace c = false) (hsize : ws.length ≤ size) :
    clear_whitespace (ws ++ c :: s) size = (c :: s, size - ws.length) := by
  induction ws generalizing size with
  | nil =>
    simp only [nil_append, length_nil, clear_whitespace, hc]
    split <;> simp
  | cons b ws ih =>
    simp only [length_cons] at hsize
    rw [List.cons_append, clear_whitespace, if_neg (by omega), if_pos (hws b (by simp)),
      ih (fun b hb => hws b (mem_cons_of_mem _ hb)) (by omega)]
    simp only [length_cons, Prod.mk.injEq, true_and]
    omega

theorem skip_whitespace_token {ws s : List Byte} {c : Byte} {size : Int}
    (hws : ∀ b ∈ ws, is_whitespace b = true) (hc : is_whitespace c = false) (hsize : ws.length ≤ size) :
    skip_whitespace (ws ++ c :: s) size = some (c :: s, size - ws.length) := by
  induction ws generalizing size with
  | nil => simp [skip_whitespace, hc]
  | cons b ws ih =>
    simp only [length_cons] at hsize
    rw [List.cons_append, skip_whitespace, if_pos (hws b (by simp)), if_pos (exceeds_of_lt (by omega)),
      ih (fun b hb => hws b (mem_cons_of_mem _ hb)) (by omega)]
    simp only [length_cons, some.injEq, Prod.mk.injEq, true_and]
    omega

/-- Some quote stands without a backslash in front of it. -/
def has_bare_quote : Byte → List Byte → Bool
  | _, [] => false
  | prev, c :: s => (c = quote && prev ≠ backslash) || has_bare_quote c s

/-- The content of a string that the search for the closing quote gets right. -/
def Closes (content : List Byte) : Prop :=
  has_bare_quote quote content = false ∧ content.getLast? ≠ some backslash

instance (content : List Byte) : Decidable (Closes content) := inferInstanceAs (Decidable (_ ∧ _))

theorem find_quote_eq {prev : Byte} {content rest : List Byte} {size : Int}
    (hbare : has_bare_quote prev content = false) (hlast : (prev :: content).getLast? ≠ some backslash)
    (hsize : content.length + 1 ≤ size) :
    find_quote prev size (content ++ quote :: rest) = some content.length := by
  induction content generalizing prev size with
  | nil =>
    have hprev : prev ≠ backslash := by simpa using hlast
    simp [find_quote, hprev]
  | cons c s ih =>
    simp only [has_bare_quote, Bool.or_eq_false_iff] at hbare
    simp only [length_cons] at hsize
    have hc : ¬ (c = quote ∧ prev ≠ backslash) := by simpa using hbare.1
    have hrest := ih hbare.2 (by simpa [getLast?_cons_cons] using hlast) (by omega : _ ≤ size - 1)
    rw [List.cons_append, find_quote, if_pos (exceeds_of_lt (by omega)), if_neg hc, hrest]
    rfl

theorem find_quote_bare {prev : Byte} {content rest : List Byte} {size : Int}
    (hbare : has_bare_quote prev content = true) (hsize : content.length + 1 ≤ size) :
    ∃ n, content[n]? = some quote ∧ (prev :: content)[n]? ≠ some backslash ∧
      find_quote prev size (content ++ rest) = some n := by
  induction content generalizing prev size with
  | nil => simp [has_bare_quote] at hbare
  | cons c s ih =>
    simp only [length_cons] at hsize
    by_cases hc : c = quote ∧ prev ≠ backslash
    · refine ⟨0, by simp [hc.1], by simpa using hc.2, ?_⟩
      rw [List.cons_append, find_quote, if_pos (exceeds_of_lt (by omega)), if_pos hc]
    have hs : has_bare_quote c s = true := by
      simp only [has_bare_quote, Bool.or_eq_true, Bool.and_eq_true, decide_eq_true_eq] at hbare
      exact hbare.resolve_left (by simpa using hc)
    obtain ⟨n, hquote, hprev, hfind⟩ := ih hs (by omega : _ ≤ size - 1)
    refine ⟨n + 1, by simpa using hquote, by simpa using hprev, ?_⟩
    rw [List.cons_append, find_quote, if_pos (exceeds_of_lt (by omega)), if_neg hc, hfind]
    rfl

theorem find_quote_beyond {prev : Byte} {content rest : List Byte} {size : Int} {n : Nat}
    (hbare : has_bare_quote prev content = false) (hlast : (prev :: content).getLast? = some backslash)
    (hsize : content.length + 1 < size)
    (h : find_quote prev size (content ++ quote :: rest) = some n) : content.length < n := by
  induction content generalizing prev size n with
  | nil =>
    have hprev : prev = backslash := by simpa using hlast
    rw [nil_append, find_quote, if_pos (exceeds_of_lt (by simpa using hsize)), if_neg (by simp [hprev])] at h
    obtain ⟨k, -, rfl⟩ := map_eq_some_iff.mp h
    simp
  | cons c s ih =>
    simp only [has_bare_quote, Bool.or_eq_false_iff] at hbare
    simp only [length_cons] at hsize ⊢
    have hc : ¬ (c = quote ∧ prev ≠ backslash) := by simpa using hbare.1
    rw [List.cons_append, find_quote, if_pos (exceeds_of_lt (by omega)), if_neg hc] at h
    obtain ⟨k, hk, rfl⟩ := map_eq_some_iff.mp h
    have := ih hbare.2 (by simpa [getLast?_cons_cons] using hlast) (by omega : _ < size - 1) hk
    omega

theorem is_content_escape {e : Byte} (he : is_escape e = true) (s : List Byte) :
    is_content (backslash :: e :: s) = is_content s := by
  rw [is_content.eq_def]
  simp only [if_true, he]

theorem is_content_unicode (a b c d : Byte) (s : List Byte) :
    is_content (backslash :: 117 :: a :: b :: c :: d :: s) = is_content s := by
  rw [is_content.eq_def]
  rfl

theorem is_content_plain {c : Byte} (hbackslash : c ≠ backslash) (hcontrol : ¬ c.toNat < 0x1F)
    (hquote : c ≠ quote) (s : List Byte) : is_content (c :: s) = is_content s := by
  rw [is_content.eq_def]
  simp only [if_neg hbackslash, if_neg hcontrol, if_neg hquote]

theorem is_content_quote (s : List Byte) : is_content (quote :: s) = false := by
  rw [is_content.eq_def]
  rfl

theorem is_content_take_quote {content : List Byte} (h : is_content content = true) {n : Nat} {prev : Byte}
    (hquote : content[n]? = some quote) (hprev : (prev :: content)[n]? ≠ some backslash) :
    is_content (content.take n) = false := by
  fun_induction is_content content generalizing n prev with
  | case1 => simp at hquote
  | case2 => cases h
  | case3 e s he ih =>
    match n with
    | 0 => exact absurd (some.inj hquote) (by decide)
    | 1 => exact absurd rfl hprev
    | n + 2 =>
      simp only [getElem?_cons_succ] at hquote hprev
      rw [take_succ_cons, take_succ_cons, is_content_escape he]
      exact ih h hquote hprev
  | case4 a b c d s he ih =>
    match n with
    | 0 => exact absurd (some.inj hquote) (by decide)
    | 1 => exact absurd (some.inj hquote) (by decide)
    | 2 | 3 | 4 | 5 => rfl
    | n + 6 =>
      simp only [getElem?_cons_succ] at hquote hprev
      exact (is_content_unicode a b c d (s.take n)).trans (ih h hquote hprev)
  | case5 => cases h
  | case6 => cases h
  | case7 => cases h
  | case8 => cases h
  | case9 c s hbackslash hcontrol hnot ih =>
    match n with
    | 0 => exact absurd (by simpa using hquote) hnot
    | n + 1 =>
      simp only [getElem?_cons_succ] at hquote hprev
      rw [take_succ_cons, is_content_plain hbackslash hcontrol hnot]
      exact ih h hquote hprev

theorem is_content_append_quote {content : List Byte} (h : is_content content = true) (rest : List Byte) :
    is_content (content ++ quote :: rest) = false := by
  fun_induction is_content content with
  | case1 => exact is_content_quote rest
  | case2 => cases h
  | case3 e s he ih =>
    rw [List.cons_append, List.cons_append, is_content_escape he]
    exact ih h
  | case4 a b c d s he ih => exact (is_content_unicode a b c d (s ++ quote :: rest)).trans (ih h)
  | case5 => cases h
  | case6 => cases h
  | case7 => cases h
  | case8 => cases h
  | case9 c s hbackslash hcontrol hnot ih =>
    rw [List.cons_append, is_content_plain hbackslash hcontrol hnot]
    exact ih h

theorem not_is_whitespace_quote : is_whitespace quote = false := by decide

section match_string

variable {ws content rest : List Byte} {size : Int} (hws : ∀ b ∈ ws, is_whitespace b = true)
  (hvalid : validate_string content false = true)
include hws hvalid

theorem match_string_eq (hcloses : Closes content) (hsize : ws.length + content.length + 2 ≤ size) :
    match_string (ws ++ quote :: (content ++ quote :: rest)) size =
      some (content ++ quote :: rest, content.length) := by
  have hpos : 0 < content.length := by
    cases content with
    | nil => simp [validate_string, utf8.validate_sequence] at hvalid
    | cons c s => simp
  have hlast : (quote :: content).getLast? ≠ some backslash := by
    cases content with
    | nil => simp at hpos
    | cons c s => simpa [getLast?_cons_cons] using hcloses.2
  rw [match_string, if_pos (exceeds_of_lt (by omega)), skip_whitespace_token hws not_is_whitespace_quote (by omega)]
  simp only
  rw [if_pos (by simp [exceeds_of_lt (show (1 : Nat) < size - ws.length by omega)]),
    find_quote_eq hcloses.1 hlast (by omega)]
  simp only
  rw [if_neg (by omega), take_left, if_pos hvalid]

theorem match_string_none (hcloses : ¬ Closes content) (hsize : ws.length + content.length + 3 ≤ size) :
    match_string (ws ++ quote :: (content ++ quote :: rest)) size = none := by
  have hcontent : is_content content = true := by
    simp only [validate_string, Bool.and_eq_true, Bool.false_eq_true, if_false] at hvalid
    exact hvalid.2
  have hinvalid : ∀ n, find_quote quote (size - ws.length - 1) (content ++ quote :: rest) = some n →
      validate_string ((content ++ quote :: rest).take n) false = false := by
    intro n hn
    have hnot : is_content ((content ++ quote :: rest).take n) = false := by
      by_cases hbare : has_bare_quote quote content = true
      · obtain ⟨m, hquote, hprev, hm⟩ := @find_quote_bare quote content (quote :: rest) (size - ws.length - 1) hbare (by omega)
        obtain rfl : m = n := by simpa [hm] using hn
        have hlt : m < content.length := (List.getElem?_eq_some_iff.mp hquote).1
        rw [take_append_of_le_length (by omega)]
        exact is_content_take_quote hcontent hquote hprev
      have hbare' : has_bare_quote quote content = false := by simpa using hbare
      have hlast : (quote :: content).getLast? = some backslash := by
        have : content.getLast? = some backslash := by
          by_contra hne
          exact hcloses ⟨hbare', hne⟩
        cases content with
        | nil => simp at this
        | cons c s => simpa [getLast?_cons_cons] using this
      have hbeyond := find_quote_beyond hbare' hlast (by omega) hn
      obtain ⟨k, rfl⟩ : ∃ k, n = content.length + (k + 1) := ⟨n - content.length - 1, by omega⟩
      rw [take_length_add_append, take_succ_cons]
      exact is_content_append_quote hcontent _
    simp [validate_string, hnot]
  rw [match_string, if_pos (exceeds_of_lt (by omega)), skip_whitespace_token hws not_is_whitespace_quote (by omega)]
  simp only
  rw [if_pos (by simp [exceeds_of_lt (show (1 : Nat) < size - ws.length by omega)])]
  cases hfind : find_quote quote (size - ws.length - 1) (content ++ quote :: rest) with
  | none => rfl
  | some n => simp [hinvalid n hfind]

end match_string

/-- How many brackets are open behind some octets; `none` if more are closed than were open. -/
def depth_after (opening closing : Byte) : Nat → List Byte → Option Nat
  | depth, [] => some depth
  | depth, c :: s =>
    if c = opening then depth_after opening closing (depth + 1) s
    else if c = closing then
      if depth = 0 then none else depth_after opening closing (depth - 1) s
    else depth_after opening closing depth s

/-- The brackets in some octets are balanced. -/
def Balanced (opening closing : Byte) (s : List Byte) : Prop := depth_after opening closing 0 s = some 0

instance (opening closing : Byte) (s : List Byte) : Decidable (Balanced opening closing s) :=
  inferInstanceAs (Decidable (_ = _))

theorem depth_after_filter (opening closing : Byte) (depth : Nat) (s : List Byte) :
    depth_after opening closing depth (s.filter fun c => c = opening || c = closing) =
      depth_after opening closing depth s := by
  induction s generalizing depth with
  | nil => rfl
  | cons c s ih =>
    by_cases hopening : c = opening
    · simp [depth_after, hopening, ih]
    by_cases hclosing : c = closing
    · simp [hclosing, filter_cons, depth_after, ih]
    · simp [depth_after, hopening, hclosing, ih]

section find_close

variable {opening closing : Byte} (hne : opening ≠ closing)
include hne

theorem find_close_eq {depth : Nat} {content rest : List Byte} {size : Int}
    (h : depth_after opening closing depth content = some 0) (hsize : content.length + 1 ≤ size) :
    find_close opening closing depth size (content ++ closing :: rest) = some content.length := by
  induction content generalizing depth size with
  | nil =>
    obtain rfl : depth = 0 := by simpa [depth_after] using h
    simp [find_close, hne.symm]
  | cons c s ih =>
    simp only [length_cons] at hsize
    rw [List.cons_append, find_close, if_pos (exceeds_of_lt (by omega))]
    simp only [depth_after] at h
    split
    · rename_i hopening
      rw [if_pos hopening] at h
      rw [ih h (by omega)]
      rfl
    rename_i hopening
    rw [if_neg hopening] at h
    split
    · rename_i hclosing
      rw [if_pos hclosing] at h
      split at h
      · cases h
      rename_i hdepth
      rw [if_neg hdepth, ih h (by omega)]
      rfl
    rename_i hclosing
    rw [if_neg hclosing] at h
    rw [ih h (by omega)]
    rfl

theorem depth_after_of_find_close {depth : Nat} {content rest : List Byte} {size : Int}
    (h : find_close opening closing depth size (content ++ closing :: rest) = some content.length) :
    depth_after opening closing depth content = some 0 := by
  induction content generalizing depth size with
  | nil =>
    simp only [nil_append, find_close, if_neg hne.symm, if_true, true_and] at h
    have hdepth : depth = 0 := by
      by_contra hdepth
      simp only [if_neg hdepth] at h
      split at h
      · obtain ⟨k, -, hk⟩ := map_eq_some_iff.mp h
        simp at hk
      · cases h
    simp [depth_after, hdepth]
  | cons c s ih =>
    rw [List.cons_append, find_close] at h
    simp only [depth_after]
    split at h
    · split at h
      · rename_i hopening
        rw [if_pos hopening]
        obtain ⟨k, hk, hlength⟩ := map_eq_some_iff.mp h
        obtain rfl : k = s.length := by simpa using hlength
        exact ih hk
      rename_i hopening
      rw [if_neg hopening]
      split at h
      · rename_i hclosing
        rw [if_pos hclosing]
        split at h
        · simp at h
        rename_i hdepth
        rw [if_neg hdepth]
        obtain ⟨k, hk, hlength⟩ := map_eq_some_iff.mp h
        obtain rfl : k = s.length := by simpa using hlength
        exact ih hk
      rename_i hclosing
      rw [if_neg hclosing]
      obtain ⟨k, hk, hlength⟩ := map_eq_some_iff.mp h
      obtain rfl : k = s.length := by simpa using hlength
      exact ih hk
    · split at h <;> simp at h

end find_close

end openvocs.json
