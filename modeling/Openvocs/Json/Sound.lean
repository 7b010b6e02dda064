import Openvocs.Json.Lexical
import Openvocs.Json.RoundTrip

open List Option

namespace openvocs.json

variable {ν : Type} {double : Double ν}

theorem clear_whitespace_split (s : List Byte) (size : Int) :
    ∃ ws, Blank ws ∧ s = ws ++ (clear_whitespace s size).1 ∧
      (clear_whitespace s size).2 = size - ws.length ∧ (0 ≤ size → ws.length ≤ size) := by
  fun_induction clear_whitespace s size with
  | case1 size => exact ⟨[], blank_nil, rfl, by simp, by simp⟩
  | case2 c s size h => exact ⟨[], blank_nil, rfl, by simp, by simp⟩
  | case3 c s size h hws ih =>
    obtain ⟨ws, hblank, hs, hsize, hle⟩ := ih
    refine ⟨c :: ws, forall_mem_cons.mpr ⟨hws, hblank⟩, ?_, ?_, ?_⟩
    · rw [List.cons_append, ← hs]
    · rw [hsize, length_cons]
      omega
    intro hpos
    have := hle (by omega)
    rw [length_cons]
    omega
  | case4 c s size h hws => exact ⟨[], blank_nil, rfl, by simp, by simp⟩

theorem clear_whitespace_small {s : List Byte} {size : Int} (h : size < 1) : clear_whitespace s size = (s, size) := by
  cases s with
  | nil => rfl
  | cons c s => rw [clear_whitespace, if_pos h]

theorem skip_whitespace_split {s s' : List Byte} {size size' : Int}
    (h : skip_whitespace s size = some (s', size')) :
    ∃ ws, Blank ws ∧ s = ws ++ s' ∧ size' = size - ws.length ∧ (0 ≤ size → ws.length ≤ size) := by
  fun_induction skip_whitespace s size with
  | case1 => cases h
  | case2 c s size hws hover ih =>
    obtain ⟨ws, hblank, hs, hsize, hle⟩ := ih h
    refine ⟨c :: ws, forall_mem_cons.mpr ⟨hws, hblank⟩, ?_, ?_, ?_⟩
    · rw [List.cons_append, ← hs]
    · rw [hsize, length_cons]
      omega
    intro hpos
    have hone : 1 ≤ size := by
      simp only [exceeds, Bool.or_eq_true, decide_eq_true_eq] at hover
      omega
    have := hle (by omega)
    rw [length_cons]
    omega
  | case3 => cases h
  | case4 c s size hws =>
    cases h
    exact ⟨[], blank_nil, rfl, by simp, by simp⟩

variable {n : Nat}

theorem find_quote_split {prev : Byte} {size : Int} {s : List Byte} (h : find_quote prev size s = some n) :
    ∃ content rest, s = content ++ quote :: rest ∧ content.length = n ∧ (1 ≤ size → n + 1 ≤ size) := by
  induction s generalizing prev size n with
  | nil => cases h
  | cons c s ih =>
    rw [find_quote] at h
    split at h
    · rename_i hover
      split at h
      · rename_i hquote
        cases h
        exact ⟨[], s, by rw [hquote.1]; rfl, rfl, by intro hone; omega⟩
      obtain ⟨m, hm, rfl⟩ := map_eq_some_iff.mp h
      obtain ⟨content, rest, rfl, hlength, hle⟩ := ih hm
      refine ⟨c :: content, rest, rfl, by simp [hlength], fun hone => ?_⟩
      have htwo : 2 ≤ size := by
        simp only [exceeds, Bool.or_eq_true, decide_eq_true_eq] at hover
        omega
      have := hle (by omega)
      omega
    split at h
    · rename_i hquote
      cases h
      exact ⟨[], s, by rw [hquote]; rfl, rfl, by intro hone; omega⟩
    · cases h

theorem match_string_split {s start : List Byte} {size : Int} {length : Nat}
    (h : match_string s size = some (start, length)) :
    ∃ ws content rest, Blank ws ∧ s = ws ++ quote :: start ∧ start = content ++ quote :: rest ∧
      content.length = length ∧ validate_string content false = true ∧
      (0 ≤ size → ws.length + length + 2 ≤ size) := by
  rw [match_string] at h
  split at h
  · split at h
    · rename_i c s' size' hskip
      obtain ⟨ws, hws, hs, hsize, hle⟩ := skip_whitespace_split hskip
      split at h
      · rename_i hopen
        rw [Bool.and_eq_true, decide_eq_true_eq] at hopen
        obtain ⟨hover, rfl⟩ := hopen
        split at h
        · rename_i n hfind
          split at h
          · cases h
          split at h
          · rename_i hvalid
            cases h
            obtain ⟨content, rest, hstart, hlength, hbound⟩ := find_quote_split hfind
            rw [hstart, ← hlength, take_left] at hvalid
            refine ⟨ws, content, rest, hws, hs, hstart, hlength, hvalid, fun hpos => ?_⟩
            have htwo : 2 ≤ size' := by
              simp only [exceeds, Bool.or_eq_true, decide_eq_true_eq] at hover
              have := hle hpos
              omega
            have := hbound (by omega)
            omega
          · cases h
        · cases h
      · cases h
    · cases h
  · cases h

variable {depth : Nat}

theorem find_close_split {opening closing : Byte} {size : Int} {s : List Byte}
    (h : find_close opening closing depth size s = some n) :
    ∃ content rest, s = content ++ closing :: rest ∧ content.length = n ∧ (1 ≤ size → n + 1 ≤ size) := by
  induction s generalizing depth size n with
  | nil => cases h
  | cons c s ih =>
    have hnext : ∀ {depth' : Nat}, (find_close opening closing depth' (size - 1) s).map (· + 1) = some n →
        exceeds 1 size = true → ∃ content rest, c :: s = content ++ closing :: rest ∧ content.length = n ∧
          (1 ≤ size → n + 1 ≤ size) := by
      intro depth' h hover
      obtain ⟨m, hm, rfl⟩ := map_eq_some_iff.mp h
      obtain ⟨content, rest, rfl, hlength, hle⟩ := ih hm
      refine ⟨c :: content, rest, rfl, by simp [hlength], fun hone => ?_⟩
      have htwo : 2 ≤ size := by
        simp only [exceeds, Bool.or_eq_true, decide_eq_true_eq] at hover
        omega
      have := hle (by omega)
      omega
    rw [find_close] at h
    split at h
    · rename_i hover
      split at h
      · exact hnext h hover
      split at h
      · rename_i hclosing
        split at h
        · cases h
          exact ⟨[], s, by rw [hclosing]; rfl, rfl, by intro hone; omega⟩
        · exact hnext h hover
      · exact hnext h hover
    split at h
    · rename_i hclosing
      cases h
      exact ⟨[], s, by rw [hclosing.1]; rfl, rfl, by intro hone; omega⟩
    · cases h

/-- How many brackets are open behind an octet that does not end the search. -/
def step_depth (opening closing : Byte) (depth : Nat) (c : Byte) : Nat :=
  if c = opening then depth + 1 else if c = closing then depth - 1 else depth

section find_close

variable {opening closing : Byte} (hne : opening ≠ closing)
include hne

theorem find_close_cons (depth : Nat) (size : Int) (c : Byte) (s : List Byte) :
    find_close opening closing depth size (c :: s) =
      if c = closing ∧ depth = 0 then some 0
      else if exceeds 1 size then
        (find_close opening closing (step_depth opening closing depth c) (size - 1) s).map (· + 1)
      else none := by
  rw [find_close]
  by_cases hopening : c = opening
  · have hclosing : ¬ (c = closing ∧ depth = 0) := fun h => hne (hopening.symm.trans h.1)
    rw [if_pos hopening, if_neg hclosing, step_depth, if_pos hopening, if_neg hclosing]
  rw [if_neg hopening, step_depth, if_neg hopening]
  by_cases hclosing : c = closing
  · by_cases hdepth : depth = 0
    · simp [hclosing, hdepth]
    · simp [hclosing, hdepth]
  · simp [hclosing]

theorem find_close_unlimited {depth : Nat} {size size' : Int} {a : List Byte} {n : Nat}
    (h : find_close opening closing depth size a = some n) (hsize : size' < 0) (b : List Byte) :
    find_close opening closing depth size' (a ++ b) = some n := by
  induction a generalizing depth size size' n with
  | nil => cases h
  | cons c a ih =>
    have hover : exceeds 1 size' = true := by simp [exceeds, hsize]
    rw [find_close_cons hne] at h
    rw [List.cons_append, find_close_cons hne]
    split at h
    · rename_i hclose
      rw [if_pos hclose]
      exact h
    rename_i hclose
    rw [if_neg hclose, if_pos hover]
    split at h
    · obtain ⟨m, hm, rfl⟩ := map_eq_some_iff.mp h
      rw [ih hm (by omega)]
      rfl
    · cases h

theorem find_close_limited {depth : Nat} {size size' : Int} {a b : List Byte} {n : Nat}
    (h : find_close opening closing depth size (a ++ b) = some n) (hn : n < a.length) (hsize : a.length ≤ size') :
    find_close opening closing depth size' a = some n := by
  induction a generalizing depth size size' n with
  | nil => exact absurd hn (Nat.not_lt_zero n)
  | cons c a ih =>
    simp only [length_cons] at hn hsize
    rw [List.cons_append, find_close_cons hne] at h
    rw [find_close_cons hne]
    split at h
    · rename_i hclose
      rw [if_pos hclose]
      exact h
    rename_i hclose
    rw [if_neg hclose]
    split at h
    · obtain ⟨m, hm, rfl⟩ := map_eq_some_iff.mp h
      rw [if_pos (exceeds_of_lt (by omega)), ih hm (by omega) (by omega)]
      rfl
    · cases h

end find_close

theorem structural_close_cons (depth : Nat) (lex : Lex) (c : Byte) (s : List Byte) :
    structural_close depth lex (c :: s) =
      if lex = .outside ∧ c = close_object ∧ depth = 0 then some 0
      else (structural_close (if lex = .outside then step_depth open_object close_object depth c else depth)
        (lex.next c) s).map (· + 1) := by
  cases lex with
  | outside =>
    rw [structural_close_outside, step_depth]
    by_cases hopening : c = open_object
    · subst hopening
      rfl
    by_cases hclosing : c = close_object
    · subst hclosing
      by_cases hdepth : depth = 0
      · simp [hdepth, hopening]
      simp only [hdepth, hopening, if_false, if_true, and_false]
      rfl
    · simp [hopening, hclosing]
  | inside => rfl
  | escaped => rfl

theorem structural_close_append {lex : Lex} {a : List Byte}
    (h : structural_close depth lex a = some n) (b : List Byte) :
    structural_close depth lex (a ++ b) = some n := by
  induction a generalizing depth lex n with
  | nil => cases h
  | cons c a ih =>
    rw [structural_close_cons] at h
    rw [List.cons_append, structural_close_cons]
    split at h
    · rename_i hclose
      rw [if_pos hclose]
      exact h
    rename_i hclose
    obtain ⟨m, hm, rfl⟩ := map_eq_some_iff.mp h
    rw [if_neg hclose, ih hm]
    rfl

theorem structural_close_limited {lex : Lex} {a b : List Byte}
    (h : structural_close depth lex (a ++ b) = some n) (hn : n < a.length) :
    structural_close depth lex a = some n := by
  induction a generalizing depth lex n with
  | nil => exact absurd hn (Nat.not_lt_zero n)
  | cons c a ih =>
    simp only [length_cons] at hn
    rw [List.cons_append, structural_close_cons] at h
    rw [structural_close_cons]
    split at h
    · rename_i hclose
      rw [if_pos hclose]
      exact h
    rename_i hclose
    obtain ⟨m, hm, rfl⟩ := map_eq_some_iff.mp h
    rw [if_neg hclose, ih hm (by omega)]
    rfl

theorem structural_close_lt {lex : Lex} {s : List Byte}
    (h : structural_close depth lex s = some n) : n < s.length := by
  induction s generalizing depth lex n with
  | nil => cases h
  | cons c s ih =>
    rw [structural_close_cons] at h
    rw [length_cons]
    split at h
    · cases h
      omega
    obtain ⟨m, hm, rfl⟩ := map_eq_some_iff.mp h
    have := ih hm
    omega

theorem structural_close_inner {lex : Lex} {s : List Byte}
    (h : structural_close (depth + 1) lex s = some n) : ∃ m, m < n ∧ structural_close depth lex s = some m := by
  induction s generalizing depth lex n with
  | nil => cases h
  | cons c s ih =>
    rw [structural_close_cons, if_neg (by omega)] at h
    obtain ⟨k, hk, rfl⟩ := map_eq_some_iff.mp h
    rw [structural_close_cons]
    split
    · exact ⟨0, by omega, rfl⟩
    rename_i hclose
    have hstep : (if lex = .outside then step_depth open_object close_object (depth + 1) c else depth + 1) =
        (if lex = .outside then step_depth open_object close_object depth c else depth) + 1 := by
      split
      · rename_i hlex
        unfold step_depth
        split
        · rfl
        split
        · rename_i hclosing
          have : depth ≠ 0 := fun hdepth => hclose ⟨hlex, hclosing, hdepth⟩
          omega
        · rfl
      · rfl
    rw [hstep] at hk
    obtain ⟨m, hm, hfound⟩ := ih hk
    exact ⟨m + 1, by omega, by rw [hfound]; rfl⟩

theorem structural_close_innermost {lex : Lex} {s : List Byte}
    (h : structural_close depth lex s = some n) : ∃ m, m ≤ n ∧ structural_close 0 lex s = some m := by
  induction depth generalizing n with
  | zero => exact ⟨n, Nat.le_refl n, h⟩
  | succ depth ih =>
    obtain ⟨k, hk, hfound⟩ := structural_close_inner h
    obtain ⟨m, hm, hinnermost⟩ := ih hfound
    exact ⟨m, by omega, hinnermost⟩

/-- What every octet that is read must meet. -/
def clean_at : Condition := fun lex c s => tidy_at lex c s && braces_agree_at lex c s && numberless_at lex c s

theorem all_octets_and {p q : Condition} {lex : Lex} {s : List Byte} :
    all_octets (fun lex c s => p lex c s && q lex c s) lex s = (all_octets p lex s && all_octets q lex s) := by
  induction s generalizing lex with
  | nil => rfl
  | cons c s ih =>
    rw [all_octets, ih, all_octets, all_octets]
    ac_rfl

/-- The first octets meet the conditions, and what is read does not reach beyond them: it has a
bounded length, or a brace that closes more than was opened stands among them. -/
structure Scope (s : List Byte) (limit : Int) (size : Nat) : Prop where
  clean : all_octets clean_at .outside (s.take size) = true
  reach : limit ≤ size ∨ ∃ depth n, structural_close depth .outside s = some n ∧ n ≤ size

theorem Scope.mono {s : List Byte} {limit limit' : Int} {size : Nat} (h : Scope s limit size) (hle : limit' ≤ limit) :
    Scope s limit' size where
  clean := h.clean
  reach := h.reach.imp_left fun hlimit => Int.le_trans hle hlimit

variable {limit : Int}

theorem Scope.behind {t s : List Byte} {size : Nat} (h : Scope (t ++ s) limit size) (ht : Neutral t)
    (hlimit : t.length ≤ limit) : t.length ≤ size ∧ Scope s (limit - t.length) (size - t.length) := by
  have hreach : t.length ≤ size ∧ (limit - t.length ≤ ((size - t.length : Nat) : Int) ∨
      ∃ depth n, structural_close depth .outside s = some n ∧ n ≤ size - t.length) := by
    rcases h.reach with hle | ⟨depth, n, hclose, hle⟩
    · exact ⟨by omega, Or.inl (by omega)⟩
    rw [ht.close] at hclose
    obtain ⟨m, hm, rfl⟩ := map_eq_some_iff.mp hclose
    exact ⟨by omega, Or.inr ⟨depth, m, hm, by omega⟩⟩
  refine ⟨hreach.1, ?_, hreach.2⟩
  have hclean := h.clean
  rw [take_append, take_of_length_le hreach.1] at hclean
  have hright := all_octets_right hclean
  rwa [ht.outside] at hright

theorem Scope.head {c : Byte} {s : List Byte} {size : Nat} (h : Scope (c :: s) limit size)
    (hc : c ≠ close_object) (hlimit : 1 ≤ limit) :
    ∃ size', size = size' + 1 ∧ clean_at .outside c (s.take size') = true ∧
      all_octets clean_at (Lex.next .outside c) (s.take size') = true := by
  have hpos : size ≠ 0 := by
    rcases h.reach with hle | ⟨depth, n, hclose, hle⟩
    · omega
    rw [structural_close_cons, if_neg (by simp [hc])] at hclose
    obtain ⟨m, -, rfl⟩ := map_eq_some_iff.mp hclose
    omega
  obtain ⟨size', rfl⟩ := Nat.exists_eq_succ_of_ne_zero hpos
  have hclean := h.clean
  rw [take_succ_cons] at hclean
  exact ⟨size', rfl, all_octets_cons.mp hclean⟩

theorem tidy_of_clean {lex : Lex} {c : Byte} {s : List Byte} (h : clean_at lex c s = true) :
    tidy_at lex c s = true := by
  simp only [clean_at, Bool.and_eq_true] at h
  exact h.1.1

theorem all_octets_mono {p q : Condition} (hpq : ∀ lex c s, p lex c s = true → q lex c s = true) {lex : Lex}
    {s : List Byte} (h : all_octets p lex s = true) : all_octets q lex s = true := by
  induction s generalizing lex with
  | nil => rfl
  | cons c s ih =>
    obtain ⟨hc, hs⟩ := all_octets_cons.mp h
    exact all_octets_cons.mpr ⟨hpq lex c s hc, ih hs⟩

theorem chars_of_content {content rest : List Byte} {size : Nat} (h : is_content content = true)
    (htidy : all_octets tidy_at .inside ((content ++ quote :: rest).take size) = true)
    (hreach : content.length + 1 ≤ size ∨
      ∃ depth n, structural_close depth .inside (content ++ quote :: rest) = some n ∧ n ≤ size) :
    is_chars content = true := by
  fun_induction is_content content generalizing size with
  | case1 => rfl
  | case2 => cases h
  | case3 e s he ih =>
    have hsize : 2 ≤ size ∧ (s.length + 1 ≤ size - 2 ∨
        ∃ depth n, structural_close depth .inside (s ++ quote :: rest) = some n ∧ n ≤ size - 2) := by
      rcases hreach with hle | ⟨depth, n, hclose, hle⟩
      · simp only [length_cons] at hle
        exact ⟨by omega, Or.inl (by omega)⟩
      rw [List.cons_append, List.cons_append, structural_close_escape] at hclose
      obtain ⟨m, hm, rfl⟩ := map_eq_some_iff.mp hclose
      exact ⟨by omega, Or.inr ⟨depth, m, hm, by omega⟩⟩
    obtain ⟨k, rfl⟩ : ∃ k, size = k + 2 := ⟨size - 2, by omega⟩
    rw [List.cons_append, List.cons_append, take_succ_cons, take_succ_cons] at htidy
    have hnext := (all_octets_cons.mp (all_octets_cons.mp htidy).2).2
    have hchars := ih h hnext hsize.2
    rw [is_chars.eq_def]
    simp only [if_true, he, hchars]
  | case4 a b c d s he ih =>
    have hsize : 2 ≤ size := by
      rcases hreach with hle | ⟨depth, n, hclose, hle⟩
      · simp only [length_cons] at hle
        omega
      rw [List.cons_append, List.cons_append, structural_close_escape] at hclose
      obtain ⟨m, hm, rfl⟩ := map_eq_some_iff.mp hclose
      omega
    obtain ⟨k, rfl⟩ : ∃ k, size = k + 2 := ⟨size - 2, by omega⟩
    rw [List.cons_append, List.cons_append, take_succ_cons, take_succ_cons] at htidy
    have hescape := (all_octets_cons.mp htidy).2
    have hnext := (all_octets_cons.mp hescape).2
    have hdigits := (all_octets_cons.mp hescape).1
    have hlex : Lex.next .inside backslash = .escaped := rfl
    have hu : (!decide ((117 : Byte) = 117)) = false := rfl
    rw [hlex, tidy_at, hu, Bool.false_or, Bool.and_eq_true, decide_eq_true_eq] at hdigits
    obtain ⟨m, rfl⟩ : ∃ m, k = m + 4 := by
      have hle := length_take_le k (a :: b :: c :: d :: s ++ quote :: rest)
      exact ⟨k - 4, by omega⟩
    have htake : ((a :: b :: c :: d :: s ++ quote :: rest).take (m + 4)) =
        [a, b, c, d] ++ (s ++ quote :: rest).take m := by
      simp [take_succ_cons]
    rw [htake] at hdigits hnext
    have hhex : [a, b, c, d].all cstring.is_hex_digit = true := hdigits.2
    have hinside := fun x hx => is_hex_digit_inside x (List.all_eq_true.mp hhex x hx)
    have hright := all_octets_right hnext
    have hnext' : Lex.next (Lex.next .inside backslash) 117 = .inside := rfl
    rw [hnext', Lex.after_literal hinside] at hright
    have hrest : s.length + 1 ≤ m ∨
        ∃ depth n, structural_close depth .inside (s ++ quote :: rest) = some n ∧ n ≤ m := by
      rcases hreach with hle | ⟨depth, n, hclose, hle⟩
      · simp only [length_cons] at hle
        exact Or.inl (by omega)
      have hdrop := structural_close_literal hinside depth (s ++ quote :: rest)
      have hopen := structural_close_escape depth 117 ([a, b, c, d] ++ (s ++ quote :: rest))
      rw [hdrop, Option.map_map] at hopen
      obtain ⟨i, hi, rfl⟩ := map_eq_some_iff.mp (hopen.symm.trans hclose)
      simp only [Function.comp_apply, length_cons, length_nil] at hle
      exact Or.inr ⟨depth, i, hi, by omega⟩
    have hchars := ih h hright hrest
    rw [is_chars.eq_def]
    simp only [if_true, he, hhex, hchars, Bool.and_true, if_false, Bool.false_eq_true]
  | case5 => cases h
  | case6 => cases h
  | case7 => cases h
  | case8 => cases h
  | case9 c s hbackslash hcontrol hquote ih =>
    have hsize : 1 ≤ size ∧ (s.length + 1 ≤ size - 1 ∨
        ∃ depth n, structural_close depth .inside (s ++ quote :: rest) = some n ∧ n ≤ size - 1) := by
      rcases hreach with hle | ⟨depth, n, hclose, hle⟩
      · simp only [length_cons] at hle
        exact ⟨by omega, Or.inl (by omega)⟩
      rw [List.cons_append, structural_close_inside hbackslash hquote] at hclose
      obtain ⟨m, hm, rfl⟩ := map_eq_some_iff.mp hclose
      exact ⟨by omega, Or.inr ⟨depth, m, hm, by omega⟩⟩
    obtain ⟨k, rfl⟩ : ∃ k, size = k + 1 := ⟨size - 1, by omega⟩
    rw [List.cons_append, take_succ_cons] at htidy
    obtain ⟨hunit, hnext⟩ := all_octets_cons.mp htidy
    rw [Lex.next_inside hbackslash hquote] at hnext
    have hchars := ih h hnext hsize.2
    have hc : ¬ c.toNat < 0x20 := by
      have hne : c ≠ 0x1F := by simpa [tidy_at] using hunit
      intro hlt
      exact hne (BitVec.eq_of_toNat_eq (by simp; omega))
    rw [is_chars.eq_def]
    simp only [if_neg hbackslash, if_neg hc, if_neg hquote, hchars]

theorem Scope.string {content rest : List Byte} {size : Nat}
    (h : Scope (quote :: (content ++ quote :: rest)) limit size) (hcontent : is_content content = true)
    (hlimit : content.length + 2 ≤ limit) : is_chars content = true := by
  obtain ⟨size', rfl, -, hclean⟩ := h.head (by decide) (by omega)
  have htidy := all_octets_mono (fun _ _ _ => tidy_of_clean) hclean
  refine chars_of_content hcontent htidy ?_
  rcases h.reach with hle | ⟨depth, n, hclose, hle⟩
  · exact Or.inl (by omega)
  rw [structural_close_cons, if_neg (by simp [quote, close_object])] at hclose
  obtain ⟨m, hm, rfl⟩ := map_eq_some_iff.mp hclose
  exact Or.inr ⟨_, m, hm, by omega⟩

theorem cstring_of_chars {content : List Byte} (h : is_chars content = true) : cstring.of content = content := by
  apply cstring.of_eq_self
  fun_induction is_chars content with
  | case1 => simp
  | case2 => cases h
  | case3 e s he ih =>
    have hne : e ≠ 0 := by
      rintro rfl
      exact absurd he (by decide)
    simp only [mem_cons, not_or]
    exact ⟨by decide, hne.symm, ih h⟩
  | case4 a b c d s he ih =>
    rw [Bool.and_eq_true, List.all_eq_true] at h
    have hzero : (0 : Byte) ∉ [a, b, c, d] := fun hmem => absurd (h.1 0 hmem) (by decide)
    have hmem : (0 : Byte) ∉ [backslash, 117] ++ ([a, b, c, d] ++ s) := by
      simp only [mem_append, not_or]
      exact ⟨by decide, hzero, ih h.2⟩
    exact hmem
  | case5 => cases h
  | case6 => cases h
  | case7 => cases h
  | case8 => cases h
  | case9 c s hbackslash hcontrol hquote ih =>
    have hne : c ≠ 0 := by
      rintro rfl
      exact hcontrol (by decide)
    simp only [mem_cons, not_or]
    exact ⟨hne.symm, ih h⟩

/-- What is read within a scope is the text of the value behind white space, and with a size that
is no negative number not more than that is read. -/
structure Sound (double : Double ν) (decode : Decode ν) : Prop where
  le_size : ∀ {s : List Byte} {size : Int} {value : Value ν} {len : Nat},
    decode s size = some (value, len) → 0 ≤ size → len ≤ size
  spells : ∀ {s : List Byte} {size : Int} {value : Value ν} {len scope : Nat},
    decode s size = some (value, len) → Scope s len scope →
      ∃ ws t rest, Blank ws ∧ s = ws ++ t ++ rest ∧ len = ws.length + t.length ∧ Spells double t (.value value)

theorem Scope.no_trailing_comma {ws s : List Byte} {size : Nat}
    (h : Scope (comma :: (ws ++ close_array :: s)) limit size) (hws : Blank ws) (hlimit : ws.length + 2 ≤ limit) :
    False := by
  have hskip : Neutral (comma :: ws) := Neutral.append (Neutral.plain (t := [comma]) (by decide)) (Neutral.blank hws)
  obtain ⟨hle, hbehind⟩ := h.behind (t := comma :: ws) hskip (by rw [length_cons]; omega)
  obtain ⟨k, hk, -, -⟩ := hbehind.head (by decide) (by rw [length_cons]; omega)
  obtain ⟨size', rfl, hcomma, -⟩ := h.head (by decide) (by omega)
  have htake : (ws ++ close_array :: s).take size' = ws ++ close_array :: s.take k := by
    rw [length_cons] at hk hle
    have hsize' : size' - ws.length = k + 1 := by omega
    rw [take_append, take_of_length_le (by omega), hsize', take_succ_cons]
  have hdrop : (ws ++ close_array :: s.take k).dropWhile is_whitespace = close_array :: s.take k := by
    rw [dropWhile_append_of_pos hws]
    rfl
  have htidy := tidy_of_clean hcomma
  rw [htake, tidy_at, hdrop] at htidy
  simp at htidy

section loops

variable {decode : Decode ν} (hdecode : Sound double decode)

theorem Spells.blank {t ws : List Byte} {part : Part ν} (h : Spells double t part) (hws : Blank ws)
    (hpart : ∀ value, part ≠ .value value) : Spells double (ws ++ t) part := by
  induction h with
  | null | true_ | false_ | number | string | empty_array | array | empty_object | object =>
    exact absurd rfl (hpart _)
  | item hblank hvalue hblank' =>
    rw [append_assoc, ← append_assoc, ← append_assoc]
    exact .item (hws.append hblank) hvalue hblank'
  | items hblank hvalue hblank' hitems =>
    rw [append_assoc, append_assoc, ← append_assoc, ← append_assoc, ← append_assoc]
    exact .items (hws.append hblank) hvalue hblank' hitems
  | member hblank hkey hvalid hblank' hblank'' hvalue hblank''' =>
    rw [append_assoc, append_assoc, ← append_assoc, ← append_assoc, ← append_assoc]
    exact .member (hws.append hblank) hkey hvalid hblank' hblank'' hvalue hblank'''
  | members _ hmembers ih =>
    rw [← append_assoc]
    exact .members (ih (by simp)) hmembers

theorem blank_split {ws s body rest : List Byte} {c : Byte} (hws : Blank ws) (hc : is_whitespace c = false)
    (h : body ++ c :: rest = ws ++ s) : ∃ body', body = ws ++ body' ∧ s = body' ++ c :: rest := by
  rcases append_eq_append_iff.mp h with ⟨t, hbody, hs⟩ | ⟨t, hbody, hs⟩
  · cases t with
    | nil => exact ⟨[], by simpa using hbody.symm, by simpa using hs.symm⟩
    | cons d t =>
      have hd : d = c := by
        rw [List.cons_append] at hs
        exact (List.cons.inj hs).1.symm
      have hmem : is_whitespace c = true := hws c (by rw [hbody, hd]; simp)
      rw [hmem] at hc
      cases hc
  · exact ⟨t, hbody, hs⟩

theorem array_items_negative (rounds : Nat) (items : List (Value ν)) (s : List Byte) {size : Int} (h : size < 0) :
    array_items decode rounds items s size = none := by
  induction rounds generalizing items s size with
  | zero => rfl
  | succ rounds ih =>
    rw [array_items, if_pos (by simp [exceeds, h])]
    cases decode s size with
    | none => rfl
    | some found =>
      obtain ⟨child, length⟩ := found
      simp only [clear_whitespace_small (show size - (length : Int) < 1 by omega)]
      rw [if_neg (by omega)]
      cases s.drop length with
      | nil => rfl
      | cons c s =>
        simp only
        split
        · simp only [clear_whitespace_small (show size - (length : Int) - 1 < 1 by omega)]
          exact ih _ _ (by omega)
        · rfl

theorem clear_whitespace_body (body rest : List Byte) : ∃ ws body', Blank ws ∧ body = ws ++ body' ∧
      clear_whitespace (body ++ close_array :: rest) (body.length + 1) =
        (body' ++ close_array :: rest, (body'.length : Int) + 1) := by
  obtain ⟨ws, hws, hs, hsize, -⟩ := clear_whitespace_split (body ++ close_array :: rest) (body.length + 1)
  obtain ⟨body', hbody, hrest⟩ := blank_split hws (by decide) hs
  refine ⟨ws, body', hws, hbody, Prod.ext hrest ?_⟩
  rw [hsize, hbody, length_append]
  simp only
  omega

include hdecode

theorem array_items_sound (rounds : Nat) {acc result : List (Value ν)} {body rest : List Byte} {scope : Nat}
    (h : array_items decode rounds acc (body ++ close_array :: rest) (body.length + 1) = some result)
    (hscope : Scope (body ++ close_array :: rest) (body.length + 1) scope) (hbody : body ≠ []) :
    ∃ items, result = acc ++ items ∧ Spells double body (.items items) := by
  induction rounds generalizing acc body scope with
  | zero => cases h
  | succ rounds ih =>
    have hpos : 0 < body.length := length_pos_of_ne_nil hbody
    rw [array_items, if_pos (exceeds_of_lt (by omega))] at h
    split at h
    · cases h
    rename_i child length hchild
    have hle : (length : Int) ≤ body.length + 1 := hdecode.le_size hchild (by omega)
    obtain ⟨ws, t, rest', hws, hs, hlength, hspells⟩ := hdecode.spells hchild (hscope.mono hle)
    by_cases hall : length = body.length + 1
    · -- the item takes the closing bracket
      have hzero : (body.length : Int) + 1 - length = 0 := by omega
      rw [hzero, clear_whitespace_small (by decide)] at h
      simp only at h
      rw [if_neg (by decide)] at h
      split at h
      · cases h
      split at h
      · rw [clear_whitespace_small (by decide)] at h
        simp only at h
        rw [array_items_negative _ _ _ (by decide)] at h
        cases h
      · cases h
    obtain ⟨body', hbody', hrest'⟩ : ∃ body', body = ws ++ t ++ body' ∧ rest' = body' ++ close_array :: rest := by
      rcases append_eq_append_iff.mp hs with ⟨u, hu, hu'⟩ | ⟨u, hu, hu'⟩
      · cases u with
        | nil => exact ⟨[], by simpa using hu.symm, by simpa using hu'.symm⟩
        | cons d u =>
          have := congrArg List.length hu
          simp only [length_append, length_cons] at this
          omega
      · exact ⟨u, hu, hu'⟩
    subst hbody'
    have hdrop : (ws ++ t ++ body' ++ close_array :: rest).drop length = body' ++ close_array :: rest := by
      rw [append_assoc, hlength, ← length_append, drop_left]
    have hsize : ((ws ++ t ++ body').length : Int) + 1 - length = body'.length + 1 := by
      rw [hlength, length_append, length_append]
      omega
    obtain ⟨ws', body'', hws', rfl, hclear⟩ := clear_whitespace_body body' rest
    rw [hdrop, hsize, hclear] at h
    simp only at h
    split at h
    · -- the last item
      rename_i hlast
      have hnil : body'' = [] := eq_nil_of_length_eq_zero (by omega)
      subst hnil
      rw [List.append_nil]
      exact ⟨[child], (some.inj h).symm, .item hws hspells hws'⟩
    rename_i hlast
    cases body'' with
    | nil => exact absurd (by simp) hlast
    | cons c body3 =>
      rw [List.cons_append] at h
      simp only at h
      split at h
      · rename_i hc
        subst hc
        obtain ⟨ws3, body4, hws3, rfl, hclear3⟩ := clear_whitespace_body body3 rest
        have hsize3 : (((comma :: (ws3 ++ body4)).length : Nat) : Int) + 1 - 1 = (ws3 ++ body4).length + 1 := by
          rw [length_cons]
          omega
        rw [hsize3, hclear3] at h
        simp only at h
        have hneutral : Neutral (ws ++ t ++ ws') :=
          ((Neutral.blank hws).append hspells.neutral).append (Neutral.blank hws')
        have hassoc : ws ++ t ++ (ws' ++ comma :: (ws3 ++ body4)) ++ close_array :: rest =
            (ws ++ t ++ ws') ++ (comma :: (ws3 ++ (body4 ++ close_array :: rest))) := by simp
        rw [hassoc] at hscope
        have hcomma := (hscope.behind hneutral (by simp only [length_append]; omega)).2
        have hlimit : ((ws ++ t ++ (ws' ++ comma :: (ws3 ++ body4))).length : Int) + 1 -
            (ws ++ t ++ ws').length = (ws3.length : Int) + body4.length + 2 := by
          simp only [length_append, length_cons]
          omega
        rw [hlimit] at hcomma
        have hbody4 : body4 ≠ [] := by
          rintro rfl
          exact hcomma.no_trailing_comma hws3 (by simp)
        have hskip : Neutral (comma :: ws3) :=
          Neutral.append (Neutral.plain (t := [comma]) (by decide)) (Neutral.blank hws3)
        have hnext := (hcomma.behind (t := comma :: ws3) hskip (by rw [length_cons]; omega)).2
        have hlimit4 : (ws3.length : Int) + body4.length + 2 - (comma :: ws3).length = body4.length + 1 := by
          rw [length_cons]
          omega
        rw [hlimit4] at hnext
        obtain ⟨items, rfl, hitems⟩ := ih h hnext hbody4
        refine ⟨child :: items, by simp, ?_⟩
        have hrow := Spells.items hws hspells hws' (hitems.blank hws3 (by simp))
        rwa [append_assoc] at hrow
      · cases h

omit hdecode in
theorem object_key_split {keys : List (List Byte)} {s s' key : List Byte} {size size' : Int}
    (h : object_key keys s size = some (key, s', size')) :
    ∃ ws content ws' ws'', Blank ws ∧ Blank ws' ∧ Blank ws'' ∧ validate_string content false = true ∧
      key = cstring.of content ∧
      s = ws ++ (quote :: content ++ [quote]) ++ ws' ++ colon :: (ws'' ++ s') ∧
      size' = size - (ws.length + content.length + ws'.length + ws''.length + 2) := by
  rw [object_key] at h
  split at h
  · cases h
  rename_i start length hmatch
  obtain ⟨ws, content, rest, hws, hs, hstart, hlength, hvalid, -⟩ := match_string_split hmatch
  have htake : start.take length = content := by rw [hstart, ← hlength, take_left]
  have hdrop : start.drop (length + 1) = rest := by
    rw [hstart, ← hlength, drop_append, drop_of_length_le (by omega)]
    simp
  have hoffset : offset s start = ws.length + 1 := by
    rw [hs, append_cons, offset_append, length_append, length_singleton]
  simp only [htake, hdrop, hoffset] at h
  split at h
  · cases h
  obtain ⟨ws', hws', hrest, hsize', -⟩ :=
    clear_whitespace_split rest (size - ((ws.length + 1 : Nat) + length))
  generalize hclear : clear_whitespace rest (size - ((ws.length + 1 : Nat) + length)) = cleared at h hrest hsize'
  obtain ⟨content2, size2⟩ := cleared
  simp only at h hrest hsize'
  split at h
  · cases h
  rename_i c content3
  split at h
  · rename_i hc
    subst hc
    obtain ⟨ws'', hws'', hcontent3, hsize3, -⟩ := clear_whitespace_split content3 (size2 - 1)
    simp only [some.injEq, Prod.mk.injEq] at h
    obtain ⟨hkey, hs', hsize⟩ := h
    rw [hs'] at hcontent3
    refine ⟨ws, content, ws', ws'', hws, hws', hws'', hvalid, hkey.symm, ?_, ?_⟩
    · rw [hs, hstart, hrest, hcontent3]
      simp
    rw [← hsize, hsize3, hsize', ← hlength]
    omega
  · cases h

theorem object_members_sound (rounds : Nat) {acc result : List (List Byte × Value ν)} {s : List Byte} {size : Int}
    {n scope : Nat} (h : object_members decode rounds acc s size = some result) (hsize : 1 < size)
    (hle : n + 1 ≤ size) (hclose : structural_close 0 .outside s = some n)
    (hclean : all_octets clean_at .outside (s.take scope) = true) (hn : n ≤ scope) :
    ∃ members t rest, result = acc ++ members ∧ s = t ++ close_object :: rest ∧ t.length = n ∧
      Spells double t (.members members) := by
  induction rounds generalizing acc s size n scope with
  | zero => cases h
  | succ rounds ih =>
    rw [object_members, if_pos (exceeds_of_lt (by omega))] at h
    split at h
    · cases h
    rename_i key s' size' hkey
    obtain ⟨ws, content, ws', ws'', hws, hws', hws'', hvalid, rfl, hs, hsize'⟩ := object_key_split hkey
    have hcontent : is_content content = true ∧ utf8.is_sequence content = true := by
      simp only [validate_string, utf8.validate_sequence, Bool.and_eq_true, Bool.false_eq_true, if_false] at hvalid
      exact ⟨hvalid.2, hvalid.1.2⟩
    have hscope : Scope s s.length scope := ⟨hclean, Or.inr ⟨0, n, hclose, hn⟩⟩
    -- the key
    have hchars : is_chars content = true := by
      have hfront : s = ws ++ (quote :: (content ++ quote :: (ws' ++ colon :: (ws'' ++ s')))) := by
        rw [hs]
        simp
      have hlength := congrArg List.length hfront
      simp only [length_append, length_cons] at hlength
      rw [hfront] at hscope
      have hstring := (hscope.behind (Neutral.blank hws) (by simp only [length_append]; omega)).2
      exact hstring.string hcontent.1 (by simp only [length_append, length_cons]; omega)
    rw [cstring_of_chars hchars] at h
    obtain ⟨front, hfront⟩ : ∃ front, front = ws ++ (quote :: content ++ [quote]) ++ ws' ++ colon :: ws'' := ⟨_, rfl⟩
    have hneutral : Neutral front := by
      rw [hfront]
      have hcolon : Neutral (colon :: ws'') :=
        Neutral.append (Neutral.plain (t := [colon]) (by decide)) (Neutral.blank hws'')
      exact (((Neutral.blank hws).append (Neutral.string hchars)).append (Neutral.blank hws')).append hcolon
    have hlength : (front.length : Int) = ws.length + content.length + ws'.length + ws''.length + 3 := by
      rw [hfront]
      simp only [length_append, length_cons, length_nil]
      omega
    have hsplit : s = front ++ s' := by
      rw [hs, hfront]
      simp
    rw [hsplit, hneutral.close] at hclose
    obtain ⟨n', hclose', rfl⟩ := map_eq_some_iff.mp hclose
    rw [hsplit] at hscope
    have hbehind := (hscope.behind hneutral (by rw [length_append]; omega)).2
    -- the value
    split at h
    · cases h
    rename_i child length hchild
    have hvalue : Scope s' length (scope - front.length) := ⟨hbehind.clean, Or.inr ⟨0, n', hclose', by omega⟩⟩
    obtain ⟨ws3, t, rest, hws3, hs', hlength', hspells⟩ := hdecode.spells hchild hvalue
    have hvalueneutral : Neutral (ws3 ++ t) := (Neutral.blank hws3).append hspells.neutral
    have hdrop : s'.drop length = rest := by rw [hs', hlength', ← length_append, drop_left]
    rw [hdrop] at h
    rw [hs', hvalueneutral.close] at hclose'
    obtain ⟨n3, hclose3, rfl⟩ := map_eq_some_iff.mp hclose'
    rw [hs'] at hbehind
    rw [length_append] at hn hle
    have hbehind3 := (hbehind.behind hvalueneutral (by simp only [length_append]; omega)).2
    obtain ⟨ws4, hws4, hrest, hsize4, -⟩ := clear_whitespace_split rest (size' - length)
    generalize hclear : clear_whitespace rest (size' - length) = cleared at h hrest hsize4
    obtain ⟨content4, size4⟩ := cleared
    simp only at h hrest hsize4
    subst hrest
    rw [(Neutral.blank hws4).close] at hclose3
    obtain ⟨n4, hclose4, rfl⟩ := map_eq_some_iff.mp hclose3
    have hmember : Spells double (ws ++ (quote :: content ++ [quote]) ++ ws' ++
        colon :: ((ws'' ++ ws3) ++ t ++ ws4)) (.members [(content, child)]) :=
      .member hws hchars hcontent.2 hws' (hws''.append hws3) hspells hws4
    have htext : front ++ (ws3 ++ t) ++ ws4 = ws ++ (quote :: content ++ [quote]) ++ ws' ++
        colon :: ((ws'' ++ ws3) ++ t ++ ws4) := by
      rw [hfront]
      simp
    rw [← htext] at hmember
    split at h
    · cases h
    rename_i c content5
    split at h
    · -- the closing brace
      rename_i hc
      subst hc
      rw [structural_close_cons, if_pos (by simp)] at hclose4
      obtain rfl : 0 = n4 := some.inj hclose4
      refine ⟨[(content, child)], _, content5, (some.inj h).symm, ?_, ?_, hmember⟩
      · rw [hsplit, hs']
        simp
      simp only [length_append]
      omega
    split at h
    · -- another member
      rename_i hc
      subst hc
      have hcomma : Neutral [comma] := Neutral.plain (by decide)
      have hsingle : comma :: content5 = [comma] ++ content5 := rfl
      rw [hsingle, hcomma.close] at hclose4
      obtain ⟨n5, hclose5, rfl⟩ := map_eq_some_iff.mp hclose4
      simp only [length_singleton] at hn hle
      rw [hsingle, ← append_assoc ws4] at hbehind3
      have hbehind5 := (hbehind3.behind ((Neutral.blank hws4).append hcomma)
        (by simp only [length_append]; omega)).2
      obtain ⟨members, u, rest5, rfl, hcontent5, hu, hmembers⟩ :=
        ih h (by omega) (by omega) hclose5 hbehind5.clean
          (by simp only [length_append, length_singleton]; omega)
      refine ⟨(content, child) :: members, _, rest5, by simp, ?_, ?_, .members hmember hmembers⟩
      · rw [hsplit, hs', hcontent5]
        simp
      simp only [length_append, length_cons, length_nil, hu]
      omega
    · cases h

end loops

section tokens

variable {decode : Decode ν} (hdecode : Sound double decode)

theorem match_brackets_split {opening closing : Byte} (hopening : is_whitespace opening = false) {s start : List Byte}
    {size : Int} {length : Nat} (h : match_brackets opening closing (opening :: s) size = some (start, length)) :
    start = s ∧ exceeds 1 size = true ∧ find_close opening closing 0 (size - 1) s = some length := by
  have hskip : skip_whitespace (opening :: s) size = some (opening :: s, size) := by simp [skip_whitespace, hopening]
  rw [match_brackets] at h
  split at h
  · rename_i hover
    rw [hskip] at h
    simp only [if_true] at h
    obtain ⟨n, hn, heq⟩ := map_eq_some_iff.mp h
    cases heq
    exact ⟨rfl, hover, hn⟩
  · cases h

variable {s : List Byte}

theorem Scope.closing_brace {limit size : Int} {scope n : Nat}
    (h : Scope (open_object :: s) limit scope) (hfind : find_close open_object close_object 0 size s = some n)
    (hlimit : n + 2 ≤ limit) : structural_close 0 .outside s = some n ∧ n + 2 ≤ scope := by
  have hne : open_object ≠ close_object := by decide
  obtain ⟨content, rest, hs, hlength, -⟩ := find_close_split hfind
  have hlt : n < s.length := by
    rw [hs, length_append, length_cons]
    omega
  obtain ⟨scope', rfl, hclean, -⟩ := h.head (by decide) (by omega)
  have hagree : find_close open_object close_object 0 (s.take scope').length (s.take scope') =
      structural_close 0 .outside (s.take scope') := by
    simp only [clean_at, Bool.and_eq_true] at hclean
    have hbraces := hclean.1.2
    rw [braces_agree_at] at hbraces
    simpa using hbraces
  have hparts : s = s.take scope' ++ s.drop scope' := (take_append_drop scope' s).symm
  have htake : ∀ {k : Nat}, k < scope' → k < s.length → k < (s.take scope').length := by
    intro k hk hk'
    rw [length_take]
    omega
  rcases h.reach with hle | ⟨depth, m, hclose, hle⟩
  · have hn : n < scope' := by omega
    rw [hparts] at hfind
    rw [find_close_limited hne hfind (htake hn hlt) (Int.le_refl _)] at hagree
    refine ⟨?_, by omega⟩
    rw [hparts]
    exact structural_close_append hagree.symm _
  have hopen : structural_close depth .outside (open_object :: s) =
      (structural_close (depth + 1) .outside s).map (· + 1) := rfl
  rw [hopen] at hclose
  obtain ⟨k, hk, rfl⟩ := map_eq_some_iff.mp hclose
  obtain ⟨k', hk', hinner⟩ := structural_close_inner hk
  obtain ⟨n', hn', hfound⟩ := structural_close_innermost hinner
  have hlt' := structural_close_lt hfound
  have hlimited := hfound
  rw [hparts] at hlimited
  rw [structural_close_limited hlimited (htake (by omega) hlt')] at hagree
  have hsame : n = n' := by
    have hthere := find_close_unlimited hne hfind (show (-1 : Int) < 0 by decide) []
    have hhere := find_close_unlimited hne hagree (show (-1 : Int) < 0 by decide) (s.drop scope')
    rw [List.append_nil] at hthere
    rw [← hparts, hthere] at hhere
    exact some.inj hhere
  subst hsame
  exact ⟨hfound, by omega⟩

theorem match_le_size {size : Int} {n : Nat} (hover : exceeds 1 size = true) (hpos : 0 ≤ size)
    (h : 1 ≤ size - 1 → (n : Int) + 1 ≤ size - 1) : (n : Int) + 2 ≤ size := by
  simp only [exceeds, Bool.or_eq_true, decide_eq_true_eq] at hover
  have := h (by omega)
  omega

theorem offset_cons (c : Byte) (s : List Byte) : offset (c :: s) s = 1 := offset_append [c] s

theorem array_decode_le {size : Int} {value : Value ν} {len : Nat}
    (h : array_decode decode (open_array :: s) size = some (value, len)) (hpos : 0 ≤ size) : len ≤ size := by
  rw [array_decode] at h
  split at h
  · cases h
  rename_i start length hmatch
  obtain ⟨rfl, hover, hfind⟩ := match_brackets_split (by decide) hmatch
  obtain ⟨-, -, -, -, hbound⟩ := find_close_split hfind
  simp only [offset_cons] at h
  generalize array_items decode (open_array :: start).length [] (clear_whitespace start (length + 1)).1
    (clear_whitespace start (length + 1)).2 = inner at h
  cases inner with
  | none => cases h
  | some inner =>
    cases h
    have := match_le_size hover hpos hbound
    omega

theorem object_decode_le {size : Int} {value : Value ν} {len : Nat}
    (h : object_decode decode (open_object :: s) size = some (value, len)) (hpos : 0 ≤ size) : len ≤ size := by
  rw [object_decode] at h
  split at h
  · cases h
  rename_i start length hmatch
  obtain ⟨rfl, hover, hfind⟩ := match_brackets_split (by decide) hmatch
  obtain ⟨-, -, -, -, hbound⟩ := find_close_split hfind
  simp only [offset_cons] at h
  generalize object_members decode (open_object :: start).length [] (clear_whitespace start (length + 1)).1
    (clear_whitespace start (length + 1)).2 = inner at h
  cases inner with
  | none => cases h
  | some inner =>
    cases h
    have := match_le_size hover hpos hbound
    omega

include hdecode

theorem array_decode_sound {size : Int} {value : Value ν} {len scope : Nat}
    (h : array_decode decode (open_array :: s) size = some (value, len))
    (hscope : Scope (open_array :: s) len scope) :
    ∃ t rest, open_array :: s = t ++ rest ∧ len = t.length ∧ Spells double t (.value value) := by
  rw [array_decode] at h
  split at h
  · cases h
  rename_i start length hmatch
  obtain ⟨rfl, hover, hfind⟩ := match_brackets_split (by decide) hmatch
  obtain ⟨content, rest, rfl, rfl, -⟩ := find_close_split hfind
  obtain ⟨ws, body, hws, rfl, hclear⟩ := clear_whitespace_body content rest
  simp only [hclear] at h
  split at h
  · cases h
  rename_i items hitems
  rw [offset_cons] at h
  simp only [some.injEq, Prod.mk.injEq] at h
  obtain ⟨rfl, rfl⟩ := h
  refine ⟨open_array :: (ws ++ body) ++ [close_array], rest, by simp, ?_, ?_⟩
  · simp only [length_append, length_cons, length_nil]
    omega
  by_cases hbody : body = []
  · subst hbody
    have hnone : items = [] := by
      cases hrounds : (open_array :: (ws ++ [] ++ close_array :: rest)).length with
      | zero => simp at hrounds
      | succ rounds =>
        rw [hrounds, array_items] at hitems
        simpa [exceeds] using hitems.symm
    subst hnone
    rw [List.append_nil]
    exact .empty_array hws
  have hfront : Neutral (open_array :: ws) :=
    Neutral.append (Neutral.plain (t := [open_array]) (by decide)) (Neutral.blank hws)
  have hassoc : open_array :: (ws ++ body ++ close_array :: rest) =
      (open_array :: ws) ++ (body ++ close_array :: rest) := by simp
  rw [hassoc] at hscope
  have hinner := (hscope.behind hfront (by simp only [length_append, length_cons]; omega)).2
  have hlimit : (((1 + (ws ++ body).length + 1 : Nat) : Int) - (open_array :: ws).length) = body.length + 1 := by
    simp only [length_append, length_cons]
    omega
  rw [hlimit] at hinner
  obtain ⟨items', rfl, hspells⟩ := array_items_sound hdecode _ hitems hinner hbody
  exact .array (hspells.blank hws (by simp))

theorem object_decode_sound {size : Int} {value : Value ν} {len scope : Nat}
    (h : object_decode decode (open_object :: s) size = some (value, len))
    (hscope : Scope (open_object :: s) len scope) :
    ∃ t rest, open_object :: s = t ++ rest ∧ len = t.length ∧ Spells double t (.value value) := by
  rw [object_decode] at h
  split at h
  · cases h
  rename_i start length hmatch
  obtain ⟨rfl, hover, hfind⟩ := match_brackets_split (by decide) hmatch
  obtain ⟨ws, hws, hs, hsize, -⟩ := clear_whitespace_split start ((length : Int) + 1)
  generalize hclear : clear_whitespace start ((length : Int) + 1) = cleared at h hs hsize
  obtain ⟨content, content_size⟩ := cleared
  simp only at h hs hsize
  subst hs
  split at h
  · cases h
  rename_i members hmembers
  rw [offset_cons] at h
  simp only [some.injEq, Prod.mk.injEq] at h
  obtain ⟨rfl, rfl⟩ := h
  obtain ⟨hclose, hle⟩ := hscope.closing_brace hfind (by omega)
  have hclean : all_octets clean_at .outside ((ws ++ content).take (scope - 1)) = true := by
    obtain ⟨scope', rfl, -, hclean⟩ := hscope.head (by decide) (by omega)
    exact hclean
  have hinner : Scope (ws ++ content) ws.length (scope - 1) :=
    ⟨hclean, Or.inr ⟨0, length, hclose, by omega⟩⟩
  obtain ⟨-, hbehind⟩ := hinner.behind (Neutral.blank hws) (Int.le_refl _)
  rw [(Neutral.blank hws).close] at hclose
  obtain ⟨n, hn, rfl⟩ := map_eq_some_iff.mp hclose
  by_cases hlarge : 1 < content_size
  · obtain ⟨members', t, rest, rfl, rfl, ht, hspells⟩ := object_members_sound hdecode _ hmembers hlarge
      (by omega) hn hbehind.clean (by omega)
    refine ⟨open_object :: (ws ++ t) ++ [close_object], rest, by simp, ?_, ?_⟩
    · simp only [length_append, length_cons, length_nil]
      omega
    · exact .object (hspells.blank hws (by simp))
  -- nothing stands between the braces
  have hnone : content.head? = some close_object ∧ members = [] := by
    cases hrounds : (open_object :: (ws ++ content)).length with
    | zero => simp at hrounds
    | succ rounds =>
      have hover' : exceeds 1 content_size = false := by
        simp only [exceeds, Bool.or_eq_false_iff, decide_eq_false_iff_not]
        omega
      rw [hrounds, object_members, hover'] at hmembers
      simp only [Bool.false_eq_true, if_false] at hmembers
      split at hmembers
      · rename_i hhead
        exact ⟨hhead, (some.inj hmembers).symm⟩
      · cases hmembers
  obtain ⟨hhead, rfl⟩ := hnone
  obtain ⟨rest, rfl⟩ : ∃ rest, content = close_object :: rest := by
    cases content with
    | nil => cases hhead
    | cons c rest => exact ⟨rest, by rw [some.inj hhead]⟩
  obtain rfl : n = 0 := by omega
  refine ⟨open_object :: ws ++ [close_object], rest, by simp, ?_, .empty_object hws⟩
  simp only [length_append, length_cons, length_nil]
  omega

end tokens

theorem string_decode_split {s : List Byte} {size : Int} {value : Value ν} {len : Nat}
    (h : string_decode (quote :: s) size = some (value, len)) :
    ∃ content rest, s = content ++ quote :: rest ∧ value = .string (cstring.of content) ∧
      len = content.length + 2 ∧ validate_string content false = true ∧ (0 ≤ size → len ≤ size) := by
  rw [string_decode] at h
  split at h
  · rename_i start length hmatch
    obtain rfl := match_string_start hmatch
    obtain ⟨ws, content, rest, -, -, rfl, rfl, hvalid, hbound⟩ := match_string_split hmatch
    rw [take_left] at h
    cases h
    refine ⟨content, rest, rfl, rfl, rfl, hvalid, fun hpos => ?_⟩
    have := hbound hpos
    omega
  · cases h

theorem word_decode_split {word s : List Byte} {value found : Value ν} {size : Int} {len : Nat}
    (hword : 0 < word.length) (h : word_decode word value s size = some (found, len)) :
    ∃ rest, s = word ++ rest ∧ found = value ∧ len = word.length ∧ (0 ≤ size → len ≤ size) := by
  rw [word_decode] at h
  split at h
  · rename_i hmatch
    rw [Bool.and_eq_true, decide_eq_true_eq] at hmatch
    obtain ⟨hover, htake⟩ := hmatch
    cases h
    refine ⟨s.drop word.length, ?_, rfl, rfl, fun hpos => ?_⟩
    · calc s = s.take word.length ++ s.drop word.length := (take_append_drop _ _).symm
        _ = word ++ s.drop word.length := by rw [htake]
    simp only [exceeds, Bool.or_eq_true, decide_eq_true_eq] at hover
    omega
  · cases h

theorem number_decode_le {s : List Byte} {size : Int} {value : Value ν} {len : Nat}
    (h : number_decode double s size = some (value, len)) : len ≠ 0 ∧ (0 ≤ size → len ≤ size) := by
  simp only [number_decode] at h
  split at h
  · cases h
  rename_i hguard
  simp only [Bool.or_eq_true, Bool.and_eq_true, decide_eq_true_eq, not_or, not_and] at hguard
  split at h
  · split at h
    · cases h
    split at h
    · cases h
      exact ⟨hguard.1.2, fun hpos => by have := hguard.2 hpos; omega⟩
    · cases h
  · cases h

section value

variable {decode : Decode ν} (hdecode : Sound double decode)

theorem token_decode_le {s : List Byte} {size : Int} {value : Value ν} {len : Nat}
    (h : token_decode double decode s size = some (value, len)) (hpos : 0 ≤ size) : len ≤ size := by
  cases s with
  | nil => cases h
  | cons c s =>
    simp only [token_decode] at h
    split at h
    · rename_i hc
      subst hc
      exact object_decode_le h hpos
    split at h
    · rename_i hc
      subst hc
      exact array_decode_le h hpos
    split at h
    · rename_i hc
      subst hc
      obtain ⟨-, -, -, -, -, -, hle⟩ := string_decode_split h
      exact hle hpos
    split at h
    · obtain ⟨-, -, -, -, hle⟩ := word_decode_split (by decide) h
      exact hle hpos
    split at h
    · obtain ⟨-, -, -, -, hle⟩ := word_decode_split (by decide) h
      exact hle hpos
    split at h
    · obtain ⟨-, -, -, -, hle⟩ := word_decode_split (by decide) h
      exact hle hpos
    split at h
    · exact (number_decode_le h).2 hpos
    · cases h

include hdecode

theorem token_decode_sound {s : List Byte} {size : Int} {value : Value ν} {len scope : Nat}
    (h : token_decode double decode s size = some (value, len)) (hscope : Scope s len scope) :
    ∃ t rest, s = t ++ rest ∧ len = t.length ∧ Spells double t (.value value) := by
  have hword : ∀ {word : List Byte} {found : Value ν}, 0 < word.length → Spells double word (.value found) →
      word_decode word found s size = some (value, len) →
      ∃ t rest, s = t ++ rest ∧ len = t.length ∧ Spells double t (.value value) := by
    intro word found hpos hspells h
    obtain ⟨rest, hs, rfl, hlen, -⟩ := word_decode_split hpos h
    exact ⟨word, rest, hs, hlen, hspells⟩
  cases s with
  | nil => cases h
  | cons c s =>
    simp only [token_decode] at h
    split at h
    · rename_i hc
      subst hc
      exact object_decode_sound hdecode h hscope
    rename_i hbrace
    split at h
    · rename_i hc
      subst hc
      exact array_decode_sound hdecode h hscope
    split at h
    · rename_i hc
      subst hc
      obtain ⟨content, rest, rfl, rfl, rfl, hvalid, -⟩ := string_decode_split h
      simp only [validate_string, utf8.validate_sequence, Bool.and_eq_true, Bool.false_eq_true, if_false] at hvalid
      have hchars := hscope.string hvalid.2 (by omega)
      refine ⟨quote :: content ++ [quote], rest, by simp, by simp, ?_⟩
      rw [cstring_of_chars hchars]
      exact .string hchars hvalid.1.2
    split at h
    · exact hword (by decide) .null h
    split at h
    · exact hword (by decide) .false_ h
    split at h
    · exact hword (by decide) .true_ h
    split at h
    · -- the scope has no numbers
      rename_i hnumber
      have hlen := (number_decode_le h).1
      have hclose : c ≠ close_object := by
        rintro rfl
        exact absurd hnumber (by decide)
      obtain ⟨k, -, hclean, -⟩ := hscope.head hclose (by omega)
      simp only [clean_at, Bool.and_eq_true, numberless_at, hnumber] at hclean
      exact absurd hclean.2 (by decide)
    · cases h

theorem value_decode_sound : Sound double (value_decode double decode) where
  le_size := by
    intro s size value len h hpos
    rw [value_decode] at h
    split at h
    · obtain ⟨ws, -, hs, hsize, hle⟩ := clear_whitespace_split s size
      generalize clear_whitespace s size = cleared at h hs hsize
      obtain ⟨ptr, size'⟩ := cleared
      simp only at h hs hsize
      split at h
      · cases h
      rename_i found n htoken
      cases h
      have hn := token_decode_le htoken (by have := hle hpos; omega)
      rw [hs, offset_append]
      omega
    · cases h
  spells := by
    intro s size value len scope h hscope
    rw [value_decode] at h
    split at h
    · obtain ⟨ws, hws, hs, -, -⟩ := clear_whitespace_split s size
      generalize clear_whitespace s size = cleared at h hs
      obtain ⟨ptr, size'⟩ := cleared
      simp only at h hs
      subst hs
      split at h
      · cases h
      rename_i found n htoken
      rw [offset_append] at h
      cases h
      have hbehind := (hscope.behind (Neutral.blank hws) (by omega)).2
      have hlimit : (((ws.length + n : Nat) : Int) - ws.length) = n := by omega
      rw [hlimit] at hbehind
      obtain ⟨t, rest, rfl, rfl, hspells⟩ := token_decode_sound hdecode htoken hbehind
      exact ⟨ws, t, rest, hws, by simp, rfl, hspells⟩
    · cases h

end value

theorem decode_sound (double : Double ν) (depth : Nat) : Sound double (decode double depth) := by
  induction depth with
  | zero => exact ⟨fun h => (by cases h), fun h => (by cases h)⟩
  | succ depth ih => exact value_decode_sound ih

/-- What the parser accepts of a text without numbers is a JSON text that denotes the value, if it
is tidy and its braces agree; and whatever is a JSON text is tidy. -/
theorem decode_sound_when (double : Double ν) (memory : List Byte) (length : Nat) (value : Value ν) (len : Nat)
    (h : parser_decode double memory length = some (value, len))
    (hnumberless : numberless (memory.take len) = true) :
    (tidy (memory.take len) = true ∧ braces_agree (memory.take len) = true →
      len ≤ length ∧ JsonText double (memory.take len) value) ∧
    (JsonText double (memory.take len) value → tidy (memory.take len) = true) := by
  refine ⟨fun ⟨htidy, hbraces⟩ => ?_, JsonText.tidy⟩
  have hdecode := decode_sound double (memory.length + 1)
  have hclean : all_octets clean_at .outside (memory.take len) = true := by
    have hand := @all_octets_and (fun lex c s => tidy_at lex c s && braces_agree_at lex c s) numberless_at
      .outside (memory.take len)
    have hand' := @all_octets_and tidy_at braces_agree_at .outside (memory.take len)
    rw [hand'] at hand
    exact hand.trans (by rw [Bool.and_eq_true, Bool.and_eq_true]; exact ⟨⟨htidy, hbraces⟩, hnumberless⟩)
  have hle := hdecode.le_size h (by omega)
  obtain ⟨ws, t, rest, hws, hmemory, hlen, hspells⟩ := hdecode.spells h ⟨hclean, Or.inl (Int.le_refl _)⟩
  refine ⟨by omega, ws, t, [], hws, blank_nil, ?_, hspells⟩
  rw [hmemory, hlen, ← length_append, take_left, List.append_nil]

def nested_text : List Byte := [123, 34, 97, 34, 58, 91, 110, 117, 108, 108, 93, 125]

theorem nested_text_sound : JsonText integers (nested_text.take 12) (.object [([97], .array [.null])]) := by
  have hread : parser_decode integers (nested_text ++ [0]) 12 = some (.object [([97], .array [.null])], 12) := by rfl
  have hsound := (decode_sound_when integers (nested_text ++ [0]) 12 _ 12 hread (by decide)).1
    ⟨by decide, by decide⟩
  exact hsound.2

/-- The text `[null,]` is accepted. -/
theorem trailing_comma_accepted :
    parser_decode integers [91, 110, 117, 108, 108, 44, 93, 0] 7 = some (.array [.null], 7) ∧
      numberless [91, 110, 117, 108, 108, 44, 93] = true ∧
      ∀ value, ¬ JsonText integers [91, 110, 117, 108, 108, 44, 93] value := by
  refine ⟨by rfl, by decide, fun value hvalue => ?_⟩
  have htidy := hvalue.tidy
  exact absurd htidy (by decide)

end openvocs.json
