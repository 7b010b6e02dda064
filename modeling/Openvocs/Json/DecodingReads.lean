import Openvocs.Json.Decoding
import Openvocs.Json.ScanSteps

open List

namespace openvocs.json.decoding

open calls
open scan (Scan fail trim)

variable {s t u : List Byte} {size : Int} {c : Byte}

/-- No quote ends the string. -/
def unquoted : Byte → List Byte → Bool
  | _, [] => true
  | prev, c :: s => if c = quote ∧ prev ≠ backslash then false else unquoted c s

/-- No bracket closes what is open. -/
def unclosed (opening closing : Byte) : Nat → List Byte → Bool
  | _, [] => true
  | child_open, c :: s =>
    if c = closing ∧ child_open = 0 then false
    else
      unclosed opening closing
        (if c = opening then child_open + 1 else if c = closing then child_open - 1 else child_open) s

/-- The size lets the search for a string go behind the end, in white space or behind a quote. -/
def LacksQuote (s : List Byte) (size : Int) : Prop :=
  exceeds 1 size = true ∧
    match trim s with
    | [] => s.length ≤ size ∨ size < 0
    | c :: u => c = quote ∧ exceeds s.length size = true ∧ unquoted quote u = true

/-- The size lets the search for the bracket that closes go behind the end. -/
def LacksClose (opening closing : Byte) (s : List Byte) (size : Int) : Prop :=
  exceeds s.length size = true ∧ unclosed opening closing 0 s.tail = true

/-- The input ends within a word, and the size lets the word be compared. -/
def LacksWord (word s : List Byte) (size : Int) : Prop :=
  exceeds (word.length - 1) size = true ∧ s <+: word ∧ s ≠ word

/-- The size lets the call for a token go behind the end. -/
def LacksToken (s : List Byte) (size : Int) : Prop :=
  match s.head? with
  | none => True
  | some c =>
    if c = open_object then LacksClose open_object close_object s size
    else if c = open_array then LacksClose open_array close_array s size
    else if c = quote then LacksQuote s size
    else if c = 110 then LacksWord null_word s size
    else if c = 102 then LacksWord false_word s size
    else if c = 116 then LacksWord true_word s size
    else False

theorem exceeds_iff {n : Nat} : exceeds n size = true ↔ n < size ∨ size < 0 := by
  simp [exceeds]

theorem reads_clear_whitespace (s : List Byte) (size : Int) :
    Call.Reads (trim s = [] ∧ s.length < size) (fun r => r.1 <:+ s ∧ r.2 - r.1.length = size - s.length)
      (scan.clear_whitespace s size) := by
  induction s generalizing size with
  | nil =>
    rw [scan.clear_whitespace]
    split
    · rename_i hsize
      refine ⟨fun h => ?_, suffix_rfl, rfl⟩
      have hlt := h.2
      rw [length_nil] at hlt
      omega
    rename_i hsize
    exact ⟨rfl, by rw [length_nil]; omega⟩
  | cons c s ih =>
    rw [scan.clear_whitespace]
    split
    · rename_i hsize
      refine ⟨fun h => ?_, suffix_rfl, rfl⟩
      have hlt := h.2
      rw [length_cons] at hlt
      omega
    by_cases hc : is_whitespace c = true
    · have htrim : trim (c :: s) = trim s := dropWhile_cons_of_pos hc
      rw [if_pos hc, htrim, length_cons]
      refine ((ih (size - 1)).mono ?_ fun r hr => ⟨hr.1.trans (suffix_cons c s), ?_⟩)
      · exact and_congr_right fun _ => by omega
      have hsame := hr.2
      omega
    rw [if_neg hc]
    refine ⟨fun h => ?_, suffix_rfl, rfl⟩
    have htrim := h.1
    rw [trim, dropWhile_cons_of_neg hc] at htrim
    cases htrim

/-- The size that is left behind the white space in front of a token. -/
def trimmed (s : List Byte) (size : Int) : Int := size - (s.length - (trim s).length)

theorem skip_whitespace_eq (s : List Byte) (size : Int) : skip_whitespace s size =
      if 0 ≤ trimmed s size ∨ size < 0 then
        if trim s = [] then .outside else .done (trim s, trimmed s size)
      else fail := by
  induction s generalizing size with
  | nil =>
    have htrimmed : trimmed [] size = size := by simp [trimmed]
    rw [skip_whitespace, htrimmed, if_pos (le_or_gt 0 size)]
    rfl
  | cons c s ih =>
    rw [skip_whitespace]
    by_cases hc : is_whitespace c = true
    · have htrim : trim (c :: s) = trim s := dropWhile_cons_of_pos hc
      have htrimmed : trimmed (c :: s) size = trimmed s (size - 1) := by
        rw [trimmed, trimmed, htrim, length_cons]
        omega
      have hle : trimmed s (size - 1) ≤ size - 1 := by
        rw [trimmed]
        have := scan.length_trim_le s
        omega
      rw [if_pos hc, htrimmed, htrim, ih]
      by_cases hsize : exceeds 0 size = true
      · rw [if_pos hsize]
        rw [exceeds_iff] at hsize
        congr 1
        rw [eq_iff_iff]
        omega
      rw [if_neg hsize]
      rw [exceeds_iff] at hsize
      rw [if_neg (by omega)]
    have htrim : trim (c :: s) = c :: s := dropWhile_cons_of_neg hc
    have htrimmed : trimmed (c :: s) size = size := by rw [trimmed, htrim, sub_self, sub_zero]
    rw [if_neg hc, htrimmed, htrim, if_pos (by omega), if_neg (cons_ne_nil c s)]

theorem exceeds_sub_one (h : exceeds 1 size = true) (n : Nat) :
    exceeds n (size - 1) = true ↔ exceeds (n + 1) size = true := by
  rw [exceeds_iff] at h
  rw [exceeds_iff, exceeds_iff]
  omega

theorem not_exceeds_succ (h : ¬ exceeds 1 size = true) (n : Nat) : ¬ exceeds (n + 1) size = true := by
  rw [exceeds_iff] at h ⊢
  omega

theorem reads_find_quote (prev : Byte) (s : List Byte) (size : Int) (h : s = [] → exceeds 0 size = true) :
    Call.Reads (exceeds s.length size = true ∧ unquoted prev s = true) (· < s.length) (find_quote prev size s) := by
  induction s generalizing prev size with
  | nil => exact ⟨h rfl, rfl⟩
  | cons c s ih =>
    rw [find_quote, unquoted, length_cons]
    by_cases hmore : exceeds 1 size = true
    · rw [if_pos hmore]
      by_cases hend : c = quote ∧ prev ≠ backslash
      · rw [if_pos hend, if_pos hend]
        exact ⟨fun h => Bool.false_ne_true h.2, Nat.succ_pos _⟩
      rw [if_neg hend, if_neg hend]
      refine (ih c (size - 1) fun _ => ?_).map ?_ fun _ hlt => Nat.succ_lt_succ hlt
      · exact (exceeds_sub_one hmore 0).mpr hmore
      · exact and_congr_left fun _ => exceeds_sub_one hmore s.length
    rw [if_neg hmore]
    have hnot := not_exceeds_succ hmore s.length
    by_cases hquote : c = quote
    · rw [if_pos hquote]
      exact ⟨fun h => hnot h.1, Nat.succ_pos _⟩
    rw [if_neg hquote]
    exact fun h => hnot h.1

theorem reads_find_close (opening closing : Byte) (child_open : Nat) (s : List Byte) (size : Int)
    (h : s = [] → exceeds 0 size = true) :
    Call.Reads (exceeds s.length size = true ∧ unclosed opening closing child_open s = true) (· < s.length)
      (find_close opening closing child_open size s) := by
  induction s generalizing child_open size with
  | nil => exact ⟨h rfl, rfl⟩
  | cons c s ih =>
    rw [find_close, unclosed, length_cons]
    by_cases hmore : exceeds 1 size = true
    · rw [if_pos hmore]
      by_cases hend : c = closing ∧ child_open = 0
      · rw [if_pos hend, if_pos hend]
        exact ⟨fun h => Bool.false_ne_true h.2, Nat.succ_pos _⟩
      rw [if_neg hend, if_neg hend]
      refine (ih _ (size - 1) fun _ => ?_).map ?_ fun _ hlt => Nat.succ_lt_succ hlt
      · exact (exceeds_sub_one hmore 0).mpr hmore
      · exact and_congr_left fun _ => exceeds_sub_one hmore s.length
    rw [if_neg hmore]
    have hnot := not_exceeds_succ hmore s.length
    by_cases hclosing : c = closing ∧ child_open = 0
    · rw [if_pos hclosing, if_pos hclosing]
      exact ⟨fun h => hnot h.1, Nat.succ_pos _⟩
    rw [if_neg hclosing, if_neg hclosing]
    exact fun h => hnot h.1

theorem trim_cons (h : is_whitespace c = false) (u : List Byte) : trim (c :: u) = c :: u :=
  dropWhile_cons_of_neg (by rw [h]; exact Bool.false_ne_true)

theorem reads_match_string (s : List Byte) (size : Int) :
    Call.Reads (LacksQuote s size) (fun r => trim s = quote :: r.1 ∧ r.2 < r.1.length) (match_string s size) := by
  have hle := scan.length_trim_le s
  have htrimmed : trimmed s size = size - (s.length - (trim s).length) := rfl
  rw [match_string, LacksQuote]
  by_cases hmore : exceeds 1 size = true
  · rw [if_pos hmore, skip_whitespace_eq]
    have hsize := exceeds_iff.mp hmore
    cases htrim : trim s with
    | nil =>
      rw [htrim, length_nil] at htrimmed
      rw [if_pos rfl]
      by_cases hwhite : 0 ≤ trimmed s size ∨ size < 0
      · rw [if_pos hwhite]
        exact ⟨hmore, by dsimp only; omega⟩
      rw [if_neg hwhite]
      intro h
      have hlack := h.2
      dsimp only at hlack
      omega
    | cons c u =>
      rw [htrim, length_cons] at hle htrimmed
      rw [if_neg (cons_ne_nil c u)]
      have hover (h : exceeds s.length size = true) : 1 < trimmed s size ∨ trimmed s size < 0 := by
        rw [exceeds_iff] at h
        omega
      by_cases hwhite : 0 ≤ trimmed s size ∨ size < 0
      · rw [if_pos hwhite, Call.done_bind]
        dsimp only
        by_cases hmore' : exceeds 1 (trimmed s size) = true
        · rw [if_pos hmore', Call.head_cons, Call.done_bind]
          dsimp only
          have hsize' := exceeds_iff.mp hmore'
          by_cases hquote : c = quote
          · subst hquote
            rw [if_pos rfl]
            have hlack : exceeds u.length (trimmed s size - 1) = true ↔ exceeds s.length size = true := by
              rw [exceeds_iff, exceeds_iff]
              omega
            refine (reads_find_quote quote u _ fun _ => (exceeds_sub_one hmore' 0).mpr hmore').bind ?_ ?_ ?_
            · exact fun h => ⟨hmore, rfl, hlack.mp h.1, h.2⟩
            · exact fun h _ hlacks => h ⟨hlack.mpr hlacks.2.2.1, hlacks.2.2.2⟩
            intro length hnot hlength
            split
            · exact ⟨fun hlacks => hnot ⟨hlack.mpr hlacks.2.2.1, hlacks.2.2.2⟩, rfl, hlength⟩
            · exact fun hlacks => hnot ⟨hlack.mpr hlacks.2.2.1, hlacks.2.2.2⟩
          rw [if_neg hquote]
          exact fun h => hquote h.2.1
        rw [if_neg hmore']
        exact fun h => hmore' (exceeds_iff.mpr (hover h.2.2.1))
      rw [if_neg hwhite]
      intro h
      have hsize' := exceeds_iff.mp h.2.2.1
      omega
  · rw [if_neg hmore]
    exact fun h => hmore h.1

theorem reads_match_brackets {opening : Byte} (hopening : is_whitespace opening = false) (closing : Byte)
    (u : List Byte) (size : Int) :
    Call.Reads (LacksClose opening closing (opening :: u) size) (fun r => r.1 = u ∧ r.2 < u.length)
      (match_brackets opening closing (opening :: u) size) := by
  have htrim := trim_cons hopening u
  have htrimmed : trimmed (opening :: u) size = size := by rw [trimmed, htrim, sub_self, sub_zero]
  rw [match_brackets, LacksClose, length_cons, tail_cons]
  by_cases hmore : exceeds 1 size = true
  · rw [if_pos hmore, skip_whitespace_eq, htrimmed, htrim, if_pos (le_or_gt 0 size), if_neg (cons_ne_nil _ _),
      Call.done_bind]
    dsimp only
    rw [Call.head_cons, Call.done_bind]
    dsimp only
    rw [if_pos rfl]
    refine (reads_find_close opening closing 0 u _ fun _ => (exceeds_sub_one hmore 0).mpr hmore).map ?_ ?_
    · exact and_congr_left fun _ => exceeds_sub_one hmore u.length
    · exact fun length hlength => ⟨rfl, hlength⟩
  rw [if_neg hmore]
  exact fun h => not_exceeds_succ hmore _ h.1

theorem reads_match_word (word s : List Byte) :
    Call.Reads (s <+: word ∧ s ≠ word) (fun r => r = s.drop word.length ∧ word.length ≤ s.length)
      (scan.match_word word s) := by
  induction word generalizing s with
  | nil =>
    refine ⟨fun h => h.2 (prefix_nil.mp h.1), rfl, Nat.zero_le _⟩
  | cons w word ih =>
    cases s with
    | nil => exact ⟨ nil_prefix, cons_ne_nil w word |>.symm⟩
    | cons c s =>
      rw [scan.match_word]
      by_cases hc : c = w
      · subst hc
        rw [if_pos rfl]
        refine (ih s).mono ?_ fun r hr => ⟨hr.1, Nat.succ_le_succ hr.2⟩
        rw [cons_prefix_cons, ne_eq, ne_eq, List.cons.injEq]
        simp
      rw [if_neg hc]
      exact fun h => hc (cons_prefix_cons.mp h.1).1

theorem reads_word_decode (word s : List Byte) (size : Int) :
    Call.Reads (LacksWord word s size) (· ≤ s.length) (word_decode word s size) := by
  rw [word_decode, LacksWord]
  by_cases hsize : exceeds (word.length - 1) size = true
  · rw [if_pos hsize]
    exact (reads_match_word word s).map (iff_and_self.mpr fun _ => hsize) fun r hr => hr.2
  rw [if_neg hsize]
  exact fun h => hsize h.1

theorem reads_object_name (keys : List (List Byte)) (s : List Byte) (size : Int) :
    Call.Reads (LacksQuote s size) (fun r => r.2.1.length < s.length) (object_name keys s size) := by
  refine (reads_match_string s size).bind id (fun hnot _ => hnot) fun r hnot hr => ?_
  obtain ⟨start, length⟩ := r
  obtain ⟨htrim, hlength⟩ := hr
  dsimp only at htrim hlength ⊢
  split
  · exact hnot
  refine ⟨hnot, ?_⟩
  have hle := scan.length_trim_le s
  rw [htrim, length_cons] at hle
  dsimp only
  rw [length_drop]
  omega

theorem reads_string_decode (u : List Byte) (size : Int) :
    Call.Reads (LacksQuote (quote :: u) size) (· ≤ (quote :: u).length) (string_decode (quote :: u) size) := by
  refine (reads_match_string (quote :: u) size).map Iff.rfl fun r hr => ?_
  obtain ⟨start, length⟩ := r
  obtain ⟨htrim, hlength⟩ := hr
  rw [trim_cons (by decide), List.cons.injEq] at htrim
  obtain ⟨-, rfl⟩ := htrim
  exact Nat.succ_le_succ hlength

theorem reads_plain_decode {c : Byte} (hobject : c ≠ open_object) (harray : c ≠ open_array) (u : List Byte)
    (size : Int) :
    Call.Reads (LacksToken (c :: u) size) (· ≤ (c :: u).length) (plain_decode c (c :: u) size) := by
  rw [plain_decode, LacksToken, head?_cons]
  dsimp only
  rw [if_neg hobject, if_neg harray]
  split
  · rename_i hquote
    subst hquote
    exact reads_string_decode u size
  split
  · exact reads_word_decode null_word _ size
  split
  · exact reads_word_decode false_word _ size
  split
  · exact reads_word_decode true_word _ size
  split
  · exact id
  · exact id

end openvocs.json.decoding
