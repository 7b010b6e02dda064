import Openvocs.Http.RequestLine

open List Option

namespace openvocs.http

open memory

def colon : Byte := 58

/-- The parts of `field-name ":" OWS field-value OWS CRLF`. -/
structure HeaderLine where
  name : List Byte
  lead : List Byte
  value : List Byte
  trail : List Byte
deriving DecidableEq

/-- The line up to its end. -/
def HeaderLine.line (l : HeaderLine) : List Byte :=
  l.name ++ colon :: (l.lead ++ (l.value ++ l.trail))

def HeaderLine.text (l : HeaderLine) : List Byte := l.line ++ crlf

/-- A line without folding, within the limit for lines and in memory. -/
structure HeaderLine.Legal (max : Nat) (l : HeaderLine) : Prop where
  name : l.name ≠ [] ∧ ∀ c ∈ l.name, is_token c = true
  lead : ∀ c ∈ l.lead, is_whitespace c = true
  value : ∀ c ∈ l.value, is_whitespace c = true ∨ is_control c = false
  first : ∀ c ∈ l.value.head?, is_whitespace c = false
  last : ∀ c ∈ l.value.getLast?, is_whitespace c = false
  trail : ∀ c ∈ l.trail, is_whitespace c = true
  fits : max = 0 ∨ l.line.length ≤ max
  size : l.line.length < 2 ^ 64

/-- What is to be read of a line at an address. -/
def HeaderLine.header (l : HeaderLine) (p : Nat) : Header where
  name := ⟨p, l.name.length⟩
  value := ⟨p + l.name.length + 1 + l.lead.length, l.value.length⟩

/-- How much of the white space in front of the value is left when that many octets follow the
line. -/
def HeaderLine.kept (l : HeaderLine) (rest : Nat) : Nat :=
  l.lead.length - (l.lead.length + l.value.length + l.trail.length + 2 + rest - l.name.length) / 2

/-- When the reader does what it is to do with a line that this number of octets follows. -/
structure HeaderLine.Readable (max : Nat) (l : HeaderLine) (rest : Nat) : Prop where
  trail : l.trail = []
  lead : l.value = [] → l.lead = []
  whole : l.kept rest = 0
  short : l.kept 0 + l.value.length ≤ 2
  fits : max = 0 ∨ l.line.length < max

variable {m : Memory} {p size max : Nat} {s a b : List Byte}

theorem find_crlf_eq (h : Holds m p (a ++ cr :: lf :: b)) (ha : cr ∉ a) (hsize : a.length + 2 ≤ size) :
    string_find m crlf size p = some (p + a.length) := by
  induction a generalizing p size with
  | nil =>
    obtain ⟨size, rfl⟩ := Nat.exists_eq_add_of_le' hsize
    obtain ⟨hcr, hlf, -⟩ := h
    simp [string_find, crlf, hcr, hlf]
  | cons c a ih =>
    rw [length_cons] at hsize ⊢
    obtain ⟨size, rfl⟩ := Nat.exists_eq_add_of_le' (Nat.le_of_add_left_le hsize : 1 ≤ size)
    obtain ⟨hne, hnot⟩ := not_or.mp (fun hor => ha (mem_cons.mpr hor))
    have hc : crlf.head? ≠ some (m p) := by
      rw [h.1]
      simpa [crlf] using hne
    rw [string_find, if_pos hc, ih h.2 hnot (by omega)]
    congr 1
    omega

theorem find_crlf_none (h : Holds m p s) (hs : cr ∉ s ∨ ∃ a, s = a ++ [cr] ∧ cr ∉ a) :
    string_find m crlf s.length p = none := by
  induction s generalizing p with
  | nil => rfl
  | cons c s ih =>
    rw [length_cons, string_find, h.1]
    by_cases hc : c = cr
    · have hnil : s = [] := by
        rcases hs with hnot | ⟨a, ha, hnot⟩
        · exact absurd (mem_cons.mpr (.inl hc.symm)) hnot
        cases a with
        | nil => exact (List.cons.inj ha).2
        | cons x a =>
          refine absurd (mem_cons.mpr (.inl ?_)) hnot
          rw [← (List.cons.inj ha).1, hc]
      simp [hnil, crlf, hc]
    have hhead : crlf.head? ≠ some c := by simpa [crlf] using Ne.symm hc
    rw [if_pos hhead]
    refine ih h.2 ?_
    rcases hs with hnot | ⟨a, ha, hnot⟩
    · exact .inl (fun hmem => hnot (mem_cons_of_mem c hmem))
    cases a with
    | nil => exact absurd (List.cons.inj ha).1 hc
    | cons x a =>
      exact .inr ⟨a, (List.cons.inj ha).2, fun hmem => hnot (mem_cons_of_mem x hmem)⟩

theorem skip_whitespace_eq {buffer : Nat} {w : List Byte} {c : Byte} (h : Holds m p (w ++ [c]))
    (hw : ∀ x ∈ w, is_whitespace x = true) (hc : is_whitespace c = false) (hp : buffer ≤ p)
    (hsize : w.length < size) :
    skip_whitespace m buffer size p =
      (p + min w.length ((size + 1 - (p - buffer)) / 2), size - min w.length ((size + 1 - (p - buffer)) / 2)) := by
  induction w generalizing p size with
  | nil =>
    rw [skip_whitespace_of_not (by rw [h.1]; exact hc)]
    simp
  | cons x w ih =>
    cases size with
    | zero => omega
    | succ size =>
      rw [length_cons] at hsize ⊢
      have hx : is_whitespace (m p) = true := by
        rw [h.1]
        exact hw x mem_cons_self
      rw [skip_whitespace]
      by_cases hlt : p - buffer < size + 1
      · rw [if_pos ⟨hx, hlt⟩, ih h.2 (fun y hy => hw y (mem_cons_of_mem x hy)) (by omega) (by omega)]
        ext
        · simp only
          omega
        simp only
        omega
      rw [if_neg (fun hand => hlt hand.2)]
      have hnone : (size + 1 + 1 - (p - buffer)) / 2 = 0 := by omega
      rw [hnone]
      simp

theorem skip_whitespace_le (m : Memory) (buffer size p : Nat) :
    ∃ k ≤ size, skip_whitespace m buffer size p = (p + k, size - k) := by
  induction size generalizing p with
  | zero => exact ⟨0, Nat.le_refl _, rfl⟩
  | succ size ih =>
    rw [skip_whitespace]
    split
    · obtain ⟨k, hk, hskip⟩ := ih (p + 1)
      refine ⟨k + 1, by omega, ?_⟩
      rw [hskip]
      ext
      · simp only
        omega
      simp only
      omega
    · exact ⟨0, by omega, rfl⟩

theorem trim_end_eq {start q n : Nat} (hq : is_whitespace (m q) = false)
    (hw : ∀ i < n, is_whitespace (m (q + i + 1)) = true) :
    trim_end m start (q + n) = if q ≤ start ∧ start < q + n then none else some q := by
  induction n with
  | zero =>
    rw [Nat.add_zero, if_neg (by omega)]
    cases q with
    | zero => rw [trim_end, hq, if_neg Bool.false_ne_true]
    | succ q => rw [trim_end, hq, if_neg Bool.false_ne_true]
  | succ n ih =>
    rw [← Nat.add_assoc, trim_end, if_pos (hw n (Nat.lt_succ_self n)), ih (fun i hi => hw i (by omega))]
    by_cases hn : q + n = start
    · rw [if_pos hn, if_pos (by omega)]
    rw [if_neg hn]
    by_cases hpass : q ≤ start ∧ start < q + n
    · rw [if_pos hpass, if_pos (by omega)]
    · rw [if_neg hpass, if_neg (by omega)]

theorem is_text_succ (h : m p ≠ cr) : is_text m (size + 1) p = (is_text_item (m p) && is_text m size (p + 1)) := by
  match size with
  | 0 | 1 => rfl
  | size + 2 =>
    have hnot : is_linear_whitespace m p = false := by simp [is_linear_whitespace, h]
    rw [is_text, hnot, if_neg Bool.false_ne_true]

theorem is_text_append (h : Holds m p a) (ha : ∀ c ∈ a, is_text_item c = true ∧ c ≠ cr) :
    is_text m (a.length + size) p = is_text m size (p + a.length) := by
  induction a generalizing p with
  | nil => simp
  | cons c a ih =>
    obtain ⟨hc, hcr⟩ := ha c mem_cons_self
    rw [length_cons, Nat.add_right_comm, is_text_succ (by rw [h.1]; exact hcr), h.1, hc,
      ih h.2 (fun x hx => ha x (mem_cons_of_mem c hx)), Bool.true_and]
    congr 1
    omega

theorem is_text_cr (hsize : 0 < size) (hcr : m p = cr)
    (hfold : size < 3 ∨ is_linear_whitespace m p = false) : is_text m size p = false := by
  have hitem : is_text_item cr = false := by decide
  match size, hsize with
  | 1, _ | 2, _ => simp [is_text, hcr, hitem]
  | size + 3, _ =>
    obtain hlt | hnot := hfold
    · omega
    · rw [is_text, hnot, if_neg Bool.false_ne_true, hcr, hitem, Bool.false_and]

variable {l : HeaderLine}

/-- What stands behind the colon. -/
def HeaderLine.body (l : HeaderLine) : List Byte := l.lead ++ (l.value ++ l.trail)

theorem HeaderLine.line_length (l : HeaderLine) : l.line.length = l.name.length + 1 + l.body.length := by
  simp [line, body]
  omega

theorem HeaderLine.text_length (l : HeaderLine) : l.text.length = l.name.length + 1 + l.body.length + 2 := by
  simp [text, line_length, crlf]

theorem HeaderLine.text_append (l : HeaderLine) (b : List Byte) :
    l.text ++ b = l.name ++ colon :: (l.body ++ cr :: lf :: b) := by
  simp [text, line, body, crlf]

theorem is_whitespace_facts : ∀ c : Byte, is_whitespace c = true → is_text_item c = true ∧ c ≠ cr := by
  decide +kernel

theorem not_control_facts : ∀ c : Byte, is_control c = false → is_text_item c = true ∧ c ≠ cr := by
  decide +kernel

section

variable (h : l.Legal max)

include h

theorem HeaderLine.Legal.body_text : ∀ c ∈ l.body, is_text_item c = true ∧ c ≠ cr := by
  intro c hc
  rw [body, mem_append, mem_append] at hc
  rcases hc with hlead | hvalue | htrail
  · exact is_whitespace_facts c (h.lead c hlead)
  · exact (h.value c hvalue).elim (is_whitespace_facts c) (not_control_facts c)
  · exact is_whitespace_facts c (h.trail c htrail)

theorem HeaderLine.Legal.name_clear : colon ∉ l.name ∧ cr ∉ l.name :=
  ⟨fun hmem => (is_token_facts colon (h.name.2 colon hmem)).2.2.2 rfl,
    fun hmem => (is_token_facts cr (h.name.2 cr hmem)).2.2.1 rfl⟩

theorem HeaderLine.Legal.cr_not_mem : cr ∉ l.line := by
  rw [line, mem_append, mem_cons, not_or, not_or]
  exact ⟨h.name_clear.2, by decide, fun hmem => (h.body_text cr hmem).2 rfl⟩

theorem HeaderLine.Legal.skip_name (hs : s <+: l.name) (hne : s ≠ [])
    (hm : Holds m p s) : skip_whitespace m p size p = (p, size) := by
  cases s with
  | nil => exact absurd rfl hne
  | cons c s =>
    refine skip_whitespace_of_not ?_
    rw [hm.1]
    exact (is_token_facts c (h.name.2 c (hs.mem mem_cons_self))).1

theorem parse_header_line_end (hm : Holds m p (l.text ++ b)) {t : Nat}
    (hskip : skip_whitespace m p (l.body.length + 2 + b.length) (p + l.name.length + 1) =
      (p + l.name.length + 1 + t, l.body.length + 2 + b.length - t)) (ht : t ≤ l.body.length) :
    parse_header_line m max p (l.text ++ b).length =
      match fold_end m (l.body.length + 2 + b.length - t) (p + l.line.length) with
      | none => .progress
      | some lineend => header_value m ⟨p, l.name.length⟩ (p + l.name.length + 1 + t) lineend := by
  have hlength : (l.text ++ b).length = l.name.length + 1 + (l.body.length + 2 + b.length) := by
    rw [length_append, l.text_length]
    omega
  obtain ⟨hline, -⟩ := holds_append.mp hm
  have hlineend : string_find m [cr] (l.text ++ b).length p = some (p + l.line.length) := by
    rw [string_find_singleton]
    refine find_eq (b := lf :: b) ?_ h.cr_not_mem ?_
    · simpa [HeaderLine.text, crlf] using hm
    rw [hlength, l.line_length]
    omega
  rw [l.text_append] at hm
  have hname := hm.shorter ⟨_, rfl⟩
  have hfind : find m 58 (l.text ++ b).length p = some (p + l.name.length) :=
    find_eq hm h.name_clear.1 (by omega)
  obtain ⟨-, -, hbody⟩ := holds_append.mp hm
  have hcrlf : string_find m crlf (l.body.length + 2 + b.length - t) (p + l.name.length + 1 + t) =
      some (p + l.line.length) := by
    have hdrop : Holds m (p + l.name.length + 1 + t) (l.body.drop t ++ cr :: lf :: b) := by
      rw [← take_append_drop t l.body, append_assoc] at hbody
      have hbehind := (holds_append.mp hbody).2
      rwa [length_take, Nat.min_eq_left ht] at hbehind
    rw [find_crlf_eq hdrop (fun hmem => (h.body_text cr (mem_of_mem_drop hmem)).2 rfl)
      (by rw [length_drop]; omega), length_drop, l.line_length]
    congr 1
    omega
  have hlimit : ¬ (max ≠ 0 ∧ max < p + l.line.length - p) := by
    have hfits := h.fits
    omega
  have hbehind : ¬ p + l.line.length < p + l.name.length := by
    rw [l.line_length]
    omega
  have hback : p + l.name.length - p = l.name.length := by omega
  have hrest : (l.text ++ b).length - l.name.length - 1 = l.body.length + 2 + b.length := by omega
  have htoken := is_token_string_of hname h.name.1 h.name.2
  simp only [parse_header_line, hlineend, any_some, hlimit, hbehind,
    h.skip_name (prefix_refl _) h.name.1 hname, hfind, hback, htoken, hrest, hskip, hcrlf]
  cases fold_end m (l.body.length + 2 + b.length - t) (p + l.line.length) with
  | none => simp
  | some lineend => simp

theorem parse_header_line_cut (hs : s <+: l.text) (hne : s ≠ l.text)
    (hm : Holds m p s) : parse_header_line m max p s.length =
      if max ≠ 0 ∧ max < s.length then .error else .progress := by
  have htext := l.text_append []
  rw [List.append_nil] at htext
  rw [htext] at hs hne
  obtain hs | ⟨u, rfl, hu⟩ := cut_cases hs
  · have hskip : skip_whitespace m p s.length p = (p, s.length) := by
      cases s with
      | nil => rfl
      | cons c s => exact h.skip_name hs (cons_ne_nil c s) hm
    have hfind : find m 58 s.length p = none :=
      find_none hm (fun hmem => h.name_clear.1 (hs.mem hmem)) (Nat.le_refl _)
    have hlineend := lineend_eq_none hm (fun hmem => h.name_clear.2 (hs.mem hmem))
    simp only [parse_header_line, hlineend, hskip, hfind]
    simp
  obtain ⟨hname, -, hbody⟩ := holds_append.mp hm
  have hlength : (l.name ++ colon :: u).length = l.name.length + 1 + u.length := by
    simp
    omega
  have hnot : cr ∉ l.body := fun hmem => (h.body_text cr hmem).2 rfl
  have hparts : u <+: l.body ∨ u = l.body ++ [cr] := by
    obtain hu | ⟨rest, rfl, hrest⟩ := cut_cases hu
    · exact .inl hu
    cases rest with
    | nil => exact .inr rfl
    | cons x rest =>
      refine absurd ?_ hne
      obtain ⟨rfl, hnil⟩ := cons_prefix_cons.mp hrest
      rw [prefix_nil.mp hnil]
  have hlineend : (string_find m [cr] (l.name ++ colon :: u).length p).any
      (fun lineend => max ≠ 0 ∧ max < lineend - p) = false := by
    rw [string_find_singleton]
    rcases hparts with hu | rfl
    · have hclear : cr ∉ l.name ++ colon :: u := by
        rw [mem_append, mem_cons, not_or, not_or]
        exact ⟨h.name_clear.2, by decide, fun hmem => hnot (hu.mem hmem)⟩
      rw [find_none hm hclear (Nat.le_refl _), any_none]
    have hline : Holds m p (l.line ++ cr :: []) := by simpa [HeaderLine.line, HeaderLine.body] using hm
    have hsize : l.line.length < (l.name ++ colon :: (l.body ++ [cr])).length := by
      rw [l.line_length]
      simp
      omega
    have hlimit : ¬ (max ≠ 0 ∧ max < p + l.line.length - p) := by
      have hfits := h.fits
      omega
    rw [find_eq hline h.cr_not_mem hsize, any_some, decide_eq_false hlimit]
  have hbefore : (string_find m [cr] (l.name ++ colon :: u).length p).any
      (· < p + l.name.length) = false := lineend_not_before hname h.name_clear.2 (Nat.le_refl _)
  have hfind : find m 58 (l.name ++ colon :: u).length p = some (p + l.name.length) :=
    find_eq hm h.name_clear.1 (by omega)
  have hback : p + l.name.length - p = l.name.length := by omega
  have hrest : (l.name ++ colon :: u).length - l.name.length - 1 = u.length := by omega
  have htoken := is_token_string_of hname h.name.1 h.name.2
  obtain ⟨k, hk, hskip⟩ := skip_whitespace_le m p u.length (p + l.name.length + 1)
  have hcrlf : string_find m crlf (u.length - k) (p + l.name.length + 1 + k) = none := by
    have hdrop : Holds m (p + l.name.length + 1 + k) (u.drop k) := by
      rw [← take_append_drop k u] at hbody
      have hbehind := (holds_append.mp hbody).2
      rwa [length_take, Nat.min_eq_left hk] at hbehind
    rw [← length_drop]
    refine find_crlf_none hdrop ?_
    rcases hparts with hu | rfl
    · exact .inl (fun hmem => hnot (hu.mem (mem_of_mem_drop hmem)))
    by_cases hle : k ≤ l.body.length
    · exact .inr ⟨l.body.drop k, drop_append_of_le_length hle, fun hmem => hnot (mem_of_mem_drop hmem)⟩
    have hnil : (l.body ++ [cr]).drop k = [] := by
      rw [drop_eq_nil_iff]
      simp
      omega
    exact .inl (by simp [hnil])
  simp only [parse_header_line, hlineend, hbefore, hback, htoken, hrest, hskip, hcrlf, hfind,
    h.skip_name (prefix_refl _) h.name.1 hname]
  simp

end

theorem HeaderLine.body_length (l : HeaderLine) :
    l.body.length = l.lead.length + (l.value.length + l.trail.length) := by
  simp [body]

theorem HeaderLine.kept_le (l : HeaderLine) (rest : Nat) : l.kept rest ≤ l.lead.length := Nat.sub_le _ _

theorem HeaderLine.kept_mono (l : HeaderLine) {rest more : Nat} (h : rest ≤ more) : l.kept more ≤ l.kept rest := by
  rw [kept, kept]
  omega

/-- Where the value starts for the reader. -/
def HeaderLine.start (l : HeaderLine) (p rest : Nat) : Nat := p + l.name.length + 1 + (l.lead.length - l.kept rest)

/-- The header that is read, with some of the white space in front of its value. -/
def HeaderLine.seen (l : HeaderLine) (p rest : Nat) : Header where
  name := ⟨p, l.name.length⟩
  value := ⟨l.start p rest, l.kept rest + l.value.length⟩

theorem HeaderLine.seen_of_whole {rest : Nat} (h : l.kept rest = 0) : l.seen p rest = l.header p := by
  rw [seen, start, header, h, Nat.sub_zero, Nat.zero_add]

theorem HeaderLine.holds_parts (hm : Holds m p l.text) : Holds m p l.name ∧ m (p + l.name.length) = colon ∧
    Holds m (p + l.name.length + 1) l.lead ∧ Holds m (p + l.name.length + 1 + l.lead.length) l.value ∧
    Holds m (p + l.name.length + 1 + l.lead.length + l.value.length) l.trail ∧
    m (p + l.line.length) = cr ∧ m (p + l.line.length + 1) = lf := by
  rw [text, holds_append] at hm
  obtain ⟨hline, hcr, hlf, -⟩ := hm
  rw [line, holds_append] at hline
  obtain ⟨hname, hcolon, hbody⟩ := hline
  rw [holds_append, holds_append] at hbody
  exact ⟨hname, hcolon, hbody.1, hbody.2.1, hbody.2.2, hcr, hlf⟩

theorem skip_lead (h : l.Legal max) (hvalue : l.value ≠ []) (hm : Holds m p l.text) (rest : Nat) :
    skip_whitespace m p (l.body.length + 2 + rest) (p + l.name.length + 1) =
      (l.start p rest, l.body.length + 2 + rest - (l.lead.length - l.kept rest)) := by
  obtain ⟨-, -, hlead, hheld, -⟩ := HeaderLine.holds_parts hm
  cases hv : l.value with
  | nil => exact absurd hv hvalue
  | cons c v =>
    rw [hv] at hheld
    have hrun : Holds m (p + l.name.length + 1) (l.lead ++ [c]) := holds_append.mpr ⟨hlead, hheld.1, trivial⟩
    rw [skip_whitespace_eq hrun h.lead (h.first c (by simp [hv])) (by omega) (by rw [l.body_length]; omega)]
    have hcount : min l.lead.length ((l.body.length + 2 + rest + 1 - (p + l.name.length + 1 - p)) / 2) =
        l.lead.length - l.kept rest := by
      rw [HeaderLine.kept, l.body_length]
      omega
    rw [hcount]
    rfl

theorem header_value_eq (h : l.Legal max) (hvalue : l.value ≠ []) (hm : Holds m p l.text) (rest : Nat) :
    header_value m ⟨p, l.name.length⟩ (l.start p rest) (p + l.line.length) =
      if l.trail ≠ [] ∧ l.kept rest + l.value.length = 1 then .error
      else .success (l.seen p rest, p + l.text.length) := by
  obtain ⟨-, -, hlead, hheld, htrail, -⟩ := HeaderLine.holds_parts hm
  have hkept := l.kept_le rest
  have hpos : 0 < l.value.length := length_pos_iff.mpr hvalue
  obtain ⟨q, hq⟩ : ∃ q, q = p + l.name.length + 1 + l.lead.length + (l.value.length - 1) := ⟨_, rfl⟩
  have hlast : is_whitespace (m q) = false := by
    rw [hq, hheld.get (by omega)]
    refine h.last _ ?_
    rw [← getLast_eq_getElem hvalue, getLast?_eq_some_getLast hvalue]
    rfl
  have hblank : ∀ i < l.trail.length, is_whitespace (m (q + i + 1)) = true := by
    intro i hi
    have haddress : q + i + 1 = p + l.name.length + 1 + l.lead.length + l.value.length + i := by omega
    rw [haddress, htrail.get hi]
    exact h.trail _ (getElem_mem hi)
  have hend : p + l.line.length - 1 = q + l.trail.length := by
    rw [l.line_length, l.body_length]
    omega
  have hseen : Holds m (l.start p rest) (l.lead.drop (l.lead.length - l.kept rest) ++ l.value) := by
    refine holds_append.mpr ⟨?_, ?_⟩
    · rw [← take_append_drop (l.lead.length - l.kept rest) l.lead] at hlead
      have hbehind := (holds_append.mp hlead).2
      rwa [length_take, Nat.min_eq_left (Nat.sub_le _ _)] at hbehind
    have haddress : l.start p rest + (l.lead.drop (l.lead.length - l.kept rest)).length =
        p + l.name.length + 1 + l.lead.length := by
      rw [length_drop, HeaderLine.start]
      omega
    rwa [haddress]
  have hlength : (l.lead.drop (l.lead.length - l.kept rest) ++ l.value).length =
      l.kept rest + l.value.length := by
    rw [length_append, length_drop]
    omega
  have htext : is_text m (l.kept rest + l.value.length) (l.start p rest) = true := by
    have hall : is_text m (_ + 0) (l.start p rest) = is_text m 0 _ :=
      is_text_append hseen (fun c hc => h.body_text c (by
        rw [HeaderLine.body]
        rcases mem_append.mp hc with hc | hc
        · exact mem_append_left _ (mem_of_mem_drop hc)
        · exact mem_append_right _ (mem_append_left _ hc)))
    rwa [hlength, Nat.add_zero, is_text] at hall
  have hminus : minus (q + 1) (l.start p rest) = l.kept rest + l.value.length := by
    rw [minus, HeaderLine.start, if_pos (by omega)]
    omega
  have hpass : (q ≤ l.start p rest ∧ l.start p rest < q + l.trail.length) ↔
      (l.trail ≠ [] ∧ l.kept rest + l.value.length = 1) := by
    rw [← length_pos_iff, HeaderLine.start]
    omega
  have hnext : p + l.line.length + 2 = p + l.text.length := by
    rw [l.line_length, l.text_length]
    omega
  rw [header_value, hend, trim_end_eq hlast hblank]
  by_cases hshort : l.trail ≠ [] ∧ l.kept rest + l.value.length = 1
  · rw [if_pos (hpass.mpr hshort), if_pos hshort]
  rw [if_neg (fun hand => hshort (hpass.mp hand)), if_neg hshort]
  simp only [hminus, htext, if_true, hnext]
  rfl

theorem fold_end_of_not {lineend : Nat} (hsize : 3 ≤ size) (h : is_whitespace (m (lineend + 2)) = false) :
    fold_end m size lineend = some lineend := by
  obtain ⟨size, rfl⟩ := Nat.exists_eq_add_of_le' hsize
  rw [fold_end, h, if_neg Bool.false_ne_true]

theorem parse_header_line_value (h : l.Legal max) (hvalue : l.value ≠ []) {c : Byte}
    (hm : Holds m p (l.text ++ c :: b)) (hc : is_whitespace c = false) :
    parse_header_line m max p (l.text ++ c :: b).length =
      if l.trail ≠ [] ∧ l.kept (c :: b).length + l.value.length = 1 then .error
      else .success (l.seen p (c :: b).length, p + l.text.length) := by
  obtain ⟨hline, hbehind, -⟩ := holds_append.mp hm
  have hbody := l.body_length
  have hfold : fold_end m (l.body.length + 2 + (c :: b).length - (l.lead.length - l.kept (c :: b).length))
      (p + l.line.length) = some (p + l.line.length) := by
    refine fold_end_of_not ?_ ?_
    · rw [length_cons]
      omega
    have haddress : p + l.line.length + 2 = p + l.text.length := by
      rw [l.line_length, l.text_length]
      omega
    rw [haddress, hbehind]
    exact hc
  rw [parse_header_line_end h hm (skip_lead h hvalue hline _) (by omega), hfold]
  exact header_value_eq h hvalue hline _

theorem HeaderLine.Legal.body_blank (h : l.Legal max) (hvalue : l.value = []) :
    ∀ c ∈ l.body, is_whitespace c = true := by
  intro c hc
  rw [HeaderLine.body, hvalue, nil_append, mem_append] at hc
  exact hc.elim (h.lead c) (h.trail c)

theorem skip_blank (h : l.Legal max) (hvalue : l.value = []) (hm : Holds m p l.text) {rest : Nat}
    (hrest : l.name.length + l.body.length ≤ rest) :
    skip_whitespace m p (l.body.length + 2 + rest) (p + l.name.length + 1) =
      (p + l.line.length, 2 + rest) := by
  have hrun : Holds m (p + l.name.length + 1) (l.body ++ [cr]) := by
    have happend := l.text_append []
    rw [List.append_nil] at happend
    rw [happend] at hm
    exact (holds_append.mp hm).2.2.shorter ⟨[lf], by simp⟩
  rw [skip_whitespace_eq hrun (h.body_blank hvalue) (by decide) (by omega) (by omega)]
  have hcount : min l.body.length ((l.body.length + 2 + rest + 1 - (p + l.name.length + 1 - p)) / 2) =
      l.body.length := by omega
  rw [hcount, l.line_length]
  ext
  · simp only
    omega
  simp only
  omega

theorem header_value_empty (hvalue : l.value = []) (hlead : l.lead = [])
    (htrail : l.trail = []) (hm : Holds m p l.text) (rest : Nat) :
    header_value m ⟨p, l.name.length⟩ (p + l.line.length) (p + l.line.length) =
      .success (l.seen p rest, p + l.text.length) := by
  obtain ⟨-, hcolon, -⟩ := HeaderLine.holds_parts hm
  have hbody : l.body.length = 0 := by simp [HeaderLine.body, hvalue, hlead, htrail]
  have hend : p + l.line.length - 1 = p + l.name.length + 0 := by
    rw [l.line_length]
    omega
  have hnot : is_whitespace (m (p + l.name.length)) = false := by
    rw [hcolon]
    decide
  have hstart : l.start p rest = p + l.line.length := by
    rw [HeaderLine.start, l.line_length, hbody, hlead]
    simp
    omega
  have hminus : minus (p + l.name.length + 1) (p + l.line.length) = 0 := by
    rw [minus, l.line_length, hbody, if_pos (by omega)]
    omega
  have hkept : l.kept rest + l.value.length = 0 := by
    have hle := l.kept_le rest
    rw [hlead, length_nil] at hle
    rw [hvalue, length_nil]
    omega
  have hnext : p + l.line.length + 2 = p + l.text.length := by
    rw [l.line_length, l.text_length]
    omega
  rw [header_value, hend, trim_end_eq hnot (by simp), if_neg (by omega)]
  simp only [hminus, is_text, if_true, hnext, HeaderLine.seen, hstart, hkept]

theorem header_value_blank (h : l.Legal max) (hvalue : l.value = []) (hblank : l.body ≠ [])
    (hm : Holds m p l.text) (hfold : is_whitespace (m (p + l.line.length + 2)) = false) (name : Pointer) :
    header_value m name (p + l.line.length) (p + l.line.length) = .error := by
  obtain ⟨-, hcolon, -, -, -, hcr, -⟩ := HeaderLine.holds_parts hm
  have hpos : 0 < l.body.length := length_pos_iff.mpr hblank
  have hbody : Holds m (p + l.name.length + 1) l.body := by
    have happend := l.text_append []
    rw [List.append_nil] at happend
    rw [happend] at hm
    exact (holds_append.mp hm).2.2.shorter ⟨_, rfl⟩
  have hrun : ∀ i < l.body.length, is_whitespace (m (p + l.name.length + i + 1)) = true := by
    intro i hi
    rw [Nat.add_right_comm, hbody.get hi]
    exact h.body_blank hvalue _ (getElem_mem hi)
  have hnot : is_whitespace (m (p + l.name.length)) = false := by
    rw [hcolon]
    decide
  have hend : p + l.line.length - 1 = p + l.name.length + l.body.length := by
    rw [l.line_length]
    omega
  have hsize := h.size
  have hminus : 0 < minus (p + l.name.length + 1) (p + l.line.length) := by
    rw [l.line_length] at hsize ⊢
    rw [minus, if_neg (by omega)]
    omega
  have htext : is_text m (minus (p + l.name.length + 1) (p + l.line.length)) (p + l.line.length) = false := by
    refine is_text_cr hminus hcr (.inr ?_)
    simp [is_linear_whitespace, hfold]
  rw [header_value, hend, trim_end_eq hnot hrun, if_neg (by rw [l.line_length]; omega)]
  simp only [htext]
  rfl

theorem parse_header_line_empty (h : l.Legal max) (hvalue : l.value = []) (hlead : l.lead = [])
    (htrail : l.trail = []) {c : Byte} (hm : Holds m p (l.text ++ c :: b)) (hc : is_whitespace c = false) :
    parse_header_line m max p (l.text ++ c :: b).length =
      .success (l.seen p (c :: b).length, p + l.text.length) := by
  obtain ⟨hline, hbehind, -⟩ := holds_append.mp hm
  obtain ⟨-, -, -, -, -, hcr, -⟩ := HeaderLine.holds_parts hline
  have hbody : l.body.length = 0 := by simp [HeaderLine.body, hvalue, hlead, htrail]
  have hstart : p + l.name.length + 1 = p + l.line.length := by
    rw [l.line_length]
    omega
  have hskip : skip_whitespace m p (l.body.length + 2 + (c :: b).length) (p + l.name.length + 1) =
      (p + l.name.length + 1 + 0, l.body.length + 2 + (c :: b).length - 0) := by
    refine skip_whitespace_of_not ?_
    rw [hstart, hcr]
    decide
  have hfold : fold_end m (l.body.length + 2 + (c :: b).length - 0) (p + l.line.length) =
      some (p + l.line.length) := by
    refine fold_end_of_not ?_ ?_
    · rw [length_cons]
      omega
    have haddress : p + l.line.length + 2 = p + l.text.length := by
      rw [l.line_length, l.text_length]
      omega
    rw [haddress, hbehind]
    exact hc
  rw [parse_header_line_end h hm hskip (Nat.zero_le _), hfold]
  simp only [Nat.add_zero, hstart]
  exact header_value_empty hvalue hlead htrail hline _

theorem HeaderLine.Readable.line (hread : l.Readable max size) (h : l.Legal max) {c : Byte}
    (hm : Holds m p (l.text ++ c :: b)) (hc : is_whitespace c = false) :
    parse_header_line m max p (l.text ++ c :: b).length =
      .success (l.seen p (c :: b).length, p + l.text.length) := by
  by_cases hvalue : l.value = []
  · exact parse_header_line_empty h hvalue (hread.lead hvalue) hread.trail hm hc
  · rw [parse_header_line_value h hvalue hm hc, if_neg (fun hand => hand.1 hread.trail)]

theorem fold_end_short {lineend : Nat} (hsize : size < 5) :
    fold_end m size lineend = none ∨ fold_end m size lineend = some lineend := by
  match size with
  | 0 | 1 | 2 => exact .inl rfl
  | 3 | 4 =>
    rw [fold_end]
    split
    · rename_i hblank
      have hne : m (lineend + 2) ≠ cr := by
        intro hcr
        rw [hcr] at hblank
        exact absurd hblank (by decide)
      refine .inl ?_
      simp [string_find, crlf, Ne.symm hne]
    · exact .inr rfl
  | size + 5 => omega

theorem HeaderLine.Readable.last (hread : l.Readable max size) (h : l.Legal max) (hm : Holds m p l.text) :
    parse_header_line m max p l.text.length = .progress ∨
      parse_header_line m max p l.text.length = .success (l.seen p 0, p + l.text.length) := by
  have hnil : l.text ++ [] = l.text := List.append_nil _
  have hbody := l.body_length
  have hm' : Holds m p (l.text ++ []) := by rwa [hnil]
  by_cases hvalue : l.value = []
  · have hzero : l.body.length = 0 := by simp [HeaderLine.body, hvalue, hread.lead hvalue, hread.trail]
    obtain ⟨-, -, -, -, -, hcr, -⟩ := HeaderLine.holds_parts hm
    have hskip : skip_whitespace m p (l.body.length + 2 + ([] : List Byte).length) (p + l.name.length + 1) =
        (p + l.name.length + 1 + 0, l.body.length + 2 + ([] : List Byte).length - 0) := by
      refine skip_whitespace_of_not ?_
      have hstart : p + l.name.length + 1 = p + l.line.length := by
        rw [l.line_length]
        omega
      rw [hstart, hcr]
      decide
    have hline := parse_header_line_end h hm' hskip (Nat.zero_le _)
    rw [hnil, hzero] at hline
    exact .inl hline
  have hkept := l.kept_le 0
  have hshort := hread.short
  have htrail : l.trail.length = 0 := by rw [hread.trail, length_nil]
  have hline := parse_header_line_end h hm' (skip_lead h hvalue hm 0) (by omega)
  have hend := header_value_eq h hvalue hm 0
  rw [if_neg (fun hand => hand.1 hread.trail)] at hend
  rw [hnil, length_nil, Nat.add_zero] at hline
  have hshort : fold_end m (l.body.length + 2 - (l.lead.length - l.kept 0)) (p + l.line.length) = none ∨
      fold_end m (l.body.length + 2 - (l.lead.length - l.kept 0)) (p + l.line.length) =
        some (p + l.line.length) := fold_end_short (by omega)
  rcases hshort with hfold | hfold
  · rw [hfold] at hline
    exact .inl hline
  rw [hfold] at hline
  exact .inr (hline.trans hend)

/-- What may lie behind the data to have a line refused: it is taken for a folded line. -/
def fold : List Byte := [space, cr, lf, colon]

theorem parse_header_line_fold (h : l.Legal max) (hvalue : l.value ≠ [])
    (hm : Holds m p (l.text ++ fold)) (hlong : 3 ≤ l.kept 0 + l.value.length + l.trail.length) :
    parse_header_line m max p l.text.length = .error := by
  obtain ⟨hline, hblank, hcr, hlf, hcolon, -⟩ := holds_append.mp hm
  have hm' : Holds m p (l.text ++ []) := by rwa [List.append_nil]
  have hbody := l.body_length
  have hkept := l.kept_le 0
  have hbehind : p + l.text.length = p + l.line.length + 2 := by
    rw [l.line_length, l.text_length]
    omega
  rw [hbehind] at hblank hcr hlf hcolon
  obtain ⟨k, hk⟩ : ∃ k, l.body.length + 2 - (l.lead.length - l.kept 0) = k + 5 :=
    ⟨l.body.length - (l.lead.length - l.kept 0) - 3, by omega⟩
  have hfold : fold_end m (k + 5) (p + l.line.length) = some (p + l.line.length + 3) := by
    have hspace : is_whitespace (m (p + l.line.length + 2)) = true := by
      rw [hblank]
      decide
    have hend : is_whitespace (m (p + l.line.length + 3 + 2)) = false := by
      have haddress : p + l.line.length + 3 + 2 = p + l.line.length + 2 + 1 + 1 + 1 := by omega
      rw [haddress, hcolon]
      decide
    have hfind : string_find m crlf (k + 3) (p + l.line.length + 2) = some (p + l.line.length + 3) :=
      find_crlf_eq (a := [space]) (b := [colon]) ⟨hblank, hcr, hlf, hcolon, trivial⟩ (by decide) (by simp)
    rw [fold_end, if_pos hspace, hfind]
    exact fold_end_of_not (by omega) hend
  have hparse := parse_header_line_end h hm' (skip_lead h hvalue hline 0) (by omega)
  rw [List.append_nil, length_nil, Nat.add_zero, hk, hfold] at hparse
  rw [hparse]
  change header_value m ⟨p, l.name.length⟩ (l.start p 0) (p + l.line.length + 3) = .error
  obtain ⟨-, -, -, -, -, hend, hnot⟩ := HeaderLine.holds_parts hline
  have hnot : is_whitespace (m (p + l.line.length + 1)) = false := by
    rw [hnot]
    decide
  have hrun : ∀ i < 1, is_whitespace (m (p + l.line.length + 1 + i + 1)) = true := by
    intro i hi
    obtain rfl : i = 0 := by omega
    rw [Nat.add_zero, hblank]
    decide
  have hstart : l.start p 0 + (l.body.drop (l.lead.length - l.kept 0)).length = p + l.line.length := by
    rw [length_drop, HeaderLine.start, l.line_length]
    omega
  have hseen : Holds m (l.start p 0) (l.body.drop (l.lead.length - l.kept 0)) := by
    have happend := l.text_append []
    rw [List.append_nil] at happend
    rw [happend] at hline
    have hheld := (holds_append.mp hline).2.2.shorter ⟨_, rfl⟩
    rw [← take_append_drop (l.lead.length - l.kept 0) l.body] at hheld
    have hdrop := (holds_append.mp hheld).2
    rwa [length_take, Nat.min_eq_left (by omega)] at hdrop
  have hminus : minus (p + l.line.length + 1 + 1) (l.start p 0) =
      (l.body.drop (l.lead.length - l.kept 0)).length + 2 := by
    rw [minus, if_pos (by omega)]
    omega
  have htext : is_text m ((l.body.drop (l.lead.length - l.kept 0)).length + 2) (l.start p 0) = false := by
    rw [is_text_append hseen (fun c hc => h.body_text c (mem_of_mem_drop hc)), hstart]
    exact is_text_cr (by omega) hend (.inl (by omega))
  have haddress : p + l.line.length + 3 - 1 = p + l.line.length + 1 + 1 := by omega
  rw [header_value, haddress, trim_end_eq hnot hrun, if_neg (by omega)]
  simp only [hminus, htext]
  rfl

end openvocs.http
