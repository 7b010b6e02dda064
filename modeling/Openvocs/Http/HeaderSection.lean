import Openvocs.Http.HeaderLine

open List Option

namespace openvocs.http

open memory

/-- The lines and the empty line behind them. -/
def section_text (ls : List HeaderLine) : List Byte := ls.flatMap HeaderLine.text ++ crlf

def section_headers : Nat → List HeaderLine → List Header
  | _, [] => []
  | p, l :: ls => l.header p :: section_headers (p + l.text.length) ls

/-- The section is read as it was written whatever follows it, more octets are asked for on every
proper part from its start on, and nothing behind the given octets has an influence. -/
structure SectionExact (max array_size : Nat) (ls : List HeaderLine) : Prop where
  success : ∀ m p following, Holds m p (section_text ls ++ following) →
    parse_header m max array_size p (section_text ls ++ following).length =
      .success (section_headers p ls, p + (section_text ls).length)
  progress : ∀ m p s, s <+: section_text ls → s ≠ section_text ls → Holds m p s →
    parse_header m max array_size p s.length = .progress
  independent : ∀ m m' p s following, s <+: section_text ls ++ following → Holds m p s →
    Holds m' p s → parse_header m max array_size p s.length = parse_header m' max array_size p s.length

/-- All lines are read, each with the rest of the section behind it. -/
def SectionReadable (max : Nat) : List HeaderLine → Prop
  | [] => True
  | l :: ls => l.Readable max (section_text ls).length ∧ SectionReadable max ls

variable {m : Memory} {p size max array_size n : Nat} {s b : List Byte} {c : Byte} {l : HeaderLine}
  {ls done : List HeaderLine}

/-- The headers that are read of lines with some octets behind the last one. -/
def seen_headers : Nat → Nat → List HeaderLine → List Header
  | _, _, [] => []
  | p, rest, l :: ls =>
    l.seen p ((ls.flatMap HeaderLine.text).length + rest) :: seen_headers (p + l.text.length) rest ls

/-- Headers in front of the ones read behind them. -/
def Parsed.append (headers : List Header) : Parsed (List Header × Nat) → Parsed (List Header × Nat)
  | .success (behind, next) => .success (headers ++ behind, next)
  | other => other

theorem Parsed.append_nil (r : Parsed (List Header × Nat)) : r.append [] = r := by cases r <;> rfl

theorem Parsed.cons_append (header : Header) (headers : List Header) (r : Parsed (List Header × Nat)) :
    (r.append headers).cons header = r.append (header :: headers) := by cases r <;> rfl

theorem Parsed.eq_success_of_append {headers headers' behind : List Header} {next : Nat}
    {r : Parsed (List Header × Nat)} (h : r.append headers = .success (headers' ++ behind, next))
    (hlength : headers.length = headers'.length) : r = .success (behind, next) := by
  cases r with
  | success value =>
    obtain ⟨hheaders, hnext⟩ := Prod.mk.inj (Parsed.success.inj h)
    rw [← (append_inj hheaders hlength).2, ← hnext]
  | error | progress | oob => cases h

theorem Parsed.eq_progress_of_append {headers : List Header} {r : Parsed (List Header × Nat)}
    (h : r.append headers = .progress) : r = .progress := by
  cases r with
  | progress => rfl
  | error | oob | success => cases h

theorem parse_header_line_cr (hcr : m p = cr) (hsize : 0 < size) :
    parse_header_line m max p size = .error := by
  have hskip : skip_whitespace m p size p = (p, size) := by
    refine skip_whitespace_of_not ?_
    rw [hcr]
    decide
  have hlineend : string_find m [cr] size p = some p := by
    rw [string_find_singleton]
    exact find_eq (a := []) (b := []) ⟨hcr, trivial⟩ (by simp) hsize
  cases hfind : find m 58 size p with
  | none =>
    simp only [parse_header_line, hlineend, hskip, hfind]
    simp
  | some last =>
    have hbehind : p + 1 ≤ last := by
      have hne : (58 : Byte) ∉ [cr] := by decide
      exact find_le (s := [cr]) ⟨hcr, trivial⟩ hne hfind
    have hlt : p < last := hbehind
    simp only [parse_header_line, hlineend, hskip, hfind, any_some, decide_eq_true hlt]
    simp

theorem parse_header_zero : parse_header m max (n + 1) p 0 = .progress := by
  simp [parse_header, parse_header_line, string_find, skip_whitespace, find]

theorem parse_header_cr (hcr : m p = cr) : parse_header m max (n + 1) p 1 = .progress := by
  rw [parse_header, parse_header_line_cr hcr (by omega)]
  simp [hcr]

theorem parse_header_end (hm : Holds m p (crlf ++ b)) :
    parse_header m max (n + 1) p (crlf ++ b).length = .success ([], p + 2) := by
  obtain ⟨⟨hcr, hlf, -⟩, -⟩ := holds_append.mp hm
  rw [parse_header, parse_header_line_cr hcr (by simp [crlf])]
  simp [hcr, hlf, crlf]

theorem parse_header_refused (hline : parse_header_line m max p size = .error) (hsize : 0 < size)
    (hcr : m p ≠ cr) : parse_header m max (n + 1) p size = .error := by
  rw [parse_header, hline]
  simp [hcr, Nat.ne_of_gt hsize]

theorem parse_header_step {header : Header}
    (hline : parse_header_line m max p (s ++ b).length = .success (header, p + s.length)) :
    parse_header m max (n + 1) p (s ++ b).length =
      (parse_header m max n (p + s.length) b.length).cons header := by
  have hminus : minus (s ++ b).length (p + s.length - p) = b.length := by
    rw [minus, length_append, if_pos (by omega)]
    omega
  rw [parse_header, hline]
  simp only [hminus]

theorem lines_head (hlegal : ∀ l ∈ ls, l.Legal max) (hc : is_whitespace c = false) (b : List Byte) :
    ∃ first rest, ls.flatMap HeaderLine.text ++ c :: b = first :: rest ∧ is_whitespace first = false := by
  cases ls with
  | nil => exact ⟨c, b, rfl, hc⟩
  | cons l ls =>
    obtain ⟨hne, htoken⟩ := (hlegal l mem_cons_self).name
    cases hname : l.name with
    | nil => exact absurd hname hne
    | cons first name =>
      refine ⟨first, name ++ colon :: (l.body ++ cr :: lf :: (ls.flatMap HeaderLine.text ++ c :: b)), ?_, ?_⟩
      · rw [flatMap_cons, append_assoc, l.text_append, hname, List.cons_append]
      · exact (is_token_facts first (htoken first (by simp [hname]))).1

theorem parse_header_lines (hlegal : ∀ l ∈ ls, l.Legal max)
    (hread : ∀ l ∈ ls, ∃ rest, l.Readable max rest) (hc : is_whitespace c = false)
    (hm : Holds m p (ls.flatMap HeaderLine.text ++ c :: b)) :
    parse_header m max (ls.length + n) p (ls.flatMap HeaderLine.text ++ c :: b).length =
      (parse_header m max n (p + (ls.flatMap HeaderLine.text).length) (c :: b).length).append
        (seen_headers p (c :: b).length ls) := by
  induction ls generalizing p with
  | nil =>
    rw [seen_headers, Parsed.append_nil]
    simp
  | cons l ls ih =>
    obtain ⟨hl, hls⟩ := forall_mem_cons.mp hlegal
    obtain ⟨⟨rest, hreadable⟩, hreads⟩ := forall_mem_cons.mp hread
    obtain ⟨first, behind, hfirst, hblank⟩ := lines_head hls hc b
    have htext : (l :: ls).flatMap HeaderLine.text ++ c :: b =
        l.text ++ (ls.flatMap HeaderLine.text ++ c :: b) := by simp
    have hcount : (l :: ls).length + n = ls.length + n + 1 := by
      rw [length_cons]
      omega
    rw [htext] at hm ⊢
    have hbehind := (holds_append.mp hm).2
    have hline := hreadable.line hl (by rwa [hfirst] at hm) hblank
    rw [← hfirst, @length_append _ (ls.flatMap HeaderLine.text)] at hline
    rw [hcount, parse_header_step hline, ih hls hreads hbehind, Parsed.cons_append, flatMap_cons,
      length_append, ← Nat.add_assoc]
    rfl

theorem seen_headers_length (p rest : Nat) (ls : List HeaderLine) : (seen_headers p rest ls).length = ls.length := by
  induction ls generalizing p with
  | nil => rfl
  | cons l ls ih => rw [seen_headers, length_cons, ih, length_cons]

theorem section_headers_append (p : Nat) (done ls : List HeaderLine) :
    section_headers p (done ++ ls) = section_headers p done ++
      section_headers (p + (done.flatMap HeaderLine.text).length) ls := by
  induction done generalizing p with
  | nil => simp [section_headers]
  | cons l done ih =>
    rw [List.cons_append, section_headers, section_headers, ih, List.cons_append, flatMap_cons,
      length_append, Nat.add_assoc]

theorem section_headers_length (p : Nat) (ls : List HeaderLine) : (section_headers p ls).length = ls.length := by
  induction ls generalizing p with
  | nil => rfl
  | cons l ls ih => rw [section_headers, length_cons, ih, length_cons]

section

variable (h : SectionReadable max ls)

include h

theorem SectionReadable.lines : ∀ l ∈ ls, ∃ rest, l.Readable max rest := by
  induction ls with
  | nil => exact fun _ hmem => absurd hmem not_mem_nil
  | cons l ls ih => exact forall_mem_cons.mpr ⟨⟨_, h.1⟩, ih h.2⟩

theorem SectionReadable.seen {rest : Nat} (hrest : 2 ≤ rest) :
    seen_headers p rest ls = section_headers p ls := by
  induction ls generalizing p with
  | nil => rfl
  | cons l ls ih =>
    have hwhole : l.kept ((ls.flatMap HeaderLine.text).length + rest) = 0 := by
      have hle : (section_text ls).length ≤ (ls.flatMap HeaderLine.text).length + rest := by
        simpa [section_text, crlf] using hrest
      have hmono := l.kept_mono hle
      have hzero := h.1.whole
      omega
    rw [seen_headers, section_headers, HeaderLine.seen_of_whole hwhole, ih h.2]

theorem SectionReadable.success (hlegal : ∀ l ∈ ls, l.Legal max)
    (hsize : ls.length < array_size) {following : List Byte} (hm : Holds m p (section_text ls ++ following)) :
    parse_header m max array_size p (section_text ls ++ following).length =
      .success (section_headers p ls, p + (section_text ls).length) := by
  obtain ⟨n, rfl⟩ := Nat.exists_eq_add_of_lt hsize
  have htext : section_text ls ++ following = ls.flatMap HeaderLine.text ++ cr :: lf :: following := by
    simp [section_text, crlf]
  rw [htext] at hm ⊢
  have hend : parse_header m max (n + 1) (p + (ls.flatMap HeaderLine.text).length) (cr :: lf :: following).length =
      .success ([], p + (ls.flatMap HeaderLine.text).length + 2) :=
    parse_header_end (holds_append.mp hm).2
  rw [Nat.add_assoc, parse_header_lines hlegal h.lines (by decide) hm, hend,
    h.seen (by simp), Parsed.append, List.append_nil, section_text, length_append, Nat.add_assoc]
  rfl

theorem SectionReadable.progress (hlegal : ∀ l ∈ ls, l.Legal max)
    (hsize : ls.length < array_size) (hs : s <+: section_text ls) (hne : s ≠ section_text ls)
    (hm : Holds m p s) : parse_header m max array_size p s.length = .progress := by
  induction ls generalizing p s array_size with
  | nil =>
    obtain ⟨n, rfl⟩ := Nat.exists_eq_add_of_lt hsize
    cases s with
    | nil => exact parse_header_zero
    | cons x s =>
      obtain ⟨rfl, hrest⟩ := cons_prefix_cons.mp hs
      cases s with
      | nil => exact parse_header_cr hm.1
      | cons y s =>
        refine absurd ?_ hne
        obtain ⟨rfl, hnil⟩ := cons_prefix_cons.mp hrest
        rw [prefix_nil.mp hnil]
        rfl
  | cons l ls ih =>
    obtain ⟨hl, hls⟩ := forall_mem_cons.mp hlegal
    obtain ⟨hread, hreads⟩ := h
    obtain ⟨n, rfl⟩ : ∃ n, array_size = n + 1 := ⟨array_size - 1, by omega⟩
    have hn : ls.length < n := by simpa using hsize
    have htext : section_text (l :: ls) = l.text ++ section_text ls := by simp [section_text]
    rw [htext] at hs hne
    by_cases hall : s = l.text
    · subst hall
      obtain ⟨n, rfl⟩ : ∃ k, n = k + 1 := ⟨n - 1, by omega⟩
      rcases hread.last hl hm with hline | hline
      · rw [parse_header, hline]
      have hstep := parse_header_step (n := n + 1) (b := []) (by rwa [List.append_nil])
      rw [List.append_nil, length_nil, parse_header_zero] at hstep
      exact hstep
    rcases prefix_or_prefix_of_prefix hs ⟨section_text ls, rfl⟩ with hpart | ⟨u, rfl⟩
    · have hlt : s.length < l.text.length :=
        Nat.lt_of_le_of_ne hpart.length_le (fun heq => hall (hpart.eq_of_length heq))
      have hfits := hread.fits
      rw [l.text_length] at hlt
      rw [l.line_length] at hfits
      rw [parse_header, parse_header_line_cut hl hpart hall hm, if_neg (by omega)]
    have hu : u <+: section_text ls := (prefix_append_right_inj _).mp hs
    have hrest := ih hreads hls hn hu (fun heq => hne (by rw [heq])) (holds_append.mp hm).2
    obtain ⟨first, rest, hfirst, hblank⟩ := lines_head hls (by decide : is_whitespace cr = false) [lf]
    rw [section_text, crlf, hfirst] at hu
    cases u with
    | nil => exact absurd (List.append_nil _) hall
    | cons c u =>
      obtain ⟨rfl, -⟩ := cons_prefix_cons.mp hu
      rw [parse_header_step (hread.line hl hm hblank), hrest]
      rfl

theorem SectionReadable.exact (hlegal : ∀ l ∈ ls, l.Legal max)
    (hsize : ls.length < array_size) : SectionExact max array_size ls where
  success _ _ _ hm := h.success hlegal hsize hm
  progress _ _ _ hs hne hm := h.progress hlegal hsize hs hne hm
  independent m m' p s _ hs hm hm' := by
    obtain ⟨rest, rfl⟩ | ⟨hpart, hne⟩ := part_or_whole hs
    · rw [h.success hlegal hsize hm, h.success hlegal hsize hm']
    · rw [h.progress hlegal hsize hpart hne hm, h.progress hlegal hsize hpart hne hm']

end

theorem section_text_append (done ls : List HeaderLine) :
    section_text (done ++ ls) = done.flatMap HeaderLine.text ++ section_text ls := by simp [section_text]

theorem section_text_head (hlegal : ∀ l ∈ ls, l.Legal max) :
    ∃ first rest, section_text ls = first :: rest ∧ is_whitespace first = false :=
  lines_head hlegal (by decide : is_whitespace cr = false) [lf]

theorem SectionExact.behind (hexact : SectionExact max array_size (done ++ ls))
    (hlegal : ∀ l ∈ done ++ ls, l.Legal max) (hread : ∀ l ∈ done, ∃ rest, l.Readable max rest)
    (hsize : done.length ≤ array_size) (following : List Byte) : ∃ m p next,
      Holds m p (section_text ls ++ following) ∧
      parse_header m max (array_size - done.length) p (section_text ls ++ following).length =
        .success (section_headers p ls, next) := by
  obtain ⟨n, rfl⟩ := Nat.exists_eq_add_of_le hsize
  obtain ⟨hdone, hls⟩ := forall_mem_append.mp hlegal
  obtain ⟨first, rest, hfirst, hblank⟩ := section_text_head hls
  have hm := holds_of (section_text (done ++ ls) ++ following) fun _ => 0
  have hsuccess := hexact.success _ 0 following hm
  have htext : section_text (done ++ ls) ++ following =
      done.flatMap HeaderLine.text ++ first :: (rest ++ following) := by
    rw [section_text_append, append_assoc, hfirst, List.cons_append]
  rw [hfirst, List.cons_append]
  rw [htext] at hm hsuccess
  rw [parse_header_lines hdone hread hblank hm, section_headers_append] at hsuccess
  refine ⟨_, _, 0 + (section_text (done ++ ls)).length, (holds_append.mp hm).2, ?_⟩
  rw [Nat.add_sub_cancel_left]
  refine Parsed.eq_success_of_append hsuccess ?_
  rw [seen_headers_length, section_headers_length]

theorem SectionExact.behind_cut (hexact : SectionExact max array_size (done ++ ls))
    (hlegal : ∀ l ∈ done ++ ls, l.Legal max) (hread : ∀ l ∈ done, ∃ rest, l.Readable max rest)
    (hsize : done.length ≤ array_size) (hs : s <+: section_text ls) (hne : s ≠ section_text ls)
    (hnil : s ≠ []) (beyond : List Byte) : ∃ m p, Holds m p (s ++ beyond) ∧
      parse_header m max (array_size - done.length) p s.length = .progress := by
  obtain ⟨n, rfl⟩ := Nat.exists_eq_add_of_le hsize
  obtain ⟨hdone, hls⟩ := forall_mem_append.mp hlegal
  obtain ⟨first, rest, hfirst, hblank⟩ := section_text_head hls
  cases s with
  | nil => exact absurd rfl hnil
  | cons c s =>
    have hc : c = first := by
      rw [hfirst] at hs
      exact (cons_prefix_cons.mp hs).1
    have hm := holds_of ((done.flatMap HeaderLine.text ++ c :: s) ++ beyond) fun _ => 0
    obtain ⟨hdata, -⟩ := holds_append.mp hm
    have hwhole : done.flatMap HeaderLine.text ++ c :: s <+: section_text (done ++ ls) := by
      rw [section_text_append]
      exact (prefix_append_right_inj _).mpr hs
    have hpart : done.flatMap HeaderLine.text ++ c :: s ≠ section_text (done ++ ls) := by
      rw [section_text_append]
      exact fun heq => hne (append_cancel_left heq)
    have hprogress := hexact.progress _ 0 _ hwhole hpart hdata
    rw [parse_header_lines hdone hread (by rwa [hc]) hdata] at hprogress
    rw [append_assoc] at hm
    refine ⟨_, _, (holds_append.mp hm).2, ?_⟩
    rw [Nat.add_sub_cancel_left]
    simpa using Parsed.eq_progress_of_append hprogress

theorem HeaderLine.Legal.first_ne_cr (h : l.Legal max) (hm : Holds m p l.name) : m p ≠ cr := by
  obtain ⟨hne, htoken⟩ := h.name
  cases hname : l.name with
  | nil => exact absurd hname hne
  | cons c name =>
    rw [hname] at hm
    rw [hm.1]
    exact (is_token_facts c (htoken c (by simp [hname]))).2.2.1

theorem SectionExact.room (hexact : SectionExact max array_size (done ++ ls))
    (hlegal : ∀ l ∈ done ++ ls, l.Legal max) (hread : ∀ l ∈ done, ∃ rest, l.Readable max rest)
    (hsize : done.length ≤ array_size) : done.length < array_size := by
  obtain ⟨m, p, next, -, hparse⟩ := hexact.behind hlegal hread hsize []
  refine Nat.lt_of_le_of_ne hsize (fun heq => ?_)
  rw [heq, Nat.sub_self, parse_header] at hparse
  cases hparse

/-- A section that is read, up to a line that only readable ones come before. -/
structure Reached (max array_size : Nat) (done : List HeaderLine) (l : HeaderLine) (ls : List HeaderLine) :
    Prop where
  exact : SectionExact max array_size (done ++ l :: ls)
  legal : ∀ x ∈ done ++ l :: ls, x.Legal max
  read : ∀ x ∈ done, ∃ rest, x.Readable max rest
  size : done.length ≤ array_size

theorem Reached.line_legal (h : Reached max array_size done l ls) : l.Legal max := h.legal l (by simp)

theorem Reached.lines_legal (h : Reached max array_size done l ls) : ∀ x ∈ ls, x.Legal max :=
  fun x hx => h.legal x (by simp [hx])

theorem Reached.text (l : HeaderLine) (ls : List HeaderLine) : section_text (l :: ls) = l.text ++ section_text ls := by
  simp [section_text]

section

variable (h : Reached max array_size done l ls)

include h

theorem Reached.not_refused (following : List Byte) :
    ∃ m p, Holds m p (l.text ++ (section_text ls ++ following)) ∧
      parse_header_line m max p (l.text ++ (section_text ls ++ following)).length ≠ .error ∧
      ∀ header, parse_header_line m max p (l.text ++ (section_text ls ++ following)).length =
        .success (header, p + l.text.length) → header = l.header p := by
  obtain ⟨m, p, next, hm, hparse⟩ := h.exact.behind h.legal h.read h.size following
  obtain ⟨n, hn⟩ : ∃ n, array_size - done.length = n + 1 :=
    ⟨array_size - done.length - 1, by have hroom := h.exact.room h.legal h.read h.size; omega⟩
  rw [Reached.text, append_assoc] at hm hparse
  rw [hn] at hparse
  have hcr := h.line_legal.first_ne_cr (HeaderLine.holds_parts (holds_append.mp hm).1).1
  refine ⟨m, p, hm, ?_, ?_⟩
  · intro hline
    have hpos : 0 < (l.text ++ (section_text ls ++ following)).length := by
      rw [length_append, l.text_length]
      omega
    rw [parse_header_refused hline hpos hcr] at hparse
    cases hparse
  intro header hline
  rw [parse_header_step hline, section_headers] at hparse
  cases hrest : parse_header m max n (p + l.text.length) (section_text ls ++ following).length with
  | success value =>
    rw [hrest] at hparse
    obtain ⟨hheaders, -⟩ := Prod.mk.inj (Parsed.success.inj hparse)
    exact (List.cons.inj hheaders).1
  | error | progress | oob =>
    rw [hrest] at hparse
    cases hparse

theorem Reached.not_refused_cut (hs : s <+: l.text)
    (hname : l.name <+: s) (beyond : List Byte) :
    ∃ m p, Holds m p (s ++ beyond) ∧ parse_header_line m max p s.length ≠ .error := by
  obtain ⟨first, rest, hfirst, -⟩ := section_text_head h.lines_legal
  have hpart : s <+: section_text (l :: ls) := by
    rw [Reached.text]
    exact hs.trans ⟨_, rfl⟩
  have hne : s ≠ section_text (l :: ls) := by
    intro heq
    have hle := hs.length_le
    rw [heq, Reached.text, hfirst, length_append, length_cons] at hle
    omega
  have hpos : 0 < s.length :=
    (length_pos_iff.mpr h.line_legal.name.1).trans_le hname.length_le
  obtain ⟨m, p, hm, hparse⟩ :=
    h.exact.behind_cut h.legal h.read h.size hpart hne (length_pos_iff.mp hpos) beyond
  refine ⟨m, p, hm, fun hline => ?_⟩
  have hcr := h.line_legal.first_ne_cr ((holds_append.mp hm).1.shorter hname)
  obtain ⟨n, hn⟩ : ∃ n, array_size - done.length = n + 1 :=
    ⟨array_size - done.length - 1, by have hroom := h.exact.room h.legal h.read h.size; omega⟩
  rw [hn, parse_header_refused hline hpos hcr] at hparse
  cases hparse

theorem Reached.fits : max = 0 ∨ l.line.length < max := by
  by_contra hlong
  have hs : l.line ++ [cr] <+: l.text := ⟨[lf], by simp [HeaderLine.text, crlf]⟩
  have hne : l.line ++ [cr] ≠ l.text := by
    intro heq
    have hlength := congrArg List.length heq
    simp [HeaderLine.text, crlf] at hlength
  obtain ⟨m, p, hm, hline⟩ := h.not_refused_cut hs ⟨colon :: l.body ++ [cr], by simp [HeaderLine.line, HeaderLine.body]⟩ []
  rw [List.append_nil] at hm
  refine hline ?_
  rw [parse_header_line_cut h.line_legal hs hne hm, if_pos]
  rw [length_append, length_singleton]
  omega

theorem Reached.blank (hvalue : l.value = []) : l.body = [] := by
  by_contra hblank
  obtain ⟨first, rest, hfirst, hnot⟩ := section_text_head h.lines_legal
  obtain ⟨m, p, hm, hline, -⟩ := h.not_refused (List.replicate (l.name.length + l.body.length) 0)
  obtain ⟨htext, hbehind⟩ := holds_append.mp hm
  have hrest : l.name.length + l.body.length ≤
      (section_text ls ++ List.replicate (l.name.length + l.body.length) 0).length := by
    rw [length_append, length_replicate]
    omega
  have hfold : is_whitespace (m (p + l.line.length + 2)) = false := by
    have haddress : p + l.line.length + 2 = p + l.text.length := by
      rw [l.line_length, l.text_length]
      omega
    rw [hfirst] at hbehind
    rw [haddress, hbehind.1]
    exact hnot
  have hskip := skip_blank h.line_legal hvalue htext hrest
  have hstart : p + l.name.length + 1 + l.body.length = p + l.line.length := by
    rw [l.line_length]
    omega
  have hparse := parse_header_line_end h.line_legal hm (t := l.body.length)
    (by rw [hskip, hstart]; congr 1; omega) (Nat.le_refl _)
  rw [fold_end_of_not (by rw [hfirst, List.cons_append, length_cons]; omega) hfold, hstart] at hparse
  exact hline (hparse.trans (header_value_blank h.line_legal hvalue hblank htext hfold _))

theorem Reached.whole (hvalue : l.value ≠ []) :
    l.kept (section_text ls).length = 0 ∧ ¬ (l.trail ≠ [] ∧ l.value.length = 1) := by
  obtain ⟨first, rest, hfirst, hnot⟩ := section_text_head h.lines_legal
  obtain ⟨m, p, hm, hline, hheader⟩ := h.not_refused []
  rw [List.append_nil, hfirst] at hm hline hheader
  rw [parse_header_line_value h.line_legal hvalue hm hnot] at hline hheader
  rw [hfirst]
  by_cases hshort : l.trail ≠ [] ∧ l.kept (first :: rest).length + l.value.length = 1
  · rw [if_pos hshort] at hline
    exact absurd rfl hline
  rw [if_neg hshort] at hheader
  have hseen := congrArg (fun header => header.value.length) (hheader _ rfl)
  have hzero : l.kept (first :: rest).length = 0 := by simpa [HeaderLine.seen, HeaderLine.header] using hseen
  rw [hzero, Nat.zero_add] at hshort
  exact ⟨hzero, hshort⟩

theorem Reached.short (hvalue : l.value ≠ []) :
    l.kept 0 + l.value.length + l.trail.length ≤ 2 := by
  by_contra hlong
  obtain ⟨m, p, hm, hline⟩ := h.not_refused_cut (prefix_refl _)
    ⟨colon :: l.body ++ crlf, by simp [HeaderLine.text, HeaderLine.line, HeaderLine.body]⟩ fold
  exact hline (parse_header_line_fold h.line_legal hvalue hm (by omega))

theorem Reached.readable : l.Readable max (section_text ls).length := by
  have hfits := h.fits
  by_cases hvalue : l.value = []
  · have hbody := h.blank hvalue
    rw [HeaderLine.body, hvalue, nil_append, append_eq_nil_iff] at hbody
    obtain ⟨hlead, htrail⟩ := hbody
    have hkept : ∀ rest, l.kept rest = 0 := fun rest => by simp [HeaderLine.kept, hlead]
    exact ⟨htrail, fun _ => hlead, hkept _, by simp [hkept, hvalue], hfits⟩
  obtain ⟨hwhole, htrail⟩ := h.whole hvalue
  have hshort := h.short hvalue
  have hpos : 0 < l.value.length := length_pos_iff.mpr hvalue
  refine ⟨?_, fun hnil => absurd hnil hvalue, hwhole, by omega, hfits⟩
  by_contra hne
  have htrailpos : 0 < l.trail.length := length_pos_iff.mpr hne
  exact htrail ⟨hne, by omega⟩

end

theorem SectionExact.readable (hexact : SectionExact max array_size (done ++ ls))
    (hlegal : ∀ x ∈ done ++ ls, x.Legal max) (hread : ∀ x ∈ done, ∃ rest, x.Readable max rest)
    (hsize : (done ++ ls).length ≤ array_size) :
    (done ++ ls).length < array_size ∧ SectionReadable max ls := by
  induction ls generalizing done with
  | nil =>
    rw [List.append_nil] at hsize ⊢
    exact ⟨hexact.room hlegal hread hsize, trivial⟩
  | cons l ls ih =>
    have hdone : done.length ≤ array_size := by
      rw [length_append] at hsize
      omega
    have hline : l.Readable max (section_text ls).length := Reached.readable ⟨hexact, hlegal, hread, hdone⟩
    have hcons : done ++ l :: ls = (done ++ [l]) ++ ls := by simp
    rw [hcons] at hexact hlegal hsize ⊢
    obtain ⟨hroom, hrest⟩ := ih hexact hlegal
      (forall_mem_append.mpr ⟨hread, forall_mem_singleton.mpr ⟨_, hline⟩⟩) hsize
    exact ⟨hroom, hline, hrest⟩

theorem section_exact_iff (hlegal : ∀ l ∈ ls, l.Legal max) (hsize : ls.length ≤ array_size) :
    SectionExact max array_size ls ↔ ls.length < array_size ∧ SectionReadable max ls := by
  constructor
  · intro hexact
    have hnone : SectionExact max array_size ([] ++ ls) := hexact
    exact hnone.readable hlegal (by simp) hsize
  intro h
  exact h.2.exact hlegal h.1

/-- The request line and the headers behind it are read exactly under these conditions. -/
theorem head_exact_iff {inet_pton : uri.Family → List Byte → Bool} {max_method_name : Nat}
    {line : RequestLine} (hline : line.Legal max_method_name) (hlegal : ∀ l ∈ ls, l.Legal max)
    (hsize : ls.length ≤ array_size) :
    (line.Exact inet_pton max_method_name ∧ SectionExact max array_size ls) ↔
      (line.Readable inet_pton max_method_name ∧ ls.length < array_size ∧ SectionReadable max ls) :=
  and_congr (request_line_exact_iff hline) (section_exact_iff hlegal hsize)

def get_root : RequestLine := ⟨[71, 69, 84], [47], [49], [49]⟩

def host_a : HeaderLine := ⟨[72, 111, 115, 116], [], [97], []⟩

theorem get_root_legal : get_root.Legal 7 where
  method := by decide
  method_fits := by decide
  uri := by decide
  uri_fits := by decide
  major := by decide
  minor := by decide

theorem host_a_legal : host_a.Legal 1000 where
  name := by decide
  lead := by decide
  value := by decide
  first := by decide
  last := by decide
  trail := by decide
  fits := by decide
  size := by decide

theorem head_exact_host : get_root.Exact (fun _ _ => false) 7 ∧ SectionExact 1000 100 [host_a] := by
  refine (head_exact_iff get_root_legal (by simpa using host_a_legal) (by decide)).mpr ⟨?_, by decide, ?_, trivial⟩
  · exact ⟨by decide, by decide +kernel, rfl, rfl⟩
  · exact ⟨rfl, by decide, by decide, by decide, by decide⟩

def connection_close : HeaderLine :=
  ⟨[67, 111, 110, 110, 101, 99, 116, 105, 111, 110], [space], [99, 108, 111, 115, 101], []⟩

theorem connection_close_legal : connection_close.Legal 1000 where
  name := by decide
  lead := by decide
  value := by decide
  first := by decide
  last := by decide
  trail := by decide
  fits := by decide
  size := by decide

/-- With nothing behind the section, the value that is read starts with the space. -/
theorem connection_close_misread :
    connection_close.Legal 1000 ∧ ¬ SectionExact 1000 100 [connection_close] := by
  refine ⟨connection_close_legal, fun hexact => ?_⟩
  have hm := holds_of (section_text [connection_close] ++ []) fun _ => 0
  have hsuccess := hexact.success _ 0 [] hm
  revert hsuccess
  decide +kernel

end openvocs.http
