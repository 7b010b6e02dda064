import Mathlib.Data.List.Infix
import Openvocs.Uri.RoundTrip

open List Option

namespace openvocs.uri

/-- The parts of an identifier with an authority, as the grammar has them. -/
structure Parts where
  scheme : List Byte
  user : Option (List Byte)
  host : List Byte
  port : Option (List Byte)
  path : List Byte
  query : Option (List Byte)
  fragment : Option (List Byte)

/-- A sign in front of a part that may be missing. -/
def Parts.behind (first : Byte) (p : Option (List Byte)) : List Byte := (p.map (first :: ·)).getD []

/-- The query and the fragment, as they are written. -/
def Parts.tail (p : Parts) : List Byte := behind question p.query ++ behind hash p.fragment

def Parts.text (p : Parts) : List Byte :=
  p.scheme ++ colon :: slash :: slash :: ((p.user.map (· ++ [at_sign])).getD [] ++
    (p.host ++ (behind colon p.port ++ (p.path ++ p.tail))))

/-- The components that are written. -/
def Parts.components (p : Parts) : Uri where
  scheme := some p.scheme
  user := p.user
  host := part p.host
  port := (p.port.map cstring.value).getD 0
  path := some p.path
  query := p.query.map (question :: ·)
  fragment := p.fragment.map (hash :: ·)

/-- The grammar of the parts, without percent encoding. -/
structure Parts.Grammatical (p : Parts) : Prop where
  scheme : chars_are_scheme p.scheme = true
  user : ∀ user ∈ p.user, ∀ c ∈ user, char_is_user c = true
  host : ∀ c ∈ p.host, char_is_reg_name c = true
  port : ∀ digits ∈ p.port, cstring.IsNumber digits ∧ 1 ≤ cstring.value digits ∧ cstring.value digits ≤ 65535
  path : p.path.head? = some slash ∧ ∀ c ∈ p.path, c = slash ∨ char_is_path true c = true
  query : ∀ query ∈ p.query, ∀ c ∈ query, c = slash ∨ c = question ∨ char_is_path true c = true
  fragment : ∀ fragment ∈ p.fragment, ∀ c ∈ fragment, c = slash ∨ c = question ∨ char_is_path true c = true

/-- No part is mistaken for another one. -/
structure Parts.Clear (p : Parts) : Prop where
  user : p.user ≠ some []
  at_sign : p.user = none → uri.at_sign ∉ p.path ++ p.tail
  host : p.host.head? ≠ some letter_v
  path : ¬ [slash, slash] <:+: p.path
  slash : slash ∉ p.tail
  query : ∀ query ∈ p.query, ¬ [question, question] <:+: question :: query
  fragment : ∀ fragment ∈ p.fragment, question ∉ fragment

theorem chars_are_of_forall {ok : Byte → Bool} (hok : ok percent = false) {s : List Byte}
    (h : ∀ c ∈ s, ok c = true) : chars_are ok s = true := by
  induction s with
  | nil => rfl
  | cons c s ih =>
    have hc := h c mem_cons_self
    have hne : c ≠ percent := by
      rintro rfl
      rw [hok] at hc
      simp at hc
    rw [chars_are_cons hne, hc, ih fun d hd => h d (mem_cons_of_mem _ hd)]
    rfl

theorem double_skip {d : Byte} {segment : List Byte} (h : d ∉ segment) (rest : List Byte) :
    [d, d] <:+: segment ++ rest ↔ [d, d] <:+: rest := by
  induction segment with
  | nil => rfl
  | cons c segment ih =>
    rw [mem_cons, not_or] at h
    rw [List.cons_append, infix_cons_iff, ih h.2]
    simp [h.1]

theorem not_double {d : Byte} {s : List Byte} (h : d ∉ s) : ¬ [d, d] <:+: d :: s := by
  intro hdouble
  obtain hbegin | hinside := infix_cons_iff.mp hdouble
  · have hmem : d ∈ s := (cons_prefix_cons.mp hbegin).2.mem mem_cons_self
    exact h hmem
  · exact h (hinside.mem mem_cons_self)

theorem double_cons {d : Byte} {segment rest : List Byte} (h : d ∉ segment) :
    [d, d] <:+: d :: (segment ++ d :: rest) ↔ segment = [] ∨ [d, d] <:+: d :: rest := by
  cases segment with
  | nil =>
    simp only [nil_append, true_or, iff_true]
    exact ⟨[], rest, rfl⟩
  | cons c segment =>
    have hc : d ≠ c := fun heq => h (by rw [heq]; exact mem_cons_self)
    rw [infix_cons_iff, double_skip h]
    simp [hc]

theorem path_chars_not_major {c : Byte} : char_is_path true c = true → is_major_delimiter c = false := by
  revert c
  decide +kernel

theorem plain_of_major {c : Byte} : is_major_delimiter c = true → Plain c ∧ char_is_path true c = false := by
  revert c
  decide +kernel

theorem takeWhile_major {a rest : List Byte} (ha : ∀ c ∈ a, is_major_delimiter c = false)
    (hrest : ∀ c ∈ rest.head?, is_major_delimiter c = true) :
    (a ++ rest).takeWhile (fun c => !is_major_delimiter c) = a ∧
      (a ++ rest).dropWhile (fun c => !is_major_delimiter c) = rest := by
  have hall : ∀ c ∈ a, (!is_major_delimiter c) = true := fun c hc => by rw [ha c hc]; rfl
  rw [takeWhile_append_of_pos hall, dropWhile_append_of_pos hall]
  cases rest with
  | nil => simp
  | cons c rest => simp [hrest c rfl]

theorem check_part_iff {d : Byte} {a rest : List Byte} (ha : ∀ c ∈ a, c = d ∨ char_is_path true c = true)
    (hrest : ∀ c ∈ rest.head?, c ≠ d ∧ is_major_delimiter c = true) :
    check_with_delimiter (a ++ rest) d true =
      if ¬ [d, d] <:+: d :: a ∧ d ∉ rest then some rest else none := by
  induction hn : a.length using Nat.strongRecOn generalizing a with
  | ind n ih =>
    by_cases hmem : d ∈ a
    · obtain ⟨hsplit, hfirst⟩ := span_first hmem
      generalize a.takeWhile (· ≠ d) = segment at hsplit hfirst
      generalize (a.dropWhile (· ≠ d)).tail = more at hsplit
      subst hsplit
      rw [length_append, length_cons] at hn
      have hmore := ih more.length (by omega)
        (fun c hc => ha c (mem_append_right _ (mem_cons_of_mem _ hc))) rfl
      have hsegment : chars_are_path_chars segment true = true ↔ segment ≠ [] := by
        rw [chars_are_path_chars, Bool.and_eq_true, decide_eq_true_eq, and_iff_left_iff_imp]
        intro _
        apply chars_are_of_forall (by decide)
        intro c hc
        exact (ha c (mem_append_left _ hc)).resolve_left fun heq => hfirst (heq ▸ hc)
      rw [append_assoc, List.cons_append, check_cons hfirst, hmore]
      simp only [double_cons hfirst]
      by_cases hnil : segment = []
      · rw [if_neg (fun h => hsegment.mp h hnil), if_neg]
        simp [hnil]
      rw [if_pos (hsegment.mpr hnil)]
      simp only [hnil, false_or]
    have hpath : ∀ c ∈ a, char_is_path true c = true :=
      fun c hc => (ha c hc).resolve_left fun heq => hmem (heq ▸ hc)
    by_cases hlast : d ∈ rest
    · rw [if_neg (fun h => h.2 hlast)]
      obtain ⟨c, rest', rfl⟩ := exists_cons_of_ne_nil (ne_nil_of_mem hlast)
      obtain ⟨hne, hmajor⟩ := hrest c rfl
      obtain ⟨hsplit, hfirst⟩ := span_first hlast
      rw [takeWhile_cons_of_pos (by simpa using hne)] at hsplit hfirst
      generalize rest'.takeWhile (· ≠ d) = segment at hsplit hfirst
      rw [hsplit, ← append_assoc, check_cons, if_neg]
      · rw [chars_are_path_chars, Bool.and_eq_true, not_and]
        intro _ hchars
        obtain ⟨hplain, hfalse⟩ := plain_of_major hmajor
        exact chars_are_not_mem hchars hplain hfalse (by simp)
      rw [mem_append, not_or]
      exact ⟨hmem, hfirst⟩
    rw [if_pos ⟨not_double hmem, hlast⟩, check_last (by simp [hmem, hlast])]
    obtain ⟨htake, hdrop⟩ := takeWhile_major (fun c hc => path_chars_not_major (hpath c hc)) fun c hc => (hrest c hc).2
    rw [htake, hdrop, if_pos]
    by_cases hnil : a = []
    · exact .inl hnil
    right
    rw [chars_are_path_chars, chars_are_of_forall (by decide) hpath]
    simp [hnil]

namespace Parts

variable {p : Parts}

theorem tail_head (p : Parts) : ∀ c ∈ p.tail.head?, c = question ∨ c = hash := by
  intro c hc
  cases hquery : p.query with
  | some query =>
    rw [tail, hquery, behind, map_some, getD_some, List.cons_append, head?_cons, mem_some_iff] at hc
    exact .inl hc.symm
  | none =>
    cases hfragment : p.fragment with
    | some fragment =>
      rw [tail, hquery, hfragment] at hc
      exact .inr (some.inj hc).symm
    | none =>
      rw [tail, hquery, hfragment] at hc
      simp [behind] at hc

theorem ends_host (h : p.Grammatical) : EndsHost (behind colon p.port ++ (p.path ++ p.tail)) := by
  intro c hc
  cases hport : p.port with
  | some digits =>
    rw [hport] at hc
    exact .inl (some.inj hc).symm
  | none =>
    obtain ⟨more, hmore⟩ := head?_eq_some_iff.mp h.path.1
    rw [hport, hmore] at hc
    exact .inr (.inl (some.inj hc).symm)

theorem at_not_mem_host (h : p.Grammatical) : at_sign ∉ p.host ++ behind colon p.port := by
  rw [mem_append, not_or]
  constructor
  · intro hmem
    have hchar := h.host at_sign hmem
    simp [char_is_reg_name, at_sign, char_is_unreserved, is_alnum, is_alpha, cstring.is_digit,
      char_is_reserved_sub_delimiter] at hchar
  cases hport : p.port with
  | none => simp [behind]
  | some digits =>
    rw [behind, map_some, getD_some, mem_cons, not_or]
    refine ⟨by decide, fun hmem => ?_⟩
    have hdigit := (h.port digits hport).1.2 at_sign hmem
    simp [cstring.is_digit, at_sign] at hdigit

/-- The authority as it is written. -/
def authority_text (p : Parts) : List Byte :=
  (p.user.map (· ++ [at_sign])).getD [] ++ (p.host ++ (behind colon p.port ++ (p.path ++ p.tail)))

theorem mask_user_eq (h : p.Grammatical) : mask_user p.authority_text =
      if p.user ≠ some [] ∧ (p.user = none → at_sign ∉ p.path ++ p.tail) then
        some (p.user.getD [], p.host ++ (behind colon p.port ++ (p.path ++ p.tail)))
      else none := by
  cases huser : p.user with
  | some user =>
    rw [authority_text, huser, map_some, getD_some, append_assoc]
    by_cases hnil : user = []
    · rw [hnil, if_neg (by simp)]
      have hfalse : chars_are_user [] = false := rfl
      simp [mask_user, hfalse]
    rw [if_pos (by simp [hnil])]
    apply mask_user_text
    rw [chars_are_user, chars_are_of_forall (by decide) (h.user user huser)]
    simp [hnil]
  | none =>
    have hhost := at_not_mem_host h
    rw [authority_text, huser, map_none, getD_none, nil_append, ← append_assoc]
    by_cases hmem : at_sign ∈ p.path ++ p.tail
    · rw [if_neg (by simp only [forall_const]; exact fun hboth => hboth.2 hmem)]
      obtain ⟨more, hmore⟩ := head?_eq_some_iff.mp h.path.1
      rw [mask_user, if_pos (mem_append_right _ hmem), if_neg]
      intro hchars
      rw [chars_are_user, Bool.and_eq_true] at hchars
      apply chars_are_not_mem hchars.2 (show Plain slash by decide) (by decide)
      rw [takeWhile_append_of_pos, hmore, List.cons_append, takeWhile_cons_of_pos (by decide)]
      · simp
      intro c hc
      rw [decide_eq_true_eq]
      rintro rfl
      exact hhost hc
    rw [if_pos ⟨by simp, fun _ => hmem⟩, mask_user_none]
    rw [mem_append, not_or]
    exact ⟨hhost, hmem⟩

variable {inet_pton : Family → List Byte → Bool}

section

variable (h : p.Grammatical)

include h

theorem mask_host_eq :
    mask_host inet_pton (p.host ++ (behind colon p.port ++ (p.path ++ p.tail))) =
      if p.host.head? ≠ some letter_v then some (p.host, behind colon p.port ++ (p.path ++ p.tail)) else none := by
  have hends := ends_host h
  cases hhost : p.host with
  | nil => exact mask_host_empty hends
  | cons c host =>
    have hchars := h.host
    rw [hhost] at hchars
    have hdelimiter : ∀ c : Byte, char_is_reg_name c = true →
        char_is_reserved_general_delimiter c = false ∧ c ≠ open_bracket := by decide +kernel
    rw [head?_cons]
    by_cases hletter : c = letter_v
    · rw [if_neg (by simp [hletter]), hletter, List.cons_append, mask_host, if_neg (by decide), if_pos rfl,
        mask_ip_future_eq_none]
    rw [if_pos (by simpa using hletter)]
    apply mask_host_name (hdelimiter c (hchars c mem_cons_self)).2 hletter
    · exact fun x hx => (hdelimiter x (hchars x hx)).1
    · rw [chars_are_reg_name, chars_are_of_forall (by decide) hchars, Bool.or_true]
    · exact fun x hx => (hends.delimiter x hx).1

theorem mask_port_eq :
    mask_port (behind colon p.port ++ (p.path ++ p.tail)) = some (p.port.map cstring.value, p.path ++ p.tail) := by
  obtain ⟨more, hmore⟩ := head?_eq_some_iff.mp h.path.1
  cases hport : p.port with
  | none =>
    apply mask_port_none
    intro c hc
    rw [hmore] at hc
    rw [← some.inj hc]
    decide
  | some digits =>
    obtain ⟨hnumber, -, hsmall⟩ := h.port digits hport
    apply mask_port_text hnumber hsmall
    intro c hc
    rw [hmore] at hc
    rw [← some.inj hc]
    decide

theorem check_path_absolute_eq (u : Uri) : check_path_absolute u (p.path ++ p.tail) =
      if ¬ [slash, slash] <:+: p.path ∧ slash ∉ p.tail then ({ u with path := some p.path }, some p.tail)
      else (u, none) := by
  obtain ⟨path, hpath⟩ := head?_eq_some_iff.mp h.path.1
  have hchars : ∀ c ∈ path, c = slash ∨ char_is_path true c = true :=
    fun c hc => h.path.2 c (by rw [hpath]; exact mem_cons_of_mem _ hc)
  have htail : ∀ c ∈ p.tail.head?, c ≠ slash ∧ is_major_delimiter c = true := by
    intro c hc
    obtain rfl | rfl := p.tail_head c hc <;> decide
  have hcheck := check_part_iff hchars htail
  rw [hpath, List.cons_append, check_path_absolute]
  by_cases hclear : ¬ [slash, slash] <:+: slash :: path ∧ slash ∉ p.tail
  · have hhead : (path ++ p.tail).head? ≠ some slash := by
      intro hhead
      cases path with
      | nil => exact (htail slash hhead).1 rfl
      | cons c path =>
        rw [List.cons_append, head?_cons, some.injEq] at hhead
        rw [hhead] at hclear
        exact hclear.1 ⟨[], path, rfl⟩
    rw [if_pos hclear, if_neg (not_or.mpr ⟨fun hne => hne rfl, hhead⟩), check_path, hcheck, if_pos hclear, set_path, ← List.cons_append,
      before_append]
  rw [if_neg hclear, check_path, hcheck, if_neg hclear]
  split_ifs <;> rfl

/-- What the authority and the path are read as. -/
def found (p : Parts) : Uri where
  scheme := some p.scheme
  user := p.user
  host := part p.host
  port := (p.port.map cstring.value).getD 0
  path := some p.path

/-- The part of the condition that is about the authority and the path. -/
def ClearPath (p : Parts) : Prop :=
  (p.user ≠ some [] ∧ (p.user = none → at_sign ∉ p.path ++ p.tail)) ∧ p.host.head? ≠ some letter_v ∧
    ¬ [slash, slash] <:+: p.path ∧ slash ∉ p.tail

theorem authority_clear (hclear : p.ClearPath) :
    authority inet_pton { scheme := some p.scheme } p.authority_text = (p.found, some p.tail) := by
  obtain ⟨huser, hhost, hpath⟩ := hclear
  obtain ⟨path, hslash⟩ := head?_eq_some_iff.mp h.path.1
  have hfound : Authority inet_pton p.authority_text (p.user.getD []) p.host (p.port.map cstring.value)
      (p.path ++ p.tail) :=
    ⟨_, by rw [mask_user_eq h, if_pos huser], _, by rw [mask_host_eq h, if_pos hhost], mask_port_eq h⟩
  have hpart : part (p.user.getD []) = p.user := by
    cases hcase : p.user with
    | none => rfl
    | some user =>
      rw [hcase] at huser
      exact part_of_ne (by simpa using huser.1)
  have hbehind : ∀ u : Uri, path_behind u (p.path ++ p.tail) = check_path_absolute u (p.path ++ p.tail) := by
    intro u
    rw [hslash, List.cons_append, path_behind, if_neg (by decide)]
  rw [hfound.eq rfl rfl rfl, hbehind, check_path_absolute_eq h, if_pos hpath, hpart]
  rfl

theorem authority_not_clear (hclear : ¬ p.ClearPath) (u : Uri) :
    (authority inet_pton u p.authority_text).2 = none := by
  obtain ⟨path, hslash⟩ := head?_eq_some_iff.mp h.path.1
  rw [authority, mask_user_eq h]
  by_cases huser : p.user ≠ some [] ∧ (p.user = none → at_sign ∉ p.path ++ p.tail)
  · rw [if_pos huser]
    simp only [mask_host_eq h]
    by_cases hhost : p.host.head? ≠ some letter_v
    · rw [if_pos hhost]
      simp only [mask_port_eq h]
      have hpath : ¬ (¬ [slash, slash] <:+: p.path ∧ slash ∉ p.tail) := fun hpath => hclear ⟨huser, hhost, hpath⟩
      have hbehind : ∀ u : Uri, path_behind u (p.path ++ p.tail) = check_path_absolute u (p.path ++ p.tail) := by
        intro u
        rw [hslash, List.cons_append, path_behind, if_neg (by decide)]
      rw [hbehind, check_path_absolute_eq h, if_neg hpath]
    · rw [if_neg hhost]
  · rw [if_neg huser]

theorem parse_query_eq (hslash : slash ∉ p.tail) {query : List Byte} (hquery : p.query = some query)
    (u : Uri) :
    parse_query u p.tail =
      if ¬ [question, question] <:+: question :: query ∧ question ∉ behind hash p.fragment then
        ({ u with query := some (question :: query) }, some (behind hash p.fragment))
      else (u, none) := by
  have htail : p.tail = question :: query ++ behind hash p.fragment := by
    rw [tail, hquery]
    rfl
  have hchars : ∀ c ∈ query, c = question ∨ char_is_path true c = true := by
    intro c hc
    refine (h.query query hquery c hc).resolve_left fun heq => hslash ?_
    rw [htail, ← heq]
    exact mem_append_left _ (mem_cons_of_mem _ hc)
  have hrest : ∀ c ∈ (behind hash p.fragment).head?, c ≠ question ∧ is_major_delimiter c = true := by
    intro c hc
    cases hfragment : p.fragment with
    | none =>
      rw [hfragment] at hc
      simp [behind] at hc
    | some fragment =>
      rw [hfragment] at hc
      rw [← some.inj hc]
      decide
  rw [parse_query, htail, List.cons_append, tail_cons, check_part_iff hchars hrest]
  split_ifs
  · simp only [← List.cons_append, before_append]
  · rfl

theorem parse_fragment_end_eq (hslash : slash ∉ p.tail) (u : Uri) (hu : u.fragment = none) :
    parse_fragment_end u (behind hash p.fragment) =
      if ∀ fragment ∈ p.fragment, question ∉ fragment then some { u with fragment := p.fragment.map (hash :: ·) }
      else none := by
  cases hfragment : p.fragment with
  | none =>
    rw [if_pos (by simp)]
    change some u = some { u with fragment := none }
    rw [← hu]
  | some fragment =>
    have hmem : ∀ c ∈ fragment, c ≠ slash := by
      rintro c hc rfl
      apply hslash
      rw [tail, hfragment]
      exact mem_append_right _ (mem_cons_of_mem _ hc)
    have hchars : ∀ c ∈ fragment, c = question ∨ char_is_path true c = true :=
      fun c hc => (h.fragment fragment hfragment c hc).resolve_left (hmem c hc)
    have hhash : hash ∉ fragment := by
      intro hc
      obtain heq | hpath := hchars hash hc
      · exact absurd heq (by decide)
      · exact absurd hpath (by decide)
    simp only [mem_def, some.injEq, forall_eq', behind, map_some, getD_some]
    rw [parse_fragment_end, if_neg (by simp), parse_fragment, tail_cons, check_last hhash]
    by_cases hquestion : question ∈ fragment
    · have hleft : fragment.dropWhile (fun c => !is_major_delimiter c) ≠ [] := by
        rw [ne_eq, dropWhile_eq_nil_iff]
        intro hall
        have hfalse := hall question hquestion
        simp [is_major_delimiter, question] at hfalse
      obtain ⟨c, more, hmore⟩ := exists_cons_of_ne_nil hleft
      rw [hmore, if_neg (show ¬ question ∉ fragment from not_not.mpr hquestion)]
      split_ifs <;> rfl
    have hpath : ∀ c ∈ fragment, char_is_path true c = true :=
      fun c hc => (hchars c hc).resolve_left fun heq => hquestion (heq ▸ hc)
    obtain ⟨htake, hdrop⟩ := takeWhile_major (fun c hc => path_chars_not_major (hpath c hc))
      (fun c (hc : c ∈ ([] : List Byte).head?) => by simp at hc)
    rw [List.append_nil] at htake hdrop
    rw [htake, hdrop, if_pos hquestion, if_pos]
    · have hbefore := before_append (hash :: fragment) []
      rw [List.append_nil] at hbefore
      simp only [hbefore, complete]
    by_cases hnil : fragment = []
    · exact .inl hnil
    right
    rw [chars_are_path_chars, chars_are_of_forall (by decide) hpath]
    simp [hnil]

end

theorem mem_behind_hash (p : Parts) : question ∈ behind hash p.fragment ↔ ∃ fragment ∈ p.fragment, question ∈ fragment := by
  cases p.fragment with
  | none => simp [behind]
  | some fragment => simp [behind, question, hash]

theorem end_eq (h : p.Grammatical) (hslash : slash ∉ p.tail) :
    (parse_absolute_end p.found p.tail).or (parse_reference_end p.found p.tail) =
      if (∀ query ∈ p.query, ¬ [question, question] <:+: question :: query) ∧
          ∀ fragment ∈ p.fragment, question ∉ fragment then
        some p.components
      else none := by
  have hcomponents : p.components =
      { p.found with query := p.query.map (question :: ·), fragment := p.fragment.map (hash :: ·) } := rfl
  cases hquery : p.query with
  | none =>
    have htail : p.tail = behind hash p.fragment := by
      rw [tail, hquery]
      rfl
    have hread := parse_fragment_end_eq h hslash p.found rfl
    rw [← htail] at hread
    have hreference : parse_reference_end p.found p.tail = parse_fragment_end p.found p.tail := by
      rw [parse_reference_end, if_neg]
      intro hhead
      rw [htail] at hhead
      cases hfragment : p.fragment with
      | none =>
        rw [hfragment] at hhead
        simp [behind] at hhead
      | some fragment =>
        rw [hfragment] at hhead
        simp [behind, hash, question] at hhead
    rw [hreference, hread, hcomponents, hquery]
    cases hfragment : p.fragment with
    | none =>
      rw [htail, hfragment]
      simp [behind, parse_absolute_end, found]
    | some fragment =>
      have hnone : parse_absolute_end p.found p.tail = none := by
        rw [htail, hfragment]
        simp [behind, parse_absolute_end, hash, question]
      rw [hnone, none_or]
      simp [found]
  | some query =>
    have hread := parse_query_eq h hslash hquery p.found
    have hhead : ∃ more, p.tail = question :: more := by
      rw [tail, hquery]
      exact ⟨_, rfl⟩
    obtain ⟨more, hmore⟩ := hhead
    have habsolute : parse_absolute_end p.found p.tail = complete (parse_query p.found p.tail) := by
      rw [hmore, parse_absolute_end, if_neg (by simp)]
    rw [habsolute, parse_reference_end, if_pos (by rw [hmore]; rfl), hread]
    simp only [mem_some_iff, forall_eq']
    by_cases hclear : ¬ [question, question] <:+: question :: query ∧ question ∉ behind hash p.fragment
    · have hlast := parse_fragment_end_eq h hslash { p.found with query := some (question :: query) } rfl
      have hfragment : ∀ fragment ∈ p.fragment, question ∉ fragment := by
        intro fragment hsome hmem
        exact hclear.2 (p.mem_behind_hash.mpr ⟨fragment, hsome, hmem⟩)
      rw [if_pos hclear, if_pos ⟨hclear.1, hfragment⟩, hcomponents, hquery]
      rw [if_pos hfragment] at hlast
      simp only [hlast]
      cases hcase : p.fragment with
      | none => simp [behind, complete, found]
      | some fragment => simp [behind, complete]
    rw [if_neg hclear, if_neg]
    · rfl
    intro hboth
    apply hclear
    refine ⟨hboth.1, fun hmem => ?_⟩
    obtain ⟨fragment, hsome, hquestion⟩ := p.mem_behind_hash.mp hmem
    exact hboth.2 fragment hsome hquestion

theorem clear_iff (p : Parts) :
    p.Clear ↔ p.ClearPath ∧ (∀ query ∈ p.query, ¬ [question, question] <:+: question :: query) ∧
      ∀ fragment ∈ p.fragment, question ∉ fragment :=
  ⟨fun h => ⟨⟨⟨h.user, h.at_sign⟩, h.host, h.path, h.slash⟩, h.query, h.fragment⟩,
    fun h => ⟨h.1.1.1, h.1.1.2, h.1.2.1, h.1.2.2.1, h.1.2.2.2, h.2.1, h.2.2⟩⟩

theorem allowed_of_kind : ∀ c : Byte, (char_is_scheme c = true ∨ char_is_user c = true ∨ char_is_reg_name c = true ∨
    cstring.is_digit c = true ∨ char_is_path true c = true ∨ char_is_reserved_general_delimiter c = true) →
    char_is_allowed c = true := by
  decide +kernel

theorem mem_behind {first c : Byte} {q : Option (List Byte)} (h : c ∈ behind first q) :
    c = first ∨ ∃ s ∈ q, c ∈ s := by
  cases q with
  | none => simp [behind] at h
  | some s =>
    obtain rfl | hmem := mem_cons.mp h
    · exact .inl rfl
    · exact .inr ⟨s, rfl, hmem⟩

theorem allowed_of_path {c : Byte} (h : c = slash ∨ c = question ∨ char_is_path true c = true) :
    char_is_allowed c = true := by
  obtain rfl | rfl | hpath := h
  · decide
  · decide
  · exact allowed_of_kind c (.inr (.inr (.inr (.inr (.inl hpath)))))

theorem text_allowed (h : p.Grammatical) : chars_are_allowed p.text = true := by
  rw [chars_are_allowed_iff]
  refine ⟨by simp [text], chars_are_of_forall (by decide) fun c hc => ?_⟩
  simp only [text, tail, mem_append, mem_cons] at hc
  obtain hc | rfl | rfl | rfl | hc | hc | hc | hc | hc | hc := hc
  · have hscheme := h.scheme
    cases hcase : p.scheme with
    | nil => simp [hcase] at hc
    | cons first scheme =>
      rw [hcase, chars_are_scheme, Bool.and_eq_true, List.all_eq_true] at hscheme
      exact allowed_of_kind c (.inl (hscheme.2 c (hcase ▸ hc)))
  · decide
  · decide
  · decide
  · cases huser : p.user with
    | none => simp [huser] at hc
    | some user =>
      rw [huser, map_some, getD_some, mem_append, mem_singleton] at hc
      obtain hc | rfl := hc
      · exact allowed_of_kind c (.inr (.inl (h.user user huser c hc)))
      · decide
  · exact allowed_of_kind c (.inr (.inr (.inl (h.host c hc))))
  · obtain rfl | ⟨digits, hdigits, hmem⟩ := mem_behind hc
    · decide
    · exact allowed_of_kind c (.inr (.inr (.inr (.inl ((h.port digits hdigits).1.2 c hmem)))))
  · exact allowed_of_path ((h.path.2 c hc).imp_right .inr)
  · obtain rfl | ⟨query, hquery, hmem⟩ := mem_behind hc
    · decide
    · exact allowed_of_path (h.query query hquery c hmem)
  obtain rfl | ⟨fragment, hfragment, hmem⟩ := mem_behind hc
  · decide
  · exact allowed_of_path (h.fragment fragment hfragment c hmem)

theorem from_string_iff_clear (h : p.Grammatical) :
    ov_uri_from_string inet_pton p.text = some p.components ↔ p.Clear := by
  have hallowed := text_allowed h
  have hmask : mask_scheme p.text = (p.scheme, slash :: slash :: p.authority_text) := mask_scheme_text h.scheme _
  have hne := scheme_ne_nil h.scheme
  have hrooted : ∀ u, check_rooted inet_pton u (slash :: slash :: p.authority_text) =
      authority inet_pton u p.authority_text := fun u => check_rooted_slashes u _
  rw [clear_iff]
  by_cases hclear : p.ClearPath
  · have hfound := @authority_clear p inet_pton h hclear
    have habsolute : parse_uri_string_absolute inet_pton p.text = parse_absolute_end p.found p.tail := by
      apply absolute_eq hallowed hmask hne
      rw [part_of_ne hne, check_hierarchical_path, if_pos rfl, hrooted, hfound]
    have hreference : parse_uri_string_reference inet_pton p.text = parse_reference_end p.found p.tail := by
      apply reference_eq hallowed hmask
      rw [part_of_ne hne, check_relative_path, if_pos rfl, hrooted, hfound]
    rw [ov_uri_from_string, habsolute, hreference, end_eq h hclear.2.2.2]
    simp [hclear]
  have hfound := @authority_not_clear p inet_pton h hclear
  have habsolute : parse_uri_string_absolute inet_pton p.text = none := by
    by_contra hsome
    obtain ⟨u, hu⟩ := ne_none_iff_exists'.mp hsome
    obtain ⟨scheme, behind, v, rest, -, hmask', -, hcheck, -⟩ := absolute_cases hu
    rw [hmask, Prod.mk.injEq] at hmask'
    rw [← hmask'.2, check_hierarchical_path, if_pos rfl, hrooted] at hcheck
    have hnone := hfound { scheme := part scheme }
    rw [hcheck] at hnone
    simp at hnone
  have hreference : parse_uri_string_reference inet_pton p.text = none := by
    by_contra hsome
    obtain ⟨u, hu⟩ := ne_none_iff_exists'.mp hsome
    obtain ⟨scheme, behind, v, rest, -, hmask', hcheck, -⟩ := reference_cases hu
    rw [hmask, Prod.mk.injEq] at hmask'
    rw [← hmask'.2, check_relative_path, if_pos rfl, hrooted] at hcheck
    have hnone := hfound { scheme := part scheme }
    rw [hcheck] at hnone
    simp at hnone
  rw [ov_uri_from_string, habsolute, hreference]
  simp [hclear]

end Parts

/-- When an identifier is read again as it was, and when one of the grammar is read as it is written. -/
theorem uri_round_trip_iff (inet_pton : Family → List Byte → Bool) {s : List Byte} {u : Uri}
    (hs : ov_uri_from_string inet_pton s = some u) {p : Parts} (hp : p.Grammatical) :
    (RoundTrips inet_pton u ↔ ¬ Blank s ∧ ¬ Leaves inet_pton s) ∧
      (ov_uri_from_string inet_pton p.text = some p.components ↔ p.Clear) :=
  ⟨round_trips_iff hs, Parts.from_string_iff_clear hp⟩

/-- `a://h/p`, and no string is an address. -/
def small : Parts := ⟨[97], none, [104], none, [47, 112], none, none⟩

theorem small_grammatical : small.Grammatical where
  scheme := rfl
  user := by simp [small]
  host := by decide
  port := by simp [small]
  path := by decide
  query := by simp [small]
  fragment := by simp [small]

theorem uri_round_trip_small : RoundTrips (fun _ _ => false) small.components ↔
      ¬ Blank small.text ∧ ¬ Leaves (fun _ _ => false) small.text :=
  (uri_round_trip_iff (fun _ _ => false) (s := small.text) (u := small.components) (by decide) small_grammatical).1

def leaked : Uri where
  scheme := some [117, 114, 110]
  host := some [105, 115, 98, 110]
  path := some [105, 115, 98, 110, 58, 120]

/-- A host is left in front of a path, and `a://v/` is not accepted at all. -/
theorem uri_round_trip_fails :
    (ov_uri_from_string (fun _ _ => false) [117, 114, 110, 58, 105, 115, 98, 110, 58, 120] = some leaked ∧
      ¬ RoundTrips (fun _ _ => false) leaked) ∧
      ∃ p : Parts, p.Grammatical ∧ ov_uri_from_string (fun _ _ => false) p.text = none := by
  constructor
  · refine ⟨by decide, ?_⟩
    rintro ⟨t, ht, -, hread⟩
    have hstring : ov_uri_to_string (fun _ _ => false) leaked =
        some [117, 114, 110, 58, 47, 47, 105, 115, 98, 110, 105, 115, 98, 110, 58, 120] := by decide
    rw [hstring, some.injEq] at ht
    have hnone : ov_uri_from_string (fun _ _ => false)
        [117, 114, 110, 58, 47, 47, 105, 115, 98, 110, 105, 115, 98, 110, 58, 120] = none := by decide
    rw [← ht, hnone] at hread
    simp at hread
  · refine ⟨⟨[97], none, [118], none, [47], none, none⟩, ⟨rfl, by simp, by decide, by simp, by decide, by simp, by simp⟩,
      by decide⟩

end openvocs.uri
