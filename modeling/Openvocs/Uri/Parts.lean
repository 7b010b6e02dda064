import Openvocs.Uri.Parse

open List Option

namespace openvocs.uri

open cstring

/-- An octet that is neither a percent sign nor a digit behind one. -/
def Plain (c : Byte) : Prop := c ≠ percent ∧ is_hex_digit c = false

instance (c : Byte) : Decidable (Plain c) := inferInstanceAs (Decidable (_ ∧ _))

theorem plain_of_delimiter : ∀ c : Byte, char_is_reserved_general_delimiter c = true → Plain c := by decide +kernel

section

variable {ok : Byte → Bool}

theorem chars_are_cons {c : Byte} (h : c ≠ percent) (s : List Byte) : chars_are ok (c :: s) = (ok c && chars_are ok s) := by
  rcases s with _ | ⟨a, _ | ⟨b, rest⟩⟩ <;> simp [chars_are, h]

theorem chars_are_append {a : List Byte} (h : chars_are ok a = true) (b : List Byte) :
    chars_are ok (a ++ b) = chars_are ok b := by
  fun_induction chars_are ok a with
  | case1 => rfl
  | case2 x y rest ih =>
    simp only [Bool.and_eq_true] at h
    simp only [List.cons_append, chars_are, if_true, h.1.1, h.1.2, Bool.true_and]
    exact ih h.2
  | case3 => simp at h
  | case4 c s hc ih =>
    rw [Bool.and_eq_true] at h
    rw [List.cons_append, chars_are_cons hc, h.1, ih h.2, Bool.true_and]

theorem chars_are_split {a b : List Byte} {c : Byte} (hc : Plain c) (h : chars_are ok (a ++ c :: b) = true) :
    chars_are ok a = true ∧ ok c = true ∧ chars_are ok b = true := by
  fun_induction chars_are ok a with
  | case1 =>
    rw [nil_append, chars_are_cons hc.1, Bool.and_eq_true] at h
    exact ⟨rfl, h⟩
  | case2 x y rest ih =>
    simp only [List.cons_append, chars_are, if_true, Bool.and_eq_true] at h
    obtain ⟨ha, hok, hb⟩ := ih h.2
    exact ⟨by simp [h.1, ha], hok, hb⟩
  | case3 s hshort =>
    exfalso
    match s with
    | [] =>
      cases b with
      | nil => simp [chars_are] at h
      | cons y b => simp [chars_are, hc.2] at h
    | [y] => simp [chars_are, hc.2] at h
    | y :: z :: rest => exact hshort y z rest rfl
  | case4 x s hx ih =>
    rw [List.cons_append, chars_are_cons hx, Bool.and_eq_true] at h
    obtain ⟨ha, hok, hb⟩ := ih h.2
    exact ⟨by rw [h.1, ha]; rfl, hok, hb⟩

theorem chars_are_not_mem {s : List Byte} (h : chars_are ok s = true) {c : Byte} (hc : Plain c) (hok : ok c = false) :
    c ∉ s := by
  intro hmem
  obtain ⟨a, b, rfl⟩ := append_of_mem hmem
  obtain ⟨-, htrue, -⟩ := chars_are_split hc h
  rw [hok] at htrue
  simp at htrue

end

variable {s : List Byte}

theorem span_first {c : Byte} (h : c ∈ s) :
    s = s.takeWhile (· ≠ c) ++ c :: (s.dropWhile (· ≠ c)).tail ∧ c ∉ s.takeWhile (· ≠ c) := by
  constructor
  · have hne : s.dropWhile (· ≠ c) ≠ [] := by
      intro hnil
      rw [dropWhile_eq_nil_iff] at hnil
      simpa using hnil c h
    obtain ⟨d, rest, hrest⟩ := exists_cons_of_ne_nil hne
    have hd : d = c := by
      have hhead := head?_dropWhile_not (· ≠ c) s
      rw [hrest] at hhead
      simpa using hhead
    conv_lhs => rw [← takeWhile_append_dropWhile (p := (· ≠ c)) (l := s), hrest]
    rw [hrest, hd, tail_cons]
  intro hmem
  simpa using mem_takeWhile_imp hmem

theorem takeWhile_first {a : List Byte} {c : Byte} (h : c ∉ a) (b : List Byte) :
    (a ++ c :: b).takeWhile (· ≠ c) = a ∧ (a ++ c :: b).dropWhile (· ≠ c) = c :: b := by
  have hall : ∀ x ∈ a, (decide (x ≠ c)) = true := by
    intro x hx
    rw [decide_eq_true_eq]
    rintro rfl
    exact h hx
  constructor
  · rw [takeWhile_append_of_pos hall]
    simp
  rw [dropWhile_append_of_pos hall]
  simp

variable {scheme : List Byte}

theorem colon_not_mem_scheme (h : chars_are_scheme scheme = true) : colon ∉ scheme := by
  cases scheme with
  | nil => simp
  | cons c scheme =>
    rw [chars_are_scheme, Bool.and_eq_true, List.all_eq_true] at h
    intro hmem
    have hcolon := h.2 colon hmem
    simp [char_is_scheme, colon, is_alnum, is_alpha, is_digit] at hcolon

theorem mask_scheme_text (h : chars_are_scheme scheme = true) (rest : List Byte) :
    mask_scheme (scheme ++ colon :: rest) = (scheme, rest) := by
  obtain ⟨htake, hdrop⟩ := takeWhile_first (colon_not_mem_scheme h) rest
  rw [mask_scheme, htake, hdrop, if_pos ⟨by simp, h⟩]
  rfl

theorem mask_scheme_cases (s : List Byte) : mask_scheme s = ([], s) ∨
      ∃ scheme rest, mask_scheme s = (scheme, rest) ∧ s = scheme ++ colon :: rest ∧ chars_are_scheme scheme = true := by
  rw [mask_scheme]
  split
  · rename_i h
    exact .inr ⟨_, _, rfl, (span_first h.1).1, h.2⟩
  · exact .inl rfl

theorem scheme_ne_nil (h : chars_are_scheme scheme = true) : scheme ≠ [] := by
  rintro rfl
  simp [chars_are_scheme] at h

theorem mask_scheme_none {c : Byte} (h : is_alpha c = false) (s : List Byte) : mask_scheme (c :: s) = ([], c :: s) := by
  obtain hnone | ⟨scheme, rest, -, hs, hscheme⟩ := mask_scheme_cases (c :: s)
  · exact hnone
  obtain ⟨first, more, rfl⟩ := exists_cons_of_ne_nil (scheme_ne_nil hscheme)
  rw [List.cons_append, List.cons.injEq] at hs
  rw [chars_are_scheme, ← hs.1, h] at hscheme
  simp at hscheme

theorem at_not_mem_user {user : List Byte} (h : chars_are_user user = true) : at_sign ∉ user := by
  rw [chars_are_user, Bool.and_eq_true] at h
  exact chars_are_not_mem h.2 (by decide) (by decide)

theorem mask_user_text {user : List Byte} (h : chars_are_user user = true) (rest : List Byte) :
    mask_user (user ++ at_sign :: rest) = some (user, rest) := by
  obtain ⟨htake, hdrop⟩ := takeWhile_first (at_not_mem_user h) rest
  rw [mask_user, htake, hdrop, if_pos (by simp), if_pos h]
  rfl

theorem mask_user_none (h : at_sign ∉ s) : mask_user s = some ([], s) := by
  rw [mask_user, if_neg h]

variable {rest s : List Byte}

theorem mask_user_cases {user : List Byte} (h : mask_user s = some (user, rest)) :
    (at_sign ∉ s ∧ user = [] ∧ rest = s) ∨ (s = user ++ at_sign :: rest ∧ chars_are_user user = true) := by
  rw [mask_user] at h
  split_ifs at h with hmem huser
  · rw [some.injEq, Prod.mk.injEq] at h
    rw [← h.1, ← h.2]
    exact .inr ⟨(span_first hmem).1, huser⟩
  rw [some.injEq, Prod.mk.injEq] at h
  exact .inl ⟨hmem, h.1.symm, h.2.symm⟩

/-- What may be behind a host. -/
def EndsHost (s : List Byte) : Prop := ∀ c ∈ s.head?, c = colon ∨ c = slash ∨ c = question ∨ c = hash

theorem EndsHost.delimiter (h : EndsHost s) :
    ∀ c ∈ s.head?, char_is_reserved_general_delimiter c = true ∧ c ≠ open_bracket ∧ c ≠ letter_v := by
  intro c hc
  obtain rfl | rfl | rfl | rfl := h c hc <;> decide

theorem mask_ip_future_eq_none (s : List Byte) : mask_ip_future s = none := by
  match s with
  | [] => rfl
  | [_] => rfl
  | [_, _] => rfl
  | [v, digit, point] =>
    simp only [mask_ip_future, length_cons, length_nil]
    split_ifs with hlong hpoint hfuture
    · rfl
    · rw [hpoint.2] at hfuture
      simp [chars_are_ip_future, dot, char_is_user, char_is_unreserved] at hfuture
    · rfl
    · rfl
  | v :: digit :: point :: c :: rest => simp [mask_ip_future]

section

variable {inet_pton : Family → List Byte → Bool}

theorem takeWhile_delimiter {host : List Byte} (h : ∀ c ∈ host, char_is_reserved_general_delimiter c = false)
    {rest : List Byte} (hrest : ∀ c ∈ rest.head?, char_is_reserved_general_delimiter c = true) :
    (host ++ rest).takeWhile (fun c => !char_is_reserved_general_delimiter c) = host ∧
      (host ++ rest).dropWhile (fun c => !char_is_reserved_general_delimiter c) = rest := by
  have hall : ∀ c ∈ host, (!char_is_reserved_general_delimiter c) = true := fun c hc => by rw [h c hc]; rfl
  rw [takeWhile_append_of_pos hall, dropWhile_append_of_pos hall]
  cases rest with
  | nil => simp
  | cons c rest => simp [hrest c rfl]

theorem mask_host_empty {s : List Byte} (h : EndsHost s) : mask_host inet_pton s = some ([], s) := by
  cases s with
  | nil => rfl
  | cons c s =>
    obtain ⟨hdelimiter, hbracket, hletter⟩ := h.delimiter c rfl
    simp [mask_host, hbracket, hletter, hdelimiter, chars_are_reg_name, chars_are]

theorem mask_host_literal {a : List Byte} (ha : close_bracket ∉ open_bracket :: a)
    (hliteral : chars_are_ip_literal inet_pton (open_bracket :: a ++ [close_bracket]) = true) (rest : List Byte) :
    mask_host inet_pton (open_bracket :: a ++ [close_bracket] ++ rest) =
      some (open_bracket :: a ++ [close_bracket], rest) := by
  obtain ⟨htake, hdrop⟩ := takeWhile_first ha rest
  have hsplit : open_bracket :: a ++ [close_bracket] ++ rest = open_bracket :: a ++ close_bracket :: rest := by simp
  rw [hsplit]
  simp only [List.cons_append] at htake hdrop hliteral ⊢
  rw [mask_host, if_pos rfl, if_pos (by simp), htake, hdrop]
  simp [hliteral]

theorem mask_host_name {c : Byte} {host rest : List Byte} (hbracket : c ≠ open_bracket) (hletter : c ≠ letter_v)
    (hhost : ∀ x ∈ c :: host, char_is_reserved_general_delimiter x = false)
    (hname : (chars_are_ip inet_pton .inet (c :: host) || chars_are_reg_name (c :: host)) = true)
    (hrest : ∀ x ∈ rest.head?, char_is_reserved_general_delimiter x = true) :
    mask_host inet_pton (c :: host ++ rest) = some (c :: host, rest) := by
  obtain ⟨htake, hdrop⟩ := takeWhile_delimiter hhost hrest
  simp only [List.cons_append] at htake hdrop ⊢
  rw [mask_host, if_neg hbracket, if_neg hletter, htake, hdrop]
  simp only [hname, if_true]

theorem mask_host_cases {s host rest : List Byte} (h : mask_host inet_pton s = some (host, rest)) :
    s = host ++ rest ∧ (host = [] ∨ chars_are_host inet_pton host = true) ∧
      (∀ ok, chars_are ok s = true → chars_are ok host = true ∧ chars_are ok rest = true) ∧
      ∀ other, EndsHost other → mask_host inet_pton (host ++ other) = some (host, other) := by
  cases s with
  | nil =>
    rw [mask_host, some.injEq, Prod.mk.injEq] at h
    obtain ⟨rfl, rfl⟩ := h
    exact ⟨rfl, .inl rfl, fun ok hok => ⟨hok, hok⟩, fun other hother => mask_host_empty hother⟩
  | cons c s =>
    rw [mask_host] at h
    by_cases hbracket : c = open_bracket
    · rw [if_pos hbracket] at h
      simp only [ite_none_right_eq_some, some.injEq, Prod.mk.injEq] at h
      obtain ⟨hmem, hliteral, rfl, rfl⟩ := h
      obtain ⟨hsplit, hfirst⟩ := span_first hmem
      have hhead : (c :: s).takeWhile (· ≠ close_bracket) = open_bracket :: s.takeWhile (· ≠ close_bracket) := by
        rw [hbracket]
        rfl
      rw [hhead] at hsplit hfirst hliteral ⊢
      refine ⟨?_, .inr ?_, fun ok hok => ?_, fun other hother => mask_host_literal hfirst hliteral other⟩
      · rw [append_assoc]
        exact hsplit
      · rw [chars_are_host, hliteral]
        simp
      rw [hsplit] at hok
      obtain ⟨ha, hclose, hb⟩ := chars_are_split (by decide) hok
      refine ⟨?_, hb⟩
      rw [chars_are_append ha, chars_are_cons (by decide), hclose]
      rfl
    rw [if_neg hbracket] at h
    by_cases hletter : c = letter_v
    · rw [if_pos hletter, mask_ip_future_eq_none] at h
      simp at h
    rw [if_neg hletter] at h
    simp only [ite_none_right_eq_some, some.injEq, Prod.mk.injEq] at h
    obtain ⟨hname, hhost, hrest⟩ := h
    have hsplit : c :: s = host ++ rest := by rw [← hhost, ← hrest, takeWhile_append_dropWhile]
    have hnone : ∀ x ∈ host, char_is_reserved_general_delimiter x = false := by
      intro x hx
      rw [← hhost] at hx
      simpa using mem_takeWhile_imp hx
    have hnext : ∀ x ∈ rest.head?, char_is_reserved_general_delimiter x = true := by
      intro x hx
      have hhead := head?_dropWhile_not (fun c => !char_is_reserved_general_delimiter c) (c :: s)
      rw [hrest] at hhead
      rw [mem_def.mp hx] at hhead
      simpa using hhead
    rw [hhost] at hname
    refine ⟨hsplit, ?_, fun ok hok => ?_, fun other hother => ?_⟩
    · by_cases hnil : host = []
      · exact .inl hnil
      right
      rw [Bool.or_eq_true] at hname
      rw [chars_are_host, Bool.and_eq_true, Bool.or_eq_true, Bool.or_eq_true]
      exact ⟨by simpa using hnil, hname.elim (fun h => .inl (.inr h)) .inr⟩
    · rw [hsplit] at hok
      cases rest with
      | nil =>
        rw [List.append_nil] at hok
        exact ⟨hok, rfl⟩
      | cons x rest =>
        have hplain := plain_of_delimiter x (hnext x rfl)
        obtain ⟨ha, hx, hb⟩ := chars_are_split hplain hok
        exact ⟨ha, by rw [chars_are_cons hplain.1, hx, hb]; rfl⟩
    cases host with
    | nil => exact mask_host_empty hother
    | cons x host =>
      rw [List.cons_append, List.cons.injEq] at hsplit
      rw [hsplit.1] at hbracket hletter
      exact mask_host_name hbracket hletter hnone hname fun y hy => (hother.delimiter y hy).1

end

theorem sign_suffix (s : List Byte) : (sign s).2 <:+ s := by
  cases s with
  | nil => exact suffix_rfl
  | cons c s =>
    rw [sign]
    split_ifs
    · exact suffix_cons c s
    · exact suffix_cons c s
    · exact suffix_rfl

theorem strtol_suffix {n : Int} (h : strtol s = some (n, rest)) : rest <:+ s := by
  simp only [strtol, ite_none_left_eq_some, some.injEq, Prod.mk.injEq] at h
  rw [← h.2.2]
  exact ((dropWhile_suffix _).trans (sign_suffix _)).trans (dropWhile_suffix _)

theorem mask_port_cases {port : Option Nat} (h : mask_port s = some (port, rest)) :
    rest <:+ s ∧ port.getD 0 ≤ 65535 := by
  cases s with
  | nil =>
    rw [mask_port, some.injEq, Prod.mk.injEq] at h
    rw [← h.1, ← h.2]
    exact ⟨suffix_rfl, Nat.zero_le _⟩
  | cons c s =>
    rw [mask_port] at h
    simp only at h
    split_ifs at h with hcolon hrest hnumber
    · rw [some.injEq, Prod.mk.injEq] at h
      rw [← h.1, ← h.2]
      exact ⟨suffix_rfl, Nat.zero_le _⟩
    rw [some.injEq, Prod.mk.injEq] at h
    obtain ⟨rfl, rfl⟩ := h
    constructor
    · cases hread : strtol s with
      | none => exact suffix_cons c s
      | some result => exact (strtol_suffix hread).trans (suffix_cons c s)
    rw [getD_some]
    omega

theorem mask_port_none (h : ∀ c ∈ s.head?, c ≠ colon) : mask_port s = some (none, s) := by
  cases s with
  | nil => rfl
  | cons c s => rw [mask_port, if_pos (h c rfl)]

theorem mask_port_text {digits : List Byte} (hdigits : IsNumber digits)
    (hsmall : cstring.value digits ≤ 65535) (hrest : ∀ c ∈ rest.head?, is_digit c = false) :
    mask_port (colon :: (digits ++ rest)) = some (some (cstring.value digits), rest) := by
  have hclamp : clamp (cstring.value digits) = cstring.value digits := by
    rw [clamp]
    omega
  rw [mask_port, if_neg (by simp), if_neg (by simp [hdigits.1]), strtol_digits hdigits hrest, hclamp]
  simp only [getD_some]
  rw [if_neg (by omega), Int.toNat_natCast]

/-- What may be behind an authority. -/
def EndsAuthority (s : List Byte) : Prop := ∀ c ∈ s.head?, c = slash ∨ c = question ∨ c = hash

theorem EndsAuthority.endsHost (h : EndsAuthority s) : EndsHost s := fun c hc => .inr (h c hc)

theorem EndsAuthority.not_digit (h : EndsAuthority s) : ∀ c ∈ s.head?, is_digit c = false := by
  intro c hc
  obtain rfl | rfl | rfl := h c hc <;> decide

theorem EndsAuthority.ne_colon (h : EndsAuthority s) : ∀ c ∈ s.head?, c ≠ colon := by
  intro c hc
  obtain rfl | rfl | rfl := h c hc <;> decide

theorem check_path_absolute_cases {u u' : Uri} {next : List Byte} (h : check_path_absolute u s = (u', some next)) :
    ∃ rest, s = slash :: rest ∧ rest.head? ≠ some slash ∧ check_path rest true = some next ∧
      u' = { u with path := some (before s next) } := by
  cases s with
  | nil => simp [check_path_absolute] at h
  | cons c rest =>
    rw [check_path_absolute] at h
    split_ifs at h with hslash
    · simp at h
    rw [not_or, not_not] at hslash
    cases hcheck : check_path rest true with
    | none => simp [hcheck, set_path] at h
    | some found =>
      rw [hcheck, set_path, Prod.mk.injEq, some.injEq] at h
      obtain ⟨rfl, rfl⟩ := h
      exact ⟨rest, by rw [hslash.1], hslash.2, hcheck, rfl⟩

theorem path_behind_ends {u u' : Uri} {next : List Byte} (h : path_behind u s = (u', some next)) : EndsAuthority s := by
  cases s with
  | nil =>
    intro c hc
    simp at hc
  | cons c s =>
    intro d hd
    rw [head?_cons, mem_some_iff] at hd
    rw [← hd]
    rw [path_behind] at h
    split_ifs at h with hcase
    · exact .inr hcase
    obtain ⟨rest, hrest, -⟩ := check_path_absolute_cases h
    rw [List.cons.injEq] at hrest
    exact .inl hrest.1

/-- A part of an identifier, unless it is empty. -/
def part (s : List Byte) : Option (List Byte) := if s = [] then none else some s

theorem part_of_ne (h : s ≠ []) : part s = some s := if_neg h

theorem set_user_part {u : Uri} (h : u.user = none) (user : List Byte) :
    (if user = [] then u else { u with user := some user }) = { u with user := part user } := by
  by_cases hnil : user = []
  · rw [if_pos hnil, hnil]
    change u = { u with user := none }
    rw [← h]
  · rw [if_neg hnil, part_of_ne hnil]

theorem set_host_part {u : Uri} (h : u.host = none) (host : List Byte) :
    (if host = [] then u else { u with host := some host }) = { u with host := part host } := by
  by_cases hnil : host = []
  · rw [if_pos hnil, hnil]
    change u = { u with host := none }
    rw [← h]
  · rw [if_neg hnil, part_of_ne hnil]

section

variable (inet_pton : Family → List Byte → Bool)

/-- A text that is an authority with a user, a host and a port, and what is behind it. -/
structure Authority (s user host : List Byte) (port : Option Nat) (rest : List Byte) : Prop where
  user_found : ∃ behind, mask_user s = some (user, behind) ∧
    ∃ after, mask_host inet_pton behind = some (host, after) ∧ mask_port after = some (port, rest)

variable {inet_pton}

variable {port : Option Nat} {s user host rest : List Byte}

theorem Authority.eq (h : Authority inet_pton s user host port rest)
    {u : Uri} (huser : u.user = none) (hhost : u.host = none) (hport : u.port = 0) :
    authority inet_pton u s =
      path_behind { u with user := part user, host := part host, port := port.getD 0 } rest := by
  obtain ⟨behind, hfound, after, hfound', hfound''⟩ := h.user_found
  simp only [authority, hfound, hfound', hfound'', set_user_part huser]
  rw [set_host_part (u := { u with user := part user }) hhost, hport]

theorem authority_cases {u u' : Uri} {s next : List Byte} (h : authority inet_pton u s = (u', some next)) :
    ∃ user host port rest, Authority inet_pton s user host port rest := by
  rw [authority] at h
  cases huser : mask_user s with
  | none => simp [huser] at h
  | some found =>
    obtain ⟨user, behind⟩ := found
    simp only [huser] at h
    cases hhost : mask_host inet_pton behind with
    | none => simp [hhost] at h
    | some found =>
      obtain ⟨host, after⟩ := found
      simp only [hhost] at h
      cases hport : mask_port after with
      | none => simp [hport] at h
      | some found => exact ⟨user, host, found.1, found.2, behind, huser, after, hhost, hport⟩

/-- A port as it is written. -/
def port_text (port : Nat) : List Byte := if port ≠ 0 then colon :: decimal port else []

theorem at_not_mem_port_text (port : Nat) : at_sign ∉ port_text port := by
  rw [port_text]
  split_ifs
  · rw [mem_cons, not_or]
    refine ⟨by decide, fun hmem => ?_⟩
    have hdigit := (isNumber_decimal port).2 at_sign hmem
    simp [is_digit, at_sign] at hdigit
  · simp

variable {rest : List Byte}

theorem port_text_ends (hrest : EndsAuthority rest) (port : Nat) :
    EndsHost (port_text port ++ rest) := by
  rw [port_text]
  split_ifs
  · intro c hc
    rw [List.cons_append, head?_cons, mem_some_iff] at hc
    exact .inl hc.symm
  · exact hrest.endsHost

theorem mask_port_port_text (hrest : EndsAuthority rest) {port : Nat} (hsmall : port ≤ 65535) :
    ∃ found, mask_port (port_text port ++ rest) = some (found, rest) ∧ found.getD 0 = port := by
  rw [port_text]
  split_ifs with hzero
  · have hread := mask_port_text (isNumber_decimal port) (by rw [value_decimal]; exact hsmall)
      hrest.not_digit
    rw [value_decimal] at hread
    exact ⟨some port, hread, rfl⟩
  rw [not_not] at hzero
  exact ⟨none, mask_port_none hrest.ne_colon, hzero.symm⟩

/-- A user as it is written. -/
def user_text (user : List Byte) : List Byte := ((part user).map (· ++ [at_sign])).getD []

theorem mask_user_user_text {user : List Byte} (h : (user = [] ∧ at_sign ∉ rest) ∨ chars_are_user user = true) :
    mask_user (user_text user ++ rest) = some (user, rest) := by
  obtain ⟨rfl, hnone⟩ | huser := h
  · exact mask_user_none hnone
  have hne : user ≠ [] := by
    rintro rfl
    simp [chars_are_user] at huser
  rw [user_text, part_of_ne hne, map_some, getD_some, append_assoc]
  exact mask_user_text huser rest

theorem Authority.text (h : Authority inet_pton s user host port rest) (hrest : EndsAuthority rest) :
    ∃ found, found.getD 0 = port.getD 0 ∧
      Authority inet_pton (user_text user ++ (host ++ (port_text (port.getD 0) ++ rest))) user host found rest := by
  obtain ⟨behind, huser, after, hhost, hport⟩ := h.user_found
  obtain ⟨hafter, hsmall⟩ := mask_port_cases hport
  obtain ⟨hbehind, -, -, hagain⟩ := mask_host_cases hhost
  obtain ⟨found, hfound, hvalue⟩ := mask_port_port_text hrest hsmall
  refine ⟨found, hvalue, _, mask_user_user_text ?_, _, hagain _ (port_text_ends hrest _), hfound⟩
  obtain ⟨hnone, rfl, rfl⟩ | ⟨-, hchars⟩ := mask_user_cases huser
  · left
    rw [hbehind, mem_append, not_or] at hnone
    have hrest' : at_sign ∉ rest := fun hmem => hnone.2 (hafter.mem hmem)
    simp [hnone.1, at_not_mem_port_text, hrest']
  · exact .inr hchars

/-- What is allowed in identifiers. -/
def char_is_allowed (c : Byte) : Bool := char_is_reserved c || char_is_unreserved c

theorem digit_is_allowed : ∀ c : Byte, is_digit c = true → char_is_allowed c = true ∧ c ≠ percent := by
  decide +kernel

theorem port_text_is_allowed (port : Nat) : chars_are char_is_allowed (port_text port) = true := by
  rw [port_text]
  split_ifs
  · rw [chars_are_cons (by decide)]
    have hdigits : ∀ digits : List Byte, (∀ c ∈ digits, is_digit c = true) →
        chars_are char_is_allowed digits = true := by
      intro digits hdigits
      induction digits with
      | nil => rfl
      | cons c digits ih =>
        obtain ⟨hallowed, hne⟩ := digit_is_allowed c (hdigits c mem_cons_self)
        rw [chars_are_cons hne, hallowed, ih fun d hd => hdigits d (mem_cons_of_mem _ hd)]
        rfl
    rw [hdigits _ (isNumber_decimal port).2]
    decide
  · rfl

theorem chars_are_suffix {ok : Byte → Bool} {s : List Byte} (h : chars_are ok s = true) (hrest : rest <:+ s)
    (hhead : ∀ c ∈ rest.head?, Plain c) : chars_are ok rest = true := by
  obtain ⟨k, rfl⟩ := hrest
  cases rest with
  | nil => rfl
  | cons c rest =>
    obtain ⟨-, hc, hok⟩ := chars_are_split (hhead c rfl) h
    rw [chars_are_cons (hhead c rfl).1, hc, hok]
    rfl

theorem EndsAuthority.plain {s : List Byte} (h : EndsAuthority s) : ∀ c ∈ s.head?, Plain c := by
  intro c hc
  obtain rfl | rfl | rfl := h c hc <;> decide

theorem Authority.allowed (h : Authority inet_pton s user host port rest) (hrest : EndsAuthority rest)
    (hs : chars_are char_is_allowed s = true) :
    chars_are char_is_allowed (user_text user ++ (host ++ (port_text (port.getD 0) ++ rest))) = true ∧
      chars_are char_is_allowed rest = true := by
  obtain ⟨behind, huser, after, hhost, hport⟩ := h.user_found
  obtain ⟨-, -, hparts, -⟩ := mask_host_cases hhost
  have hfirst : chars_are char_is_allowed (user_text user) = true ∧ chars_are char_is_allowed behind = true := by
    obtain ⟨-, rfl, rfl⟩ | ⟨rfl, hchars⟩ := mask_user_cases huser
    · exact ⟨rfl, hs⟩
    obtain ⟨hall, hat, hbehind⟩ := chars_are_split (by decide) hs
    refine ⟨?_, hbehind⟩
    have hne : user ≠ [] := by
      rintro rfl
      simp [chars_are_user] at hchars
    rw [user_text, part_of_ne hne, map_some, getD_some, chars_are_append hall, chars_are_cons (by decide), hat]
    rfl
  obtain ⟨hhost', hafter⟩ := hparts _ hfirst.2
  have hlast := chars_are_suffix hafter (mask_port_cases hport).1 hrest.plain
  refine ⟨?_, hlast⟩
  rw [chars_are_append hfirst.1, chars_are_append hhost', chars_are_append (port_text_is_allowed _), hlast]

end

section

variable {d : Byte} {colons : Bool}

theorem check_cons {segment : List Byte} (h : d ∉ segment) (rest : List Byte) :
    check_with_delimiter (segment ++ d :: rest) d colons =
      if chars_are_path_chars segment colons then check_with_delimiter rest d true else none := by
  rw [check_with_delimiter, splitOn_append_cons_self_of_not_mem h, check_with_delimiter]
  obtain ⟨first, more, hmore⟩ := exists_cons_of_ne_nil (splitOn_ne_nil d rest)
  rw [hmore, check_segments]
  simp

theorem check_last {s : List Byte} (h : d ∉ s) : check_with_delimiter s d colons =
      if s.takeWhile (fun c => !is_major_delimiter c) = [] ∨
          chars_are_path_chars (s.takeWhile fun c => !is_major_delimiter c) true then
        some (s.dropWhile fun c => !is_major_delimiter c)
      else none := by
  rw [check_with_delimiter, splitOn_eq_singleton h, check_segments]

theorem check_consumed {s next : List Byte} (h : check_with_delimiter s d colons = some next) :
    ∃ a, s = a ++ next ∧ check_with_delimiter a d colons = some [] ∧
      ∀ c ∈ next.head?, is_major_delimiter c = true := by
  induction hn : s.length using Nat.strongRecOn generalizing s colons with
  | ind n ih =>
    by_cases hmem : d ∈ s
    · obtain ⟨hs, hfirst⟩ := span_first hmem
      generalize s.takeWhile (· ≠ d) = segment at hs hfirst
      generalize (s.dropWhile (· ≠ d)).tail = rest at hs
      rw [hs, check_cons hfirst, ite_none_right_eq_some] at h
      rw [hs, length_append, length_cons] at hn
      obtain ⟨a, ha, hcheck, hnext⟩ := ih rest.length (by omega) h.2 rfl
      refine ⟨segment ++ d :: a, ?_, ?_, hnext⟩
      · rw [hs, ha]
        simp
      rw [check_cons hfirst, if_pos h.1]
      exact hcheck
    rw [check_last hmem, ite_none_right_eq_some, some.injEq] at h
    obtain ⟨hitem, rfl⟩ := h
    refine ⟨s.takeWhile fun c => !is_major_delimiter c, takeWhile_append_dropWhile.symm, ?_, ?_⟩
    · have hnone : d ∉ s.takeWhile fun c => !is_major_delimiter c :=
        fun hd => hmem ((takeWhile_sublist _).mem hd)
      have hmajor : ∀ c ∈ s.takeWhile (fun c => !is_major_delimiter c), (!is_major_delimiter c) = true := by
        intro c hc
        simpa using mem_takeWhile_imp hc
      have hall : (s.takeWhile fun c => !is_major_delimiter c).takeWhile (fun c => !is_major_delimiter c) =
          s.takeWhile fun c => !is_major_delimiter c := by
        rw [takeWhile_eq_self_iff]
        exact hmajor
      have hdrop : (s.takeWhile fun c => !is_major_delimiter c).dropWhile (fun c => !is_major_delimiter c) = [] := by
        rw [dropWhile_eq_nil_iff]
        exact hmajor
      rw [check_last hnone, hall, hdrop, if_pos hitem]
    intro c hc
    have hhead := head?_dropWhile_not (fun c => !is_major_delimiter c) s
    rw [mem_def.mp hc] at hhead
    simpa using hhead

end

theorem before_append (a next : List Byte) : before (a ++ next) next = a := by
  rw [before, length_append, Nat.add_sub_cancel, take_left]

end openvocs.uri
