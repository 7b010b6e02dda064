import Openvocs.Uri.Parts

namespace openvocs.uri

open cstring

/-- All that is written for an identifier. -/
def text (u : Uri) : List Byte := (parts u).flatMap (·.getD [])

theorem write_parts_fit {length : Nat} {ps : List (Option (List Byte))} (hps : ∀ p ∈ ps, p ≠ some []) {out : Output}
    (hcount : out.count = out.text.length)
    (hfit : out.text.length + (ps.flatMap (·.getD [])).length < length) :
    ∃ count, write_parts length ps out = some ⟨out.text ++ ps.flatMap (·.getD []), count⟩ := by
  induction ps generalizing out with
  | nil => exact ⟨out.count, by simp [write_parts]⟩
  | cons p ps ih =>
    have hmore : ∀ p ∈ ps, p ≠ some [] := fun q hq => hps q (List.mem_cons_of_mem _ hq)
    rw [List.flatMap_cons, List.length_append] at hfit
    cases p with
    | none =>
      rw [Option.getD_none, List.length_nil] at hfit
      exact ih hmore hcount (by omega)
    | some s =>
      rw [Option.getD_some] at hfit
      have hne : s ≠ [] := by
        rintro rfl
        exact hps (some []) List.mem_cons_self rfl
      have hroom : s.take (room length out.count - 1) = s := by
        apply List.take_of_length_le
        rw [room, if_pos (by omega)]
        omega
      have hwrite : write_part length (some s) out = some ⟨out.text ++ s, out.count + s.length⟩ := by
        rw [write_part, snprintf, if_neg hne, hroom]
      obtain ⟨count, hcount'⟩ := @ih hmore ⟨out.text ++ s, out.count + s.length⟩
        (by simp only [List.length_append, hcount]) (by simp only [List.length_append]; omega)
      refine ⟨count, ?_⟩
      rw [write_parts, hwrite, Option.bind_some, hcount', List.flatMap_cons, Option.getD_some, List.append_assoc]

section

variable (inet_pton : Family → List Byte → Bool)

/-- An identifier whose parts are all as they should be. -/
structure Valid (u : Uri) : Prop where
  scheme : u.scheme.all chars_are_scheme = true
  user : u.user.all chars_are_user = true
  host : u.host.all (chars_are_host inet_pton) = true
  port : u.port ≤ 65535
  path : u.path ≠ some []
  query : part_is_valid question u.query = true
  fragment : part_is_valid hash u.fragment = true

variable {inet_pton}

theorem part_ne_nil {c : Byte} {p : Option (List Byte)} (h : part_is_valid c p = true) : p ≠ some [] := by
  rintro rfl
  simp [part_is_valid] at h

theorem port_text_length {port : Nat} (h : port ≤ 65535) : (port_text port).length ≤ if port ≠ 0 then 6 else 0 := by
  rw [port_text]
  split_ifs
  · rw [List.length_cons]
    have hdigits := @length_decimal_le port 5 (by omega) (by omega)
    omega
  · exact Nat.le_refl 0

theorem getD_length (p : Option (List Byte)) : (p.getD []).length = part_length p 0 := by
  cases p <;> simp [part_length]

theorem map_length (p : Option (List Byte)) (c : Byte) : part_length (p.map (· ++ [c])) 0 = part_length p 1 := by
  cases p <;> simp [part_length]

theorem text_eq (u : Uri) : text u = (u.scheme.map (· ++ [colon])).getD [] ++
    ((if u.user ≠ none ∨ u.host ≠ none ∨ 0 < u.port then some [slash, slash] else none).getD [] ++
      ((u.user.map (· ++ [at_sign])).getD [] ++ (u.host.getD [] ++ (port_text u.port ++
        (u.path.getD [] ++ (u.query.getD [] ++ u.fragment.getD [])))))) := by
  have hport : (if u.port ≠ 0 then some (colon :: decimal u.port) else none).getD [] = port_text u.port := by
    rw [port_text]
    split_ifs <;> rfl
  simp only [text, parts, List.flatMap_cons, List.flatMap_nil, List.append_nil, hport]

variable {u : Uri}

theorem Valid.string_length (h : Valid inet_pton u) : (text u).length < ov_uri_string_length inet_pton u := by
  have hport := port_text_length h.port
  have hslashes : ((if u.user ≠ none ∨ u.host ≠ none ∨ 0 < u.port then some [slash, slash] else none).getD []).length =
      if u.host ≠ none ∨ u.user ≠ none ∨ u.port ≠ 0 then 2 else 0 := by
    by_cases huser : u.user = none <;> by_cases hhost : u.host = none <;> by_cases hzero : u.port = 0 <;>
      simp [huser, hhost, hzero, Nat.pos_iff_ne_zero]
  rw [ov_uri_string_length, if_pos (by simp [h.scheme, h.user, h.host, h.query, h.fragment]), text_eq]
  simp only [List.length_append, hslashes, getD_length, map_length]
  omega

theorem Valid.to_string (h : Valid inet_pton u) : ov_uri_to_string inet_pton u = some (text u) := by
  have hlength := h.string_length
  have hparts : ∀ p ∈ parts u, p ≠ some [] := by
    have hscheme : ∀ (p : Option (List Byte)) (c : Byte), p.map (· ++ [c]) ≠ some [] := by
      intro p c
      cases p <;> simp
    have hhost : u.host ≠ some [] := by
      intro hnil
      have hvalid := h.host
      rw [hnil] at hvalid
      simp [chars_are_host] at hvalid
    simp only [parts, List.forall_mem_cons]
    refine ⟨hscheme _ _, ?_, hscheme _ _, hhost, ?_, h.path, part_ne_nil h.query, part_ne_nil h.fragment, by simp⟩
    · split_ifs <;> simp
    · split_ifs <;> simp
  obtain ⟨count, hwrite⟩ := @write_parts_fit (ov_uri_string_length inet_pton u) (parts u) hparts ⟨[], 0⟩ rfl
    (by simpa [text] using hlength)
  rw [ov_uri_to_string, if_neg (by omega), hwrite]
  rfl

variable {u u' : Uri}

theorem set_path_cases {s next : List Byte} {checked : Option (List Byte)}
    (h : set_path u s checked = (u', some next)) :
    checked = some next ∧ u' = { u with path := some (before s next) } := by
  cases checked with
  | none => simp [set_path] at h
  | some found =>
    rw [set_path, Prod.mk.injEq, Option.some.injEq] at h
    rw [← h.1, ← h.2]
    exact ⟨rfl, rfl⟩

theorem check_part {c d : Byte} {rest next : List Byte} (h : check_with_delimiter rest d true = some next) (hc : c = d) :
    ∃ p, c :: rest = p ++ next ∧ before (c :: rest) next = p ∧ part_is_valid d (some p) = true := by
  obtain ⟨a, rfl, hcheck, -⟩ := check_consumed h
  refine ⟨c :: a, rfl, before_append (c :: a) next, ?_⟩
  simp [part_is_valid, hc, hcheck]

theorem parse_query_cases {c : Byte} {rest next : List Byte} (hc : c = question)
    (h : parse_query u (c :: rest) = (u', some next)) :
    ∃ query, c :: rest = query ++ next ∧ u' = { u with query := some query } ∧
      part_is_valid question (some query) = true := by
  rw [parse_query, List.tail_cons] at h
  cases hcheck : check_with_delimiter rest question true with
  | none => simp [hcheck] at h
  | some found =>
    simp only [hcheck, Prod.mk.injEq, Option.some.injEq] at h
    obtain ⟨rfl, rfl⟩ := h
    obtain ⟨p, hp, hbefore, hvalid⟩ := check_part hcheck hc
    exact ⟨p, hp, by rw [hbefore], hvalid⟩

variable {s : List Byte}

theorem parse_fragment_end_cases (hu : u.fragment = none)
    (h : parse_fragment_end u s = some u') :
    ∃ fragment, s = fragment.getD [] ∧ u' = { u with fragment := fragment } ∧
      part_is_valid hash fragment = true := by
  cases s with
  | nil =>
    rw [parse_fragment_end, Option.some.injEq] at h
    refine ⟨none, rfl, ?_, rfl⟩
    rw [← h, ← hu]
  | cons c rest =>
    rw [parse_fragment_end] at h
    split_ifs at h with hc
    rw [not_not] at hc
    rw [parse_fragment, List.tail_cons] at h
    cases hcheck : check_with_delimiter rest hash true with
    | none => simp [hcheck, complete] at h
    | some found =>
      simp only [hcheck] at h
      obtain ⟨p, hp, hbefore, hvalid⟩ := check_part hcheck hc
      cases found with
      | nil =>
        rw [complete, Option.some.injEq] at h
        rw [List.append_nil] at hp
        exact ⟨some p, hp, by rw [← h, hbefore], hvalid⟩
      | cons d found => simp [complete] at h

theorem parse_reference_end_cases (hquery : u.query = none) (hfragment : u.fragment = none)
    (h : parse_reference_end u s = some u') :
    ∃ query fragment, s = query.getD [] ++ fragment.getD [] ∧
      u' = { u with query := query, fragment := fragment } ∧ part_is_valid question query = true ∧
      part_is_valid hash fragment = true := by
  rw [parse_reference_end] at h
  split_ifs at h with hhead
  · obtain ⟨rest, rfl⟩ := List.head?_eq_some_iff.mp hhead
    cases hparse : parse_query u (question :: rest) with
    | mk v next =>
      cases next with
      | none => simp [hparse] at h
      | some next =>
        simp only [hparse] at h
        obtain ⟨query, hs, rfl, hvalid⟩ := parse_query_cases rfl hparse
        obtain ⟨fragment, hnext, hu', hvalid'⟩ := parse_fragment_end_cases (u := { u with query := some query }) hfragment h
        exact ⟨some query, fragment, by rw [hs, hnext]; rfl, hu', hvalid, hvalid'⟩
  obtain ⟨fragment, hs, hu', hvalid⟩ := parse_fragment_end_cases hfragment h
  refine ⟨none, fragment, hs, ?_, rfl, hvalid⟩
  rw [hu', ← hquery]

theorem parse_absolute_end_cases (hquery : u.query = none)
    (h : parse_absolute_end u s = some u') :
    ∃ query, s = query.getD [] ∧ u' = { u with query := query } ∧ part_is_valid question query = true := by
  cases s with
  | nil =>
    rw [parse_absolute_end, Option.some.injEq] at h
    refine ⟨none, rfl, ?_, rfl⟩
    rw [← h, ← hquery]
  | cons c rest =>
    rw [parse_absolute_end] at h
    split_ifs at h with hc
    rw [not_not] at hc
    cases hparse : parse_query u (c :: rest) with
    | mk v next =>
      rw [hparse] at h
      cases next with
      | none => simp [complete] at h
      | some next =>
        cases next with
        | nil =>
          rw [complete, Option.some.injEq] at h
          obtain ⟨query, hs, hv, hvalid⟩ := parse_query_cases hc hparse
          rw [List.append_nil] at hs
          exact ⟨some query, hs, by rw [← h, hv], hvalid⟩
        | cons d next => simp [complete] at h

theorem set_path_check {s next : List Byte} {colons : Bool}
    (h : set_path u s (check_path s colons) = (u', some next)) :
    ∃ p, s = p ++ next ∧ u' = { u with path := some p } ∧ ∀ c ∈ next.head?, is_major_delimiter c = true := by
  obtain ⟨hcheck, rfl⟩ := set_path_cases h
  obtain ⟨p, rfl, -, hnext⟩ := check_consumed hcheck
  exact ⟨p, rfl, by rw [before_append], hnext⟩

theorem check_path_absolute_path {s next : List Byte} (h : check_path_absolute u s = (u', some next)) :
    ∃ p, s = slash :: p ++ next ∧ u' = { u with path := some (slash :: p) } := by
  obtain ⟨rest, rfl, -, hcheck, rfl⟩ := check_path_absolute_cases h
  obtain ⟨p, rfl, -, -⟩ := check_consumed hcheck
  refine ⟨p, rfl, ?_⟩
  rw [← List.cons_append, before_append]

theorem check_path_absolute_none {v : Uri} (h : check_path_absolute u s = (v, none)) : v = u := by
  cases s with
  | nil =>
    rw [check_path_absolute, Prod.mk.injEq] at h
    exact h.1.symm
  | cons c s =>
    rw [check_path_absolute] at h
    split_ifs at h
    · rw [Prod.mk.injEq] at h
      exact h.1.symm
    cases hpath : check_path s true with
    | none =>
      rw [hpath, set_path, Prod.mk.injEq] at h
      exact h.1.symm
    | some found => simp [hpath, set_path] at h

variable (inet_pton) in
/-- The user, the host and the port that were written, also before an error. -/
structure Written (u v : Uri) : Prop where
  scheme : v.scheme = u.scheme
  query : v.query = u.query
  fragment : v.fragment = u.fragment
  user : v.user.all chars_are_user = true
  host : v.host.all (chars_are_host inet_pton) = true
  port : v.port ≤ 65535
  path : v.path = u.path ∨ ∃ p, v.path = some (slash :: p)

theorem Written.trans {v w : Uri} (h : Written inet_pton u v) (h' : Written inet_pton v w) :
    Written inet_pton u w where
  scheme := h'.scheme.trans h.scheme
  query := h'.query.trans h.query
  fragment := h'.fragment.trans h.fragment
  user := h'.user
  host := h'.host
  port := h'.port
  path := by
    obtain hsame | hslash := h'.path
    · rw [hsame]
      exact h.path
    · exact .inr hslash

theorem check_path_absolute_written (h : Written inet_pton u u) (s : List Byte) :
    Written inet_pton u (check_path_absolute u s).1 := by
  cases hcheck : check_path_absolute u s with
  | mk v next =>
    cases next with
    | some next =>
      obtain ⟨p, -, rfl⟩ := check_path_absolute_path hcheck
      exact { h with path := .inr ⟨p, rfl⟩ }
    | none =>
      rw [check_path_absolute_none hcheck]
      exact h

theorem path_behind_written (h : Written inet_pton u u) (s : List Byte) :
    Written inet_pton u (path_behind u s).1 := by
  cases s with
  | nil => exact h
  | cons c s =>
    rw [path_behind]
    split_ifs
    · exact h
    · exact check_path_absolute_written h (c :: s)

theorem part_all {f : List Byte → Bool} (h : s = [] ∨ f s = true) : (part s).all f = true := by
  rw [part]
  split_ifs with hnil
  · rfl
  · exact h.resolve_left hnil

theorem authority_written (h : Written inet_pton u u) (huser : u.user = none) (hhost : u.host = none)
    (s : List Byte) : Written inet_pton u (authority inet_pton u s).1 := by
  rw [authority]
  cases hmask : mask_user s with
  | none => exact h
  | some found =>
    obtain ⟨user, behind⟩ := found
    have hvalid : (part user).all chars_are_user = true := by
      apply part_all
      obtain ⟨-, hnil, -⟩ | ⟨-, hchars⟩ := mask_user_cases hmask
      · exact .inl hnil
      · exact .inr hchars
    simp only [set_user_part huser]
    have h1 : Written inet_pton u { u with user := part user } := { h with user := hvalid }
    cases hmask' : mask_host inet_pton behind with
    | none => exact h1
    | some found =>
      obtain ⟨host, after⟩ := found
      have hvalid' : (part host).all (chars_are_host inet_pton) = true := part_all (mask_host_cases hmask').2.1
      simp only [set_host_part (u := { u with user := part user }) hhost]
      have h2 : Written inet_pton u { u with user := part user, host := part host } := { h1 with host := hvalid' }
      cases hmask'' : mask_port after with
      | none => exact h2
      | some found =>
        obtain ⟨port, rest⟩ := found
        have hport : port.getD u.port ≤ 65535 := by
          have hsmall := (mask_port_cases hmask'').2
          cases port with
          | none => exact h.port
          | some port => exact hsmall
        have h3 : Written inet_pton u { u with user := part user, host := part host, port := port.getD u.port } :=
          { h2 with port := hport }
        have hself : ∀ {v : Uri}, Written inet_pton u v → Written inet_pton v v := fun hv =>
          { hv with scheme := rfl, query := rfl, fragment := rfl, path := .inl rfl }
        exact h3.trans (path_behind_written (hself h3) rest)

/-- A text that is not begun with a slash or a query. -/
def Rootless (s : List Byte) : Prop := ∃ c rest, s = c :: rest ∧ c ≠ slash ∧ c ≠ question

variable (inet_pton) in
/-- How what is behind a scheme was read. -/
inductive Form (scheme : Option (List Byte)) (s : List Byte) (u : Uri) (rest : List Byte) : Prop where
  | plain (path : Option (List Byte)) (hu : u = { scheme := scheme, path := path }) (hs : s = path.getD [] ++ rest)
      (hpath : path = some [] → rest.head? = some hash)
  | authority (behind : List Byte) (hs : s = slash :: slash :: behind ∨ (s = behind ∧ Rootless s))
      (hfound : uri.authority inet_pton { scheme := scheme } behind = (u, some rest))
  | left (v : Uri) (path : List Byte) (hroot : Rootless s) (hlength : 2 ≤ s.length)
      (hfound : uri.authority inet_pton { scheme := scheme } s = (v, none)) (hv : v ≠ { scheme := scheme })
      (hu : u = { v with path := some path }) (hs : s = path ++ rest)

variable {scheme : Option (List Byte)}

theorem check_rooted_cases {s rest : List Byte}
    (h : check_rooted inet_pton { scheme := scheme } s = (u, some rest)) :
    (∃ path, u = { scheme := scheme, path := path } ∧ s = path.getD [] ++ rest ∧ path ≠ some []) ∨
      ∃ behind, s = slash :: slash :: behind ∧ authority inet_pton { scheme := scheme } behind = (u, some rest) := by
  rw [check_rooted] at h
  cases hcheck : check_path_absolute { scheme := scheme } s with
  | mk v next =>
    rw [hcheck] at h
    cases next with
    | some next =>
      simp only [Prod.mk.injEq, Option.some.injEq] at h
      obtain ⟨rfl, rfl⟩ := h
      obtain ⟨p, hs, hv⟩ := check_path_absolute_path hcheck
      exact .inl ⟨some (slash :: p), hv, hs, by simp⟩
    | none =>
      simp only at h
      rw [check_path_absolute_none hcheck] at h
      match s with
      | [] => simp [check_path_with_authority] at h
      | [_] => simp [check_path_with_authority] at h
      | a :: b :: behind =>
        rw [check_path_with_authority] at h
        split_ifs at h with hslash
        · simp at h
        rw [not_or, not_not, not_not] at hslash
        exact .inr ⟨behind, by rw [hslash.1, hslash.2], h⟩

theorem path_ne_nil {c : Byte} {s p rest : List Byte} (hs : c :: s = p ++ rest) (hslash : c ≠ slash)
    (hquestion : c ≠ question) (hrest : ∀ d ∈ rest.head?, is_major_delimiter d = true) (hp : p = []) :
    rest.head? = some hash := by
  rw [hp, List.nil_append] at hs
  have hmajor := hrest c (by rw [← hs]; rfl)
  rw [← hs]
  simp only [is_major_delimiter, Bool.or_eq_true, decide_eq_true_eq] at hmajor
  obtain (rfl | rfl) | rfl := hmajor
  · exact absurd rfl hslash
  · exact absurd rfl hquestion
  · rfl

theorem check_hierarchical_path_form {s rest : List Byte}
    (h : check_hierarchical_path inet_pton { scheme := scheme } s = (u, some rest)) :
    Form inet_pton scheme s u rest := by
  cases s with
  | nil =>
    rw [check_hierarchical_path, Prod.mk.injEq, Option.some.injEq] at h
    exact .plain none h.1.symm h.2 (by simp)
  | cons c s =>
    rw [check_hierarchical_path] at h
    split_ifs at h with hslash hquestion
    · obtain ⟨path, hu, hs, hpath⟩ | ⟨behind, hs, hfound⟩ := check_rooted_cases h
      · exact .plain path hu hs fun hnil => absurd hnil hpath
      · exact .authority behind (.inl hs) hfound
    · rw [Prod.mk.injEq, Option.some.injEq] at h
      exact .plain none h.1.symm h.2 (by simp)
    have hroot : Rootless (c :: s) := ⟨c, s, rfl, hslash, hquestion⟩
    rw [check_path_rootless, if_neg (by simp [hslash])] at h
    cases hcheck : check_with_authority inet_pton { scheme := scheme } (c :: s) with
    | mk v next =>
      rw [hcheck] at h
      cases next with
      | some next =>
        simp only [Prod.mk.injEq, Option.some.injEq] at h
        obtain ⟨rfl, rfl⟩ := h
        rw [check_with_authority] at hcheck
        split_ifs at hcheck
        · simp at hcheck
        · exact .authority (c :: s) (.inr ⟨rfl, hroot⟩) hcheck
      | none =>
        obtain ⟨p, hs, hu, hrest⟩ := set_path_check h
        by_cases hv : v = { scheme := scheme }
        · refine .plain (some p) (by rw [hu, hv]) hs fun hp => ?_
          exact path_ne_nil hs hslash hquestion hrest (Option.some.inj hp)
        rw [check_with_authority] at hcheck
        split_ifs at hcheck with hshort
        · rw [Prod.mk.injEq] at hcheck
          exact absurd hcheck.1.symm hv
        · exact .left v p hroot (by omega) hcheck hv hu hs

theorem check_relative_path_cases {s rest : List Byte}
    (h : check_relative_path inet_pton { scheme := scheme } s = (u, some rest)) :
    (∃ path, u = { scheme := scheme, path := path } ∧ s = path.getD [] ++ rest ∧ path ≠ some []) ∨
      ∃ behind, s = slash :: slash :: behind ∧ authority inet_pton { scheme := scheme } behind = (u, some rest) := by
  cases s with
  | nil =>
    rw [check_relative_path, Prod.mk.injEq, Option.some.injEq] at h
    exact .inl ⟨none, h.1.symm, h.2, by simp⟩
  | cons c s =>
    rw [check_relative_path] at h
    split_ifs at h with hslash hmajor
    · exact check_rooted_cases h
    · rw [Prod.mk.injEq, Option.some.injEq] at h
      exact .inl ⟨none, h.1.symm, h.2, by simp⟩
    rw [not_or] at hmajor
    rw [check_path_no_scheme, if_neg (by simp [hslash])] at h
    obtain ⟨p, hs, hu, hrest⟩ := set_path_check h
    refine .inl ⟨some p, hu, hs, fun hp => ?_⟩
    have hhead := path_ne_nil hs hslash hmajor.1 hrest (Option.some.inj hp)
    rw [Option.some.inj hp, List.nil_append] at hs
    rw [← hs, List.head?_cons, Option.some.injEq] at hhead
    exact hmajor.2 hhead

/-- What is written for an authority and for what is behind it. -/
def rooted_text (user host : List Byte) (port : Nat) (rest : List Byte) : List Byte :=
  if user = [] ∧ host = [] ∧ port = 0 then rest
  else slash :: slash :: (user_text user ++ (host ++ (port_text port ++ rest)))

theorem part_getD (s : List Byte) : (part s).getD [] = s := by
  rw [part]
  split_ifs with hnil
  · exact hnil.symm
  · rfl

theorem path_behind_path {s rest : List Byte} (hu : u.path = none)
    (h : path_behind u s = (u', some rest)) :
    s = u'.path.getD [] ++ rest ∧ u'.path ≠ some [] ∧ u' = { u with path := u'.path } := by
  have hnone : u = { u with path := none } := by rw [← hu]
  cases s with
  | nil =>
    rw [path_behind, Prod.mk.injEq, Option.some.injEq] at h
    rw [← h.1, ← h.2, hu]
    exact ⟨rfl, by simp, hnone⟩
  | cons c s =>
    rw [path_behind] at h
    split_ifs at h
    · rw [Prod.mk.injEq, Option.some.injEq] at h
      rw [← h.1, ← h.2, hu]
      exact ⟨rfl, by simp, hnone⟩
    obtain ⟨p, hs, rfl⟩ := check_path_absolute_path h
    exact ⟨hs, by simp, rfl⟩

theorem authority_found {s rest : List Byte}
    (h : authority inet_pton { scheme := scheme } s = (u, some rest)) :
    ∃ user host port behind, Authority inet_pton s user host port behind ∧
      path_behind { scheme := scheme, user := part user, host := part host, port := port.getD 0 } behind =
        (u, some rest) := by
  obtain ⟨user, host, port, behind, hfound⟩ := authority_cases h
  refine ⟨user, host, port, behind, hfound, ?_⟩
  rw [hfound.eq rfl rfl rfl] at h
  exact h

variable {host user : List Byte}

theorem text_authority {scheme query fragment : Option (List Byte)} {behind rest : List Byte} {port : Nat}
    (h : path_behind { scheme := scheme, user := part user, host := part host, port := port } behind = (u, some rest))
    (hrest : rest = query.getD [] ++ fragment.getD []) :
    text { u with query := query, fragment := fragment } =
      (scheme.map (· ++ [colon])).getD [] ++ rooted_text user host port behind := by
  obtain ⟨hbehind, -, hu⟩ := path_behind_path rfl h
  rw [text_eq, hbehind, hrest, hu]
  simp only [part_getD]
  congr 1
  rw [rooted_text]
  by_cases hnone : user = [] ∧ host = [] ∧ port = 0
  · rw [if_pos hnone, if_neg]
    · obtain ⟨rfl, rfl, rfl⟩ := hnone
      rfl
    obtain ⟨rfl, rfl, rfl⟩ := hnone
    simp [part]
  rw [if_neg hnone, if_pos]
  · rfl
  by_contra hall
  rw [not_or, not_or, not_not, not_not] at hall
  refine hnone ⟨?_, ?_, by omega⟩
  · by_contra hne
    rw [part_of_ne hne] at hall
    simp at hall
  by_contra hne
  rw [part_of_ne hne] at hall
  simp at hall

theorem check_rooted_eq (h : s = [] ∨ s.head? = some slash ∨ s.head? = some question) :
    check_hierarchical_path inet_pton u s = check_relative_path inet_pton u s := by
  cases s with
  | nil => rfl
  | cons c s =>
    simp only [reduceCtorEq, List.head?_cons, Option.some.injEq, false_or] at h
    rw [check_hierarchical_path, check_relative_path]
    obtain rfl | rfl := h
    · rw [if_pos rfl, if_pos rfl]
    · rfl

theorem check_rooted_slashes (u : Uri) (s : List Byte) :
    check_rooted inet_pton u (slash :: slash :: s) = authority inet_pton u s := by
  have habsolute : check_path_absolute u (slash :: slash :: s) = (u, none) := by
    rw [check_path_absolute, if_pos (.inr rfl)]
  simp [check_rooted, habsolute, check_path_with_authority]

variable {port : Option Nat}

theorem check_relative_path_again {s behind rest : List Byte} (hfound : Authority inet_pton s user host port behind)
    (h : path_behind { scheme := scheme, user := part user, host := part host, port := port.getD 0 } behind =
      (u, some rest)) :
    check_relative_path inet_pton { scheme := scheme } (rooted_text user host (port.getD 0) behind) = (u, some rest) := by
  rw [rooted_text]
  split_ifs with hnone
  · obtain ⟨rfl, rfl, hport⟩ := hnone
    rw [hport] at h
    cases behind with
    | nil => exact h
    | cons c behind =>
      rw [path_behind] at h
      rw [check_relative_path]
      split_ifs at h with hmajor
      · obtain rfl | rfl := hmajor
        · exact h
        · exact h
      obtain ⟨more, hmore, -⟩ := check_path_absolute_cases h
      rw [List.cons.injEq] at hmore
      have habsolute : check_path_absolute { scheme := scheme } (c :: behind) = (u, some rest) := h
      rw [if_pos hmore.1, check_rooted, habsolute]
  obtain ⟨found, hvalue, hagain⟩ := hfound.text (path_behind_ends h)
  rw [check_relative_path, if_pos rfl, check_rooted_slashes, hagain.eq rfl rfl rfl, hvalue]
  exact h

theorem check_with_delimiter_hash {d : Byte} {colons : Bool} {s next : List Byte} (hd : d ≠ hash)
    (h : check_with_delimiter (hash :: s) d colons = some next) : next = hash :: s := by
  by_cases hmem : d ∈ hash :: s
  · obtain ⟨hs, hfirst⟩ := span_first hmem
    have htake : (hash :: s).takeWhile (· ≠ d) = hash :: s.takeWhile (· ≠ d) := by
      rw [List.takeWhile_cons_of_pos]
      simpa using hd.symm
    rw [htake] at hs hfirst
    rw [hs, check_cons hfirst, chars_are_path_chars, chars_are_cons (by decide)] at h
    simp [char_is_path, hash, char_is_unreserved, is_alnum, is_alpha, is_digit, char_is_reserved_sub_delimiter] at h
  rw [check_last hmem, List.takeWhile_cons_of_neg (by decide), List.dropWhile_cons_of_neg (by decide),
    if_pos (.inl rfl), Option.some.injEq] at h
  exact h.symm

theorem authority_hash {v : Uri} {s rest : List Byte} (h : authority inet_pton u (hash :: s) = (v, some rest)) :
    rest = hash :: s := by
  have hends : EndsHost (hash :: s) := by
    intro c hc
    rw [List.head?_cons, Option.mem_some_iff] at hc
    exact .inr (.inr (.inr hc.symm))
  have hport : mask_port (hash :: s) = some (none, hash :: s) := mask_port_none (by simp [hash, colon])
  rw [authority] at h
  cases huser : mask_user (hash :: s) with
  | none => simp [huser] at h
  | some found =>
    obtain ⟨user, behind⟩ := found
    obtain ⟨-, rfl, rfl⟩ | ⟨hs, hchars⟩ := mask_user_cases huser
    · simp only [huser, mask_host_empty hends, hport] at h
      rw [path_behind, if_pos (.inr rfl), Prod.mk.injEq, Option.some.injEq] at h
      exact h.2.symm
    have hnot : hash ∉ user := by
      rw [chars_are_user, Bool.and_eq_true] at hchars
      exact chars_are_not_mem hchars.2 (by decide) (by decide)
    cases user with
    | nil => simp [chars_are_user] at hchars
    | cons c user =>
      rw [List.cons_append, List.cons.injEq] at hs
      rw [← hs.1] at hnot
      simp at hnot

theorem check_hierarchical_path_hash {v : Uri} {s rest : List Byte}
    (h : check_hierarchical_path inet_pton u (hash :: s) = (v, some rest)) : rest = hash :: s := by
  rw [check_hierarchical_path, if_neg (by decide), if_neg (by decide), check_path_rootless,
    if_neg (by simp [hash, slash])] at h
  cases hcheck : check_with_authority inet_pton u (hash :: s) with
  | mk w next =>
    rw [hcheck] at h
    cases next with
    | some next =>
      simp only [Prod.mk.injEq, Option.some.injEq] at h
      rw [check_with_authority] at hcheck
      split_ifs at hcheck
      · simp at hcheck
      rw [← h.2]
      exact authority_hash hcheck
    | none =>
      obtain ⟨hnext, -⟩ := set_path_cases h
      exact check_with_delimiter_hash (by decide) hnext

theorem chars_are_allowed_iff : chars_are_allowed s = true ↔ s ≠ [] ∧ chars_are char_is_allowed s = true := by
  rw [chars_are_allowed, Bool.and_eq_true, decide_eq_true_eq]
  exact Iff.rfl

/-- A scheme as it is written. -/
def scheme_text (scheme : Option (List Byte)) : List Byte := (scheme.map (· ++ [colon])).getD []

theorem mask_scheme_part {s scheme rest : List Byte} (h : mask_scheme s = (scheme, rest)) :
    s = scheme_text (part scheme) ++ rest ∧ (part scheme).all chars_are_scheme = true := by
  obtain hnone | ⟨found, behind, hfound, hs, hscheme⟩ := mask_scheme_cases s
  · rw [hnone, Prod.mk.injEq] at h
    rw [← h.1, ← h.2]
    exact ⟨rfl, rfl⟩
  rw [hfound, Prod.mk.injEq] at h
  rw [← h.1, ← h.2, part_of_ne (scheme_ne_nil hscheme), hs]
  exact ⟨by simp [scheme_text], hscheme⟩

theorem mask_scheme_again {scheme : List Byte} (hne : scheme ≠ [])
    (h : (part scheme).all chars_are_scheme = true) (rest : List Byte) :
    mask_scheme (scheme_text (part scheme) ++ rest) = (scheme, rest) := by
  rw [part_of_ne hne] at h ⊢
  rw [scheme_text, Option.map_some, Option.getD_some, List.append_assoc]
  exact mask_scheme_text h rest

theorem absolute_cases (h : parse_uri_string_absolute inet_pton s = some u) :
    ∃ scheme behind v rest, chars_are_allowed s = true ∧ mask_scheme s = (scheme, behind) ∧ scheme ≠ [] ∧
      check_hierarchical_path inet_pton { scheme := part scheme } behind = (v, some rest) ∧
      parse_absolute_end v rest = some u := by
  rw [parse_uri_string_absolute] at h
  simp only [Bool.not_eq_true', Option.ite_none_left_eq_some, Bool.not_eq_false] at h
  obtain ⟨hallowed, hscheme, h⟩ := h
  cases hcheck : check_hierarchical_path inet_pton { scheme := some (mask_scheme s).1 } (mask_scheme s).2 with
  | mk v next =>
    rw [hcheck] at h
    cases next with
    | none => simp at h
    | some rest =>
      refine ⟨(mask_scheme s).1, (mask_scheme s).2, v, rest, hallowed, rfl, hscheme, ?_, h⟩
      rw [part_of_ne hscheme]
      exact hcheck

theorem reference_cases (h : parse_uri_string_reference inet_pton s = some u) :
    ∃ scheme behind v rest, chars_are_allowed s = true ∧ mask_scheme s = (scheme, behind) ∧
      check_relative_path inet_pton { scheme := part scheme } behind = (v, some rest) ∧
      parse_reference_end v rest = some u := by
  rw [parse_uri_string_reference] at h
  simp only [Bool.not_eq_true', Option.ite_none_left_eq_some, Bool.not_eq_false] at h
  obtain ⟨hallowed, h⟩ := h
  cases hcheck : check_relative_path inet_pton { scheme := part (mask_scheme s).1 } (mask_scheme s).2 with
  | mk v next =>
    rw [part] at hcheck
    rw [hcheck] at h
    cases next with
    | none => simp at h
    | some rest => exact ⟨(mask_scheme s).1, (mask_scheme s).2, v, rest, hallowed, rfl, hcheck, h⟩

theorem absolute_eq {s scheme behind : List Byte} (hallowed : chars_are_allowed s = true)
    (hscheme : mask_scheme s = (scheme, behind)) (hne : scheme ≠ []) {v : Uri} {rest : List Byte}
    (hcheck : check_hierarchical_path inet_pton { scheme := part scheme } behind = (v, some rest)) :
    parse_uri_string_absolute inet_pton s = parse_absolute_end v rest := by
  rw [part_of_ne hne] at hcheck
  simp [parse_uri_string_absolute, hallowed, hscheme, hne, hcheck]

theorem reference_eq {s scheme behind : List Byte} (hallowed : chars_are_allowed s = true)
    (hscheme : mask_scheme s = (scheme, behind)) {v : Uri} {rest : List Byte}
    (hcheck : check_relative_path inet_pton { scheme := part scheme } behind = (v, some rest)) :
    parse_uri_string_reference inet_pton s = parse_reference_end v rest := by
  rw [part] at hcheck
  simp [parse_uri_string_reference, hallowed, hscheme, hcheck]

theorem absolute_none {s behind : List Byte} (hscheme : mask_scheme s = ([], behind)) :
    parse_uri_string_absolute inet_pton s = none := by
  simp [parse_uri_string_absolute, hscheme]

theorem text_plain {scheme path query fragment : Option (List Byte)} :
    text { scheme := scheme, path := path, query := query, fragment := fragment } =
      scheme_text scheme ++ (path.getD [] ++ (query.getD [] ++ fragment.getD [])) := by
  rw [text_eq]
  rfl

theorem rooted_text_allowed {s behind : List Byte}
    (h : Authority inet_pton s user host port behind) (hends : EndsAuthority behind)
    (hs : chars_are char_is_allowed s = true) :
    chars_are char_is_allowed (rooted_text user host (port.getD 0) behind) = true := by
  obtain ⟨hall, hrest⟩ := h.allowed hends hs
  rw [rooted_text]
  split_ifs
  · exact hrest
  rw [chars_are_cons (by decide), chars_are_cons (by decide), hall]
  rfl

theorem scheme_text_allowed (h : chars_are char_is_allowed (scheme_text scheme ++ s) = true) :
    chars_are char_is_allowed (scheme_text scheme) = true ∧ chars_are char_is_allowed s = true := by
  cases scheme with
  | none => exact ⟨rfl, h⟩
  | some scheme =>
    rw [scheme_text, Option.map_some, Option.getD_some] at h ⊢
    rw [List.append_assoc] at h
    obtain ⟨hscheme, hcolon, hs⟩ := chars_are_split (by decide) h
    refine ⟨?_, hs⟩
    rw [chars_are_append hscheme, chars_are_cons (by decide), hcolon]
    rfl

theorem written_start : Written inet_pton { scheme := scheme } { scheme := scheme } where
  scheme := rfl
  query := rfl
  fragment := rfl
  user := rfl
  host := rfl
  port := Nat.zero_le _
  path := .inl rfl

theorem Written.valid {scheme query fragment : Option (List Byte)} {v : Uri}
    (h : Written inet_pton { scheme := scheme } v) (hscheme : scheme.all chars_are_scheme = true)
    (hpath : v.path ≠ some []) (hquery : part_is_valid question query = true)
    (hfragment : part_is_valid hash fragment = true) :
    Valid inet_pton { v with query := query, fragment := fragment } where
  scheme := by
    rw [h.scheme]
    exact hscheme
  user := h.user
  host := h.host
  port := h.port
  path := hpath
  query := hquery
  fragment := hfragment

theorem Written.path_ne_nil {v : Uri} (h : Written inet_pton { scheme := scheme } v) : v.path ≠ some [] := by
  obtain hnone | ⟨p, hp⟩ := h.path
  · rw [hnone]
    simp
  rw [hp]
  simp

theorem valid_plain {scheme path query fragment : Option (List Byte)} (hscheme : scheme.all chars_are_scheme = true)
    (hpath : path ≠ some []) (hquery : part_is_valid question query = true)
    (hfragment : part_is_valid hash fragment = true) :
    Valid inet_pton { scheme := scheme, path := path, query := query, fragment := fragment } where
  scheme := hscheme
  user := rfl
  host := rfl
  port := Nat.zero_le _
  path := hpath
  query := hquery
  fragment := hfragment

variable (inet_pton) in
/-- The attempt to read an authority fails, and it leaves something. -/
def Leaves (s : List Byte) : Prop :=
  ∃ scheme behind v, mask_scheme s = (scheme, behind) ∧ Rootless behind ∧ 2 ≤ behind.length ∧
    authority inet_pton { scheme := part scheme } behind = (v, none) ∧ v ≠ { scheme := part scheme } ∧
    ov_uri_string_is_absolute inet_pton s = true

/-- An authority in which nothing is written. -/
def Blank (s : List Byte) : Prop :=
  s = [slash, slash] ∨ ∃ digits, s = slash :: slash :: colon :: digits ∧ strtol digits = some (0, [])

variable (inet_pton) in
/-- An identifier that is written and read again. -/
def ReadAgain (u : Uri) : Prop :=
  Valid inet_pton u ∧ ov_uri_from_string inet_pton (text u) = some u

theorem rooted_text_ends {behind : List Byte} (h : EndsAuthority behind) (user host : List Byte) (port : Nat) :
    EndsAuthority (rooted_text user host port behind) := by
  rw [rooted_text]
  split_ifs
  · exact h
  intro c hc
  rw [List.head?_cons, Option.mem_some_iff] at hc
  exact .inl hc.symm

theorem path_behind_hash {v : Uri} {s rest : List Byte} (h : path_behind u s = (v, some rest))
    (hhead : s.head? = some hash) : rest.head? = some hash := by
  obtain ⟨more, rfl⟩ := List.head?_eq_some_iff.mp hhead
  rw [path_behind, if_pos (.inr rfl), Prod.mk.injEq, Option.some.injEq] at h
  rw [← h.2]
  rfl

theorem check_hierarchical_path_again {s behind rest : List Byte} (hfound : Authority inet_pton s user host port behind)
    (h : path_behind { scheme := scheme, user := part user, host := part host, port := port.getD 0 } behind =
      (u, some rest))
    (hhead : (rooted_text user host (port.getD 0) behind).head? ≠ some hash) :
    check_hierarchical_path inet_pton { scheme := scheme } (rooted_text user host (port.getD 0) behind) =
      (u, some rest) := by
  rw [check_rooted_eq]
  · exact check_relative_path_again hfound h
  have hends := rooted_text_ends (path_behind_ends h) user host (port.getD 0)
  cases hcase : rooted_text user host (port.getD 0) behind with
  | nil => exact .inl rfl
  | cons c more =>
    rw [hcase] at hends hhead
    obtain rfl | rfl | rfl := hends c rfl
    · exact .inr (.inl rfl)
    · exact .inr (.inr rfl)
    · exact absurd rfl hhead

theorem text_allowed {s behind rest : List Byte}
    (hallowed : chars_are_allowed (scheme_text scheme ++ s) = true) (hs : s = slash :: slash :: behind ∨ s = behind)
    (h : Authority inet_pton behind user host port rest) (hends : EndsAuthority rest) :
    chars_are char_is_allowed (scheme_text scheme ++ rooted_text user host (port.getD 0) rest) = true := by
  obtain ⟨hscheme, hall⟩ := scheme_text_allowed (chars_are_allowed_iff.mp hallowed).2
  rw [chars_are_append hscheme]
  apply rooted_text_allowed h hends
  obtain rfl | rfl := hs
  · rw [chars_are_cons (by decide), chars_are_cons (by decide), Bool.and_eq_true, Bool.and_eq_true] at hall
    exact hall.2.2
  · exact hall

theorem authority_text {scheme query fragment : Option (List Byte)} {s rest : List Byte} {v : Uri}
    (hscheme : scheme.all chars_are_scheme = true) (h : authority inet_pton { scheme := scheme } s = (v, some rest))
    (hrest : rest = query.getD [] ++ fragment.getD []) (hquery : part_is_valid question query = true)
    (hfragment : part_is_valid hash fragment = true) :
    Valid inet_pton { v with query := query, fragment := fragment } ∧
      ∃ user host port behind, Authority inet_pton s user host port behind ∧
        path_behind { scheme := scheme, user := part user, host := part host, port := port.getD 0 } behind =
          (v, some rest) ∧
        text { v with query := query, fragment := fragment } =
          scheme_text scheme ++ rooted_text user host (port.getD 0) behind := by
  have hwritten := @authority_written inet_pton { scheme := scheme } written_start rfl rfl s
  rw [h] at hwritten
  obtain ⟨user, host, port, behind, hfound, hpath⟩ := authority_found h
  exact ⟨hwritten.valid hscheme hwritten.path_ne_nil hquery hfragment, user, host, port, behind, hfound, hpath,
    text_authority hpath hrest⟩

theorem absolute_again (h : parse_uri_string_absolute inet_pton s = some u) :
    ReadAgain inet_pton u ∨ Leaves inet_pton s := by
  have habsolute : ov_uri_string_is_absolute inet_pton s = true := by
    rw [ov_uri_string_is_absolute, h]
    rfl
  have hs := h
  obtain ⟨scheme, behind, v, rest, hallowed, hmask, hne, hcheck, hend⟩ := absolute_cases h
  obtain ⟨hsplit, hscheme⟩ := mask_scheme_part hmask
  have hnohash : rest.head? ≠ some hash := by
    intro hhead
    obtain ⟨more, rfl⟩ := List.head?_eq_some_iff.mp hhead
    rw [parse_absolute_end, if_pos (by decide)] at hend
    simp at hend
  cases check_hierarchical_path_form hcheck with
  | plain path hv hbehind hpath =>
    left
    obtain ⟨query, hrest, hu, hquery⟩ := parse_absolute_end_cases (by rw [hv]) hend
    have hpath' : path ≠ some [] := fun hnil => hnohash (hpath hnil)
    have hu' : u = { scheme := part scheme, path := path, query := query, fragment := none } := by rw [hu, hv]
    have htext : text u = s := by
      rw [hu', text_plain, hsplit, hbehind, hrest]
      simp
    refine ⟨hu' ▸ valid_plain hscheme hpath' hquery rfl, ?_⟩
    rw [htext, ov_uri_from_string, hs]
    rfl
  | authority behind' hbehind hfound =>
    left
    have hwritten := @authority_written inet_pton { scheme := part scheme } written_start rfl rfl behind'
    rw [hfound] at hwritten
    obtain ⟨query, hrest, hu, hquery⟩ := parse_absolute_end_cases hwritten.query hend
    have hu' : u = { v with query := query, fragment := none } := by
      rw [hu, ← show v.fragment = none from hwritten.fragment]
    obtain ⟨hvalid, user, host, port, after, hA, hpath, htext⟩ :=
      @authority_text inet_pton (part scheme) query none behind' rest v hscheme hfound (by simp [hrest]) hquery rfl
    have hends := path_behind_ends hpath
    have hhead : (rooted_text user host (port.getD 0) after).head? ≠ some hash := by
      intro hhead
      rw [rooted_text] at hhead
      split_ifs at hhead
      · exact hnohash (path_behind_hash hpath hhead)
      · simp [slash, hash] at hhead
    have hagain := check_hierarchical_path_again hA hpath hhead
    have hne' : scheme_text (part scheme) ++ rooted_text user host (port.getD 0) after ≠ [] := by
      rw [part_of_ne hne]
      simp [scheme_text]
    rw [hsplit] at hallowed
    have hallowed' := chars_are_allowed_iff.mpr ⟨hne', text_allowed hallowed (hbehind.imp id And.left) hA hends⟩
    have hmask' := mask_scheme_again hne hscheme (rooted_text user host (port.getD 0) after)
    refine ⟨hu' ▸ hvalid, ?_⟩
    rw [← hu'] at htext
    rw [htext, ov_uri_from_string, absolute_eq hallowed' hmask' hne hagain, hend]
    rfl
  | left w path hroot hlength hfound hw hv hbehind =>
    exact .inr ⟨scheme, behind, w, hmask, hroot, hlength, hfound, hw, habsolute⟩

theorem mask_scheme_ends (h : EndsAuthority s) : mask_scheme s = ([], s) := by
  cases s with
  | nil => rfl
  | cons c s =>
    apply mask_scheme_none
    obtain rfl | rfl | rfl := h c rfl <;> decide

theorem absolute_hash {s scheme behind : List Byte} (hmask : mask_scheme s = (scheme, behind))
    (hhead : behind.head? = some hash) : parse_uri_string_absolute inet_pton s = none := by
  by_contra hsome
  obtain ⟨u, hu⟩ := Option.ne_none_iff_exists'.mp hsome
  obtain ⟨scheme', behind', v, rest, -, hmask', -, hcheck, hend⟩ := absolute_cases hu
  rw [hmask, Prod.mk.injEq] at hmask'
  obtain ⟨more, hmore⟩ := List.head?_eq_some_iff.mp hhead
  rw [← hmask'.2, hmore] at hcheck
  rw [check_hierarchical_path_hash hcheck, parse_absolute_end, if_pos (by decide)] at hend
  simp at hend

theorem blank_of_authority (h : Authority inet_pton s [] [] port [])
    (hport : port.getD 0 = 0) : Blank (slash :: slash :: s) := by
  obtain ⟨behind, huser, after, hhost, hmask⟩ := h.user_found
  obtain ⟨-, -, rfl⟩ | ⟨-, hchars⟩ := mask_user_cases huser
  · obtain ⟨hafter, -⟩ := mask_host_cases hhost
    rw [List.nil_append] at hafter
    rw [hafter]
    cases after with
    | nil => exact .inl rfl
    | cons c digits =>
      rw [mask_port] at hmask
      simp only at hmask
      split_ifs at hmask with hcolon hnil hnumber
      · simp at hmask
      rw [Option.some.injEq, Prod.mk.injEq] at hmask
      rw [not_not] at hcolon
      refine .inr ⟨digits, by rw [hcolon], ?_⟩
      cases hread : strtol digits with
      | none =>
        rw [hread, Option.getD_none] at hmask
        exact absurd hmask.2 hnil
      | some found =>
        rw [hread, Option.getD_some] at hmask hnumber
        obtain ⟨n, next⟩ := found
        obtain ⟨rfl, rfl⟩ := hmask
        rw [Option.getD_some] at hport
        have hzero : n = 0 := by omega
        rw [hzero]
  · simp [chars_are_user] at hchars

theorem reference_again (hnone : parse_uri_string_absolute inet_pton s = none)
    (h : parse_uri_string_reference inet_pton s = some u) : ReadAgain inet_pton u ∨ Blank s := by
  have hs := h
  obtain ⟨scheme, behind, v, rest, hallowed, hmask, hcheck, hend⟩ := reference_cases h
  obtain ⟨hsplit, hscheme⟩ := mask_scheme_part hmask
  obtain ⟨path, hv, hbehind, hpath⟩ | ⟨behind', hbehind, hfound⟩ := check_relative_path_cases hcheck
  · left
    obtain ⟨query, fragment, hrest, hu, hquery, hfragment⟩ :=
      parse_reference_end_cases (by rw [hv]) (by rw [hv]) hend
    have hu' : u = { scheme := part scheme, path := path, query := query, fragment := fragment } := by rw [hu, hv]
    have htext : text u = s := by rw [hu', text_plain, hsplit, hbehind, hrest]
    refine ⟨hu' ▸ valid_plain hscheme hpath hquery hfragment, ?_⟩
    rw [htext, ov_uri_from_string, hnone, hs]
    rfl
  have hwritten := @authority_written inet_pton { scheme := part scheme } written_start rfl rfl behind'
  rw [hfound] at hwritten
  obtain ⟨query, fragment, hrest, hu, hquery, hfragment⟩ :=
    parse_reference_end_cases hwritten.query hwritten.fragment hend
  obtain ⟨hvalid, user, host, port, after, hA, hpath, htext⟩ :=
    authority_text hscheme hfound hrest hquery hfragment
  have hends := path_behind_ends hpath
  by_cases hempty : scheme = [] ∧ rooted_text user host (port.getD 0) after = []
  · right
    obtain ⟨rfl, hnil⟩ := hempty
    rw [rooted_text] at hnil
    split_ifs at hnil with hall
    obtain ⟨rfl, rfl, hport⟩ := hall
    rw [hnil] at hA
    rw [hsplit, hbehind]
    exact blank_of_authority hA hport
  left
  refine ⟨hu ▸ hvalid, ?_⟩
  rw [← hu] at htext
  rw [hsplit] at hallowed
  have hne : scheme_text (part scheme) ++ rooted_text user host (port.getD 0) after ≠ [] := by
    intro hnil
    rw [List.append_eq_nil_iff] at hnil
    by_cases hnone' : scheme = []
    · exact hempty ⟨hnone', hnil.2⟩
    rw [part_of_ne hnone'] at hnil
    simp [scheme_text] at hnil
  have hallowed' := chars_are_allowed_iff.mpr ⟨hne, text_allowed hallowed (.inl hbehind) hA hends⟩
  have hmask' : mask_scheme (scheme_text (part scheme) ++ rooted_text user host (port.getD 0) after) =
      (scheme, rooted_text user host (port.getD 0) after) := by
    by_cases hnone' : scheme = []
    · subst hnone'
      exact mask_scheme_ends (rooted_text_ends hends _ _ _)
    · exact mask_scheme_again hnone' hscheme _
  have habsolute : parse_uri_string_absolute inet_pton
      (scheme_text (part scheme) ++ rooted_text user host (port.getD 0) after) = none := by
    by_cases hnone' : scheme = []
    · rw [hnone'] at hmask' ⊢
      exact absolute_none hmask'
    by_cases hhead : (rooted_text user host (port.getD 0) after).head? = some hash
    · exact absolute_hash hmask' hhead
    rw [absolute_eq hallowed' hmask' hnone' (check_hierarchical_path_again hA hpath hhead)]
    rw [← hsplit] at hallowed
    rw [← check_rooted_eq (.inr (.inl (by rw [hbehind]; rfl)))] at hcheck
    rw [← absolute_eq hallowed hmask hnone' hcheck]
    exact hnone
  rw [htext, ov_uri_from_string, habsolute, reference_eq hallowed' hmask' (check_relative_path_again hA hpath), hend]
  rfl

theorem at_not_mem_of_strtol {n : Int} (h : strtol s = some (n, [])) : at_sign ∉ s := by
  simp only [strtol, Option.ite_none_left_eq_some, Option.some.injEq, Prod.mk.injEq] at h
  have hdigits : at_sign ∉ (sign (s.dropWhile is_space)).2 := by
    rw [← List.takeWhile_append_dropWhile (p := is_digit) (l := (sign (s.dropWhile is_space)).2),
      h.2.2, List.append_nil]
    intro hmem
    have hdigit := List.mem_takeWhile_imp hmem
    simp [is_digit, at_sign] at hdigit
  have hsign : at_sign ∉ s.dropWhile is_space := by
    cases hcase : s.dropWhile is_space with
    | nil => simp
    | cons c rest =>
      rw [hcase, sign] at hdigits
      rw [List.mem_cons, not_or]
      split_ifs at hdigits with hminus hplus
      · exact ⟨by rw [hminus]; decide, hdigits⟩
      · exact ⟨by rw [hplus]; decide, hdigits⟩
      exact ⟨fun heq => hdigits (by rw [heq]; exact List.mem_cons_self),
        fun hmem => hdigits (List.mem_cons_of_mem _ hmem)⟩
  rw [← List.takeWhile_append_dropWhile (p := is_space) (l := s), List.mem_append, not_or]
  refine ⟨fun hmem => ?_, hsign⟩
  have hspace := List.mem_takeWhile_imp hmem
  simp [is_space, at_sign] at hspace

theorem Blank.authority (h : Blank s) :
    ∃ behind, s = slash :: slash :: behind ∧ uri.authority inet_pton {} behind = ({}, some []) := by
  obtain rfl | ⟨digits, rfl, hread⟩ := h
  · exact ⟨[], rfl, rfl⟩
  refine ⟨colon :: digits, rfl, ?_⟩
  have hat : at_sign ∉ colon :: digits := by
    rw [List.mem_cons, not_or]
    exact ⟨by decide, at_not_mem_of_strtol hread⟩
  have hends : EndsHost (colon :: digits) := by
    intro c hc
    rw [List.head?_cons, Option.mem_some_iff] at hc
    exact .inl hc.symm
  have hne : digits ≠ [] := by
    rintro rfl
    simp [strtol, sign] at hread
  have hport : mask_port (colon :: digits) = some (some 0, []) := by simp [mask_port, hne, hread]
  have hfound : Authority inet_pton (colon :: digits) [] [] (some 0) [] :=
    ⟨_, mask_user_none hat, _, mask_host_empty hends, hport⟩
  rw [hfound.eq rfl rfl rfl]
  rfl

theorem Blank.eq (h : Blank s) (hu : ov_uri_from_string inet_pton s = some u) : u = {} := by
  obtain ⟨behind, rfl, hfound⟩ := @Blank.authority inet_pton _ h
  have hmask : mask_scheme (slash :: slash :: behind) = ([], slash :: slash :: behind) := mask_scheme_none (by decide) _
  rw [ov_uri_from_string, absolute_none hmask, Option.none_or] at hu
  obtain ⟨scheme, rest, v, next, -, hmask', hcheck, hend⟩ := reference_cases hu
  rw [hmask, Prod.mk.injEq] at hmask'
  obtain ⟨rfl, rfl⟩ := hmask'
  rw [check_relative_path, if_pos rfl, check_rooted_slashes] at hcheck
  rw [show ({ scheme := part [] } : Uri) = {} from rfl, hfound, Prod.mk.injEq, Option.some.injEq] at hcheck
  obtain ⟨rfl, rfl⟩ := hcheck
  exact (Option.some.inj hend).symm

variable (inet_pton) in
/-- An identifier is written within the length that was computed, and read as the same one. -/
def RoundTrips (u : Uri) : Prop :=
  ∃ t, ov_uri_to_string inet_pton u = some t ∧ t.length < ov_uri_string_length inet_pton u ∧
    ov_uri_from_string inet_pton t = some u

theorem ReadAgain.roundTrips (h : ReadAgain inet_pton u) : RoundTrips inet_pton u :=
  ⟨text u, h.1.to_string, h.1.string_length, h.2⟩

theorem Valid.roundTrips (h : Valid inet_pton u) (ht : RoundTrips inet_pton u) :
    ov_uri_from_string inet_pton (text u) = some u := by
  obtain ⟨t, hstring, -, hread⟩ := ht
  rw [h.to_string, Option.some.injEq] at hstring
  rw [hstring]
  exact hread

theorem not_roundTrips_of_blank (h : Blank s) (hu : ov_uri_from_string inet_pton s = some u) :
    ¬ RoundTrips inet_pton u := by
  intro ht
  rw [h.eq hu] at ht
  have hvalid : Valid inet_pton {} := ⟨rfl, rfl, rfl, Nat.zero_le _, by simp, rfl, rfl⟩
  have hread := hvalid.roundTrips ht
  rw [show text {} = [] from rfl, ov_uri_from_string] at hread
  simp [parse_uri_string_absolute, parse_uri_string_reference, chars_are_allowed] at hread

theorem path_behind_none {v : Uri} (h : path_behind u s = (v, none)) : v = u := by
  cases s with
  | nil => simp [path_behind] at h
  | cons c s =>
    rw [path_behind] at h
    split_ifs at h
    · simp at h
    · exact check_path_absolute_none h

theorem authority_none_path {v : Uri}
    (h : authority inet_pton { scheme := scheme } s = (v, none)) : v.path = none := by
  rw [authority] at h
  cases huser : mask_user s with
  | none =>
    simp only [huser, Prod.mk.injEq, and_true] at h
    rw [← h]
  | some found =>
    obtain ⟨user, behind⟩ := found
    simp only [huser, set_user_part (u := { scheme := scheme }) rfl] at h
    cases hhost : mask_host inet_pton behind with
    | none =>
      simp only [hhost, Prod.mk.injEq, and_true] at h
      rw [← h]
    | some found =>
      obtain ⟨host, after⟩ := found
      simp only [hhost, set_host_part (u := { scheme := scheme, user := part user }) rfl] at h
      cases hport : mask_port after with
      | none =>
        simp only [hport, Prod.mk.injEq, and_true] at h
        rw [← h]
      | some found =>
        simp only [hport] at h
        rw [path_behind_none h]

theorem slashes_path {scheme t : List Byte} (hne : scheme ≠ []) (hscheme : (part scheme).all chars_are_scheme = true) (h : ov_uri_from_string inet_pton (scheme_text (part scheme) ++ slash :: slash :: t) = some u) :
    u.path = none ∨ ∃ p, u.path = some (slash :: p) := by
  have hmask := mask_scheme_again hne hscheme (slash :: slash :: t)
  have hwritten := @authority_written inet_pton { scheme := part scheme } written_start rfl rfl t
  rw [ov_uri_from_string, Option.or_eq_some_iff] at h
  obtain habsolute | ⟨-, hreference⟩ := h
  · obtain ⟨scheme', behind, v, rest, -, hmask', -, hcheck, hend⟩ := absolute_cases habsolute
    rw [hmask, Prod.mk.injEq] at hmask'
    obtain ⟨rfl, rfl⟩ := hmask'
    rw [check_hierarchical_path, if_pos rfl, check_rooted_slashes] at hcheck
    rw [hcheck] at hwritten
    obtain ⟨query, -, rfl, -⟩ := parse_absolute_end_cases hwritten.query hend
    exact hwritten.path
  obtain ⟨scheme', behind, v, rest, -, hmask', hcheck, hend⟩ := reference_cases hreference
  rw [hmask, Prod.mk.injEq] at hmask'
  obtain ⟨rfl, rfl⟩ := hmask'
  rw [check_relative_path, if_pos rfl, check_rooted_slashes] at hcheck
  rw [hcheck] at hwritten
  obtain ⟨query, fragment, -, rfl, -, -⟩ := parse_reference_end_cases hwritten.query hwritten.fragment hend
  exact hwritten.path

theorem not_roundTrips_of_leaves (h : Leaves inet_pton s)
    (hu : ov_uri_from_string inet_pton s = some u) : ¬ RoundTrips inet_pton u := by
  obtain ⟨scheme, behind, v, hmask, ⟨c, more, rfl, hslash, hquestion⟩, hlength, hfound, hv, habsolute⟩ := h
  rw [ov_uri_string_is_absolute, Option.isSome_iff_exists] at habsolute
  obtain ⟨u', hu'⟩ := habsolute
  rw [ov_uri_from_string, hu', Option.some_or, Option.some.injEq] at hu
  subst hu
  obtain ⟨scheme', behind', w, rest, hallowed, hmask', hne, hcheck, hend⟩ := absolute_cases hu'
  rw [hmask, Prod.mk.injEq] at hmask'
  obtain ⟨rfl, rfl⟩ := hmask'
  obtain ⟨-, hscheme⟩ := mask_scheme_part hmask
  have hattempt : check_with_authority inet_pton { scheme := part scheme } (c :: more) = (v, none) := by
    rw [check_with_authority, if_neg (by omega)]
    exact hfound
  rw [check_hierarchical_path, if_neg hslash, if_neg hquestion, check_path_rootless, if_neg (by simp [hslash]),
    hattempt] at hcheck
  obtain ⟨p, hp, rfl, hmajor⟩ := set_path_check hcheck
  have hwritten := @authority_written inet_pton { scheme := part scheme } written_start rfl rfl (c :: more)
  rw [hfound] at hwritten
  obtain ⟨query, -, rfl, hquery⟩ := parse_absolute_end_cases (u := { v with path := some p }) hwritten.query hend
  have hpne : p ≠ [] := by
    intro hnil
    obtain ⟨more', rfl⟩ := List.head?_eq_some_iff.mp (path_ne_nil hp hslash hquestion hmajor hnil)
    rw [parse_absolute_end, if_pos (by decide)] at hend
    simp at hend
  have hsome : v.user ≠ none ∨ v.host ≠ none ∨ 0 < v.port := by
    by_contra hnone
    rw [not_or, not_or, not_not, not_not] at hnone
    apply hv
    obtain ⟨huser, hhost, hport⟩ := hnone
    have hzero : v.port = 0 := by omega
    have hpath := authority_none_path hfound
    have hwscheme := hwritten.scheme
    have hwquery := hwritten.query
    have hwfragment := hwritten.fragment
    cases v
    simp only at huser hhost hzero hpath hwscheme hwquery hwfragment
    rw [huser, hhost, hzero, hpath, hwscheme, hwquery, hwfragment]
  have hvalid : Valid inet_pton { v with path := some p, query := query } :=
    { scheme := by
        rw [hwritten.scheme]
        exact hscheme
      user := hwritten.user
      host := hwritten.host
      port := hwritten.port
      path := by simpa using hpne
      query := hquery
      fragment := by
        rw [hwritten.fragment]
        rfl }
  intro ht
  have hread := hvalid.roundTrips ht
  rw [text_eq, if_pos hsome, hwritten.scheme] at hread
  obtain hnone | ⟨p', hp'⟩ := slashes_path hne hscheme hread
  · simp at hnone
  rw [Option.some.inj hp', List.cons_append, List.cons.injEq] at hp
  exact hslash hp.1

theorem round_trips_iff (h : ov_uri_from_string inet_pton s = some u) :
    RoundTrips inet_pton u ↔ ¬ Blank s ∧ ¬ Leaves inet_pton s := by
  constructor
  · intro ht
    exact ⟨fun hblank => not_roundTrips_of_blank hblank h ht, fun hleaves => not_roundTrips_of_leaves hleaves h ht⟩
  rintro ⟨hblank, hleaves⟩
  rw [ov_uri_from_string, Option.or_eq_some_iff] at h
  obtain habsolute | ⟨hnone, hreference⟩ := h
  · exact ((absolute_again habsolute).resolve_right hleaves).roundTrips
  · exact ((reference_again hnone hreference).resolve_right hblank).roundTrips

end

end openvocs.uri
