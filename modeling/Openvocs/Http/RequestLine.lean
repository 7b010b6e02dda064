import Openvocs.Http.Head

open List Option

namespace openvocs.http

open memory cstring uri

/-- The parts of `Method SP Request-URI SP HTTP-Version CRLF`. -/
structure RequestLine where
  method : List Byte
  uri : List Byte
  major : List Byte
  minor : List Byte
deriving DecidableEq

def dot : Byte := 46

/-- `"HTTP" "/" 1*DIGIT "." 1*DIGIT`. -/
def RequestLine.version_text (line : RequestLine) : List Byte :=
  http_slash ++ (line.major ++ dot :: line.minor)

def RequestLine.text (line : RequestLine) : List Byte :=
  line.method ++ space :: (line.uri ++ space :: (line.version_text ++ crlf))

/-- A request line within the limits for its method and its URI. -/
structure RequestLine.Legal (max_method_name : Nat) (line : RequestLine) : Prop where
  method : line.method ≠ [] ∧ ∀ c ∈ line.method, is_token c = true
  method_fits : max_method_name = 0 ∨ line.method.length ≤ max_method_name
  uri : line.uri ≠ [] ∧ ∀ c ∈ line.uri,
    char_is_reserved c = true ∨ char_is_unreserved c = true ∨ c = percent
  uri_fits : line.uri.length ≤ path_max
  major : IsNumber line.major
  minor : IsNumber line.minor

/-- What is to be read of a line at an address. -/
def RequestLine.request (line : RequestLine) (p : Nat) : Request where
  method := ⟨p, line.method.length⟩
  uri := ⟨p + line.method.length + 1, line.uri.length⟩
  version := ⟨BitVec.ofNat 8 (cstring.value line.major), BitVec.ofNat 8 (cstring.value line.minor)⟩

/-- The line is read as it was written whatever follows it, more octets are asked for on every
proper part from its start on, and nothing behind the given octets has an influence. -/
structure RequestLine.Exact (inet_pton : Family → List Byte → Bool) (max_method_name : Nat)
    (line : RequestLine) : Prop where
  success : ∀ m p following, Holds m p (line.text ++ following) →
    parse_request_line inet_pton m max_method_name p (line.text ++ following).length =
      .success (line.request p, p + line.text.length)
  progress : ∀ m p s, s <+: line.text → s ≠ line.text → Holds m p s →
    parse_request_line inet_pton m max_method_name p s.length = .progress
  independent : ∀ m m' p s following, s <+: line.text ++ following → Holds m p s → Holds m' p s →
    parse_request_line inet_pton m max_method_name p s.length =
      parse_request_line inet_pton m' max_method_name p s.length

variable {m : Memory} {p size : Nat} {s a b : List Byte}

theorem string_find_singleton (c : Byte) (size p : Nat) : string_find m [c] size p = find m c size p := by
  induction size generalizing p with
  | zero => rfl
  | succ size ih =>
    rw [string_find, find, ih]
    by_cases h : m p = c
    · simp [h]
    · simp [h, Ne.symm h]

theorem skip_whitespace_of_not {buffer : Nat} (h : is_whitespace (m p) = false) :
    skip_whitespace m buffer size p = (p, size) := by
  cases size with
  | zero => rfl
  | succ size => rw [skip_whitespace, if_neg (by simp [h])]

theorem is_token_facts : ∀ c : Byte, is_token c = true →
    is_whitespace c = false ∧ c ≠ space ∧ c ≠ cr ∧ c ≠ 58 := by decide +kernel

theorem uri_char_facts : ∀ c : Byte, char_is_reserved c = true ∨ char_is_unreserved c = true ∨
    c = percent → c ≠ space ∧ c ≠ cr := by decide +kernel

theorem is_digit_facts : ∀ c : Byte, is_digit c = true →
    c ≠ dot ∧ c ≠ cr ∧ BitVec.ofNat 8 (c.toNat - 48) = c - 48 := by decide +kernel

theorem cut_cases {c : Byte} (h : s <+: a ++ c :: b) : s <+: a ∨ ∃ rest, s = a ++ c :: rest ∧ rest <+: b := by
  induction a generalizing s with
  | nil =>
    cases s with
    | nil => exact .inl ( nil_prefix)
    | cons x s =>
      obtain ⟨rfl, hrest⟩ := cons_prefix_cons.mp h
      exact .inr ⟨s, rfl, hrest⟩
  | cons y a ih =>
    cases s with
    | nil => exact .inl ( nil_prefix)
    | cons x s =>
      obtain ⟨rfl, hrest⟩ := cons_prefix_cons.mp h
      rcases ih hrest with hin | ⟨rest, rfl, hin⟩
      · exact .inl (cons_prefix_cons.mpr ⟨rfl, hin⟩)
      · exact .inr ⟨rest, rfl, hin⟩

theorem part_or_whole {text following : List Byte} (hs : s <+: text ++ following) :
    (∃ rest, s = text ++ rest) ∨ (s <+: text ∧ s ≠ text) := by
  by_cases hcut : text <+: s
  · obtain ⟨rest, rfl⟩ := hcut
    exact .inl ⟨rest, rfl⟩
  refine .inr ⟨?_, ?_⟩
  · rcases prefix_or_prefix_of_prefix hs ⟨following, rfl⟩ with hpart | hwhole
    · exact hpart
    · exact absurd hwhole hcut
  rintro rfl
  exact hcut (prefix_refl _)

theorem is_token_string_of (h : Holds m p s) (hne : s ≠ []) (hs : ∀ c ∈ s, is_token c = true) :
    is_token_string m p s.length = true := by
  rw [is_token_string, h.read, Bool.and_eq_true, decide_eq_true_eq, List.all_eq_true]
  exact ⟨fun hnil => hne (length_eq_zero_iff.mp hnil), hs⟩

variable {d e : Byte}

theorem version_octets (h : Holds m p (http_slash ++ [d, dot, e])) :
    read m p 5 = http_slash ∧ m (p + 5) = d ∧ m (p + 6) = dot ∧ m (p + 7) = e := by
  rw [holds_append] at h
  obtain ⟨hslash, hd, hdot, he, -⟩ := h
  exact ⟨hslash.read, hd, hdot, he⟩

variable {rest : List Byte}

theorem skip_http_slash (h : Holds m p (http_slash ++ rest)) : skip_whitespace m p size p = (p, size) := by
  refine skip_whitespace_of_not ?_
  have hfirst : m p = 72 := h.1
  rw [hfirst]
  decide

theorem parse_version_of (h : Holds m p (http_slash ++ [d, dot, e]))
    (hd : is_digit d = true) (he : is_digit e = true) (hsize : 8 ≤ size) :
    parse_version m p size = .success ⟨d - 48, e - 48⟩ := by
  obtain ⟨hslash, hmajor, hdot, hminor⟩ := version_octets h
  have hnot : ¬ size = 0 ∧ ¬ size < 5 ∧ ¬ size < 6 ∧ ¬ size < 7 ∧ ¬ size < 8 := by omega
  simp only [parse_version, skip_http_slash h, hnot, if_false, hslash, hmajor, hdot, hminor, hd, he]
  simp [dot, http_slash]

theorem parse_version_long (h : Holds m p (http_slash ++ [d, e])) (he : e ≠ dot)
    (hd : is_digit d = true) (hsize : 8 ≤ size) : parse_version m p size = .error := by
  have hskip : skip_whitespace m p size p = (p, size) := skip_http_slash h
  rw [holds_append] at h
  obtain ⟨hslash, hmajor, hdot, -⟩ := h
  have hread : read m p 5 = http_slash := hslash.read
  have hmajor : m (p + 5) = d := hmajor
  have hdot : m (p + 6) = e := hdot
  have hnot : ¬ size = 0 ∧ ¬ size < 5 ∧ ¬ size < 6 ∧ ¬ size < 7 ∧ ¬ size < 8 := by omega
  have hne : e ≠ 46 := he
  simp only [parse_version, hskip, hnot, if_false, hread, hmajor, hdot, hd, if_pos hne]
  simp [http_slash]

theorem parse_version_cut (h : Holds m p s) (hs : s <+: http_slash ++ [d, dot, e])
    (hlength : s.length < 8) (hd : is_digit d = true) :
    parse_version m p s.length = .progress := by
  obtain hzero | hpos := Nat.eq_zero_or_pos s.length
  · simp [parse_version, hzero]
  have hskip : skip_whitespace m p s.length p = (p, s.length) := by
    have hfirst : [(72 : Byte)] <+: s :=
      prefix_of_prefix_length_le ⟨_, rfl⟩ hs hpos
    obtain ⟨hc, -⟩ := h.shorter hfirst
    refine skip_whitespace_of_not ?_
    rw [hc]
    decide
  have hread : read m p (if s.length < 5 then s.length else 5) =
      http_slash.take (if s.length < 5 then s.length else 5) := by
    have hshort : http_slash.take (if s.length < 5 then s.length else 5) <+: s := by
      refine prefix_of_prefix_length_le
        (( take_prefix _ _).trans ⟨_, rfl⟩) hs ?_
      split
      · simp [http_slash]
      simp [http_slash]
      omega
    have hread := (h.shorter hshort).read
    have hlen : (http_slash.take (if s.length < 5 then s.length else 5)).length =
        if s.length < 5 then s.length else 5 := by
      split
      · simp [http_slash]
        omega
      · simp [http_slash]
    rwa [hlen] at hread
  have hnot : s.length ≠ 0 := Nat.ne_of_gt hpos
  simp only [parse_version, hskip, hread, if_neg hnot, ne_eq, not_true_eq_false, if_false]
  by_cases hfive : s.length < 6
  · rw [if_pos hfive]
  rw [if_neg hfive]
  have hmajor : m (p + 5) = d := by
    have hlonger : http_slash ++ [d] <+: s := by
      refine prefix_of_prefix_length_le ⟨[dot, e], rfl⟩ hs ?_
      simp [http_slash]
      omega
    exact (holds_append.mp (h.shorter hlonger)).2.1
  rw [hmajor, hd]
  by_cases hsix : s.length < 7
  · simp [hsix]
  have hdot : m (p + 6) = dot := by
    have hlonger : http_slash ++ [d, dot] <+: s := by
      refine prefix_of_prefix_length_le ⟨[e], rfl⟩ hs ?_
      simp [http_slash]
      omega
    exact (holds_append.mp (h.shorter hlonger)).2.2.1
  simp [hsix, hdot, dot, hlength]

theorem request_version_of {method uri : Pointer}
    (h : Holds m p (http_slash ++ [d, dot, e] ++ crlf)) (hd : is_digit d = true)
    (he : is_digit e = true) (hsize : 10 ≤ size) :
    request_version m method uri p size = .success (⟨method, uri, ⟨d - 48, e - 48⟩⟩, p + 10) := by
  rw [holds_append] at h
  obtain ⟨hversion, hcr, hlf, -⟩ := h
  have hparse : parse_version m p size = .success ⟨d - 48, e - 48⟩ :=
    parse_version_of hversion hd he (by omega)
  have hcr : m (p + 8) = cr := hcr
  have hlf : m (p + 9) = lf := hlf
  have hnot : ¬ size < 1 ∧ ¬ size < 10 := by omega
  simp [request_version, hparse, hnot, hcr, hlf]

theorem request_version_cut {method uri : Pointer} (h : Holds m p s)
    (hs : s <+: http_slash ++ [d, dot, e] ++ crlf) (hlength : s.length < 10)
    (hd : is_digit d = true) (he : is_digit e = true) :
    request_version m method uri p s.length = .progress := by
  by_cases hone : s.length < 1
  · rw [request_version, if_pos hone]
  by_cases height : s.length < 8
  · have hshort : s <+: http_slash ++ [d, dot, e] := by
      refine prefix_of_prefix_length_le hs ⟨crlf, rfl⟩ ?_
      simp [http_slash]
      omega
    rw [request_version, if_neg hone, parse_version_cut h hshort height hd]
  have hlonger : http_slash ++ [d, dot, e] <+: s := by
    refine prefix_of_prefix_length_le ⟨crlf, rfl⟩ hs ?_
    simp [http_slash]
    omega
  rw [request_version, if_neg hone, parse_version_of (h.shorter hlonger) hd he (by omega)]
  simp [hlength]

theorem lineend_eq_none (h : Holds m p s) (hs : cr ∉ s) : string_find m [cr] s.length p = none := by
  rw [string_find_singleton]
  exact find_none h hs (Nat.le_refl _)

theorem lineend_not_before {last : Nat} (h : Holds m p s) (hs : cr ∉ s) (hlast : last ≤ p + s.length) :
    (string_find m [cr] size p).any (· < last) = false := by
  rw [string_find_singleton]
  cases hfind : find m cr size p with
  | none => rfl
  | some found =>
    have hle := find_le h hs hfind
    simp only [any_some, decide_eq_false_iff_not]
    omega

variable {inet_pton : Family → List Byte → Bool} {max_method_name : Nat} {line : RequestLine}

section

variable (h : line.Legal max_method_name)

include h

theorem RequestLine.Legal.method_clear :
    space ∉ line.method ∧ cr ∉ line.method :=
  ⟨fun hmem => (is_token_facts space (h.method.2 space hmem)).2.1 rfl,
    fun hmem => (is_token_facts cr (h.method.2 cr hmem)).2.2.1 rfl⟩

theorem RequestLine.Legal.uri_clear : space ∉ line.uri ∧ cr ∉ line.uri :=
  ⟨fun hmem => (uri_char_facts space (h.uri.2 space hmem)).1 rfl,
    fun hmem => (uri_char_facts cr (h.uri.2 cr hmem)).2 rfl⟩

theorem RequestLine.Legal.skip_method (hs : s <+: line.method)
    (hne : s ≠ []) (hm : Holds m p s) : skip_whitespace m p size p = (p, size) := by
  cases s with
  | nil => exact absurd rfl hne
  | cons c s =>
    refine skip_whitespace_of_not ?_
    rw [hm.1]
    exact (is_token_facts c (h.method.2 c (hs.mem (mem_cons_self)))).1

theorem parse_method (hm : Holds m p (line.method ++ space :: rest)) :
    parse_request_line inet_pton m max_method_name p (line.method ++ space :: rest).length =
      request_uri inet_pton m (string_find m [cr] (line.method ++ space :: rest).length p)
        ⟨p, line.method.length⟩ (p + line.method.length + 1) rest.length := by
  obtain ⟨hspace, hcr⟩ := h.method_clear
  have hmethod := hm.shorter ⟨_, rfl⟩
  have hskip : skip_whitespace m p (line.method ++ space :: rest).length p =
      (p, (line.method ++ space :: rest).length) :=
    h.skip_method (prefix_refl _) h.method.1 hmethod
  have hlength : (line.method ++ space :: rest).length = line.method.length + 1 + rest.length := by
    simp
    omega
  have hfind : find m space (line.method ++ space :: rest).length p = some (p + line.method.length) :=
    find_eq hm hspace (by omega)
  have hback : p + line.method.length - p = line.method.length := by omega
  have hfits : ¬ (max_method_name ≠ 0 ∧ max_method_name < line.method.length) := by
    have hfits := h.method_fits
    omega
  have hbefore : (string_find m [cr] (line.method ++ space :: rest).length p).any
      (· < p + line.method.length) = false := lineend_not_before hmethod hcr (Nat.le_refl _)
  have htoken := is_token_string_of hmethod h.method.1 h.method.2
  have hrest : (line.method ++ space :: rest).length - line.method.length - 1 = rest.length := by omega
  simp only [parse_request_line, hskip, hfind, hback, if_neg hfits, hbefore, htoken, hrest]
  simp

theorem parse_uri {lineend : Option Nat} {method : Pointer} (hm : Holds m p (line.uri ++ space :: rest))
    (hlineend : lineend.any (· < p + line.uri.length) = false) :
    request_uri inet_pton m lineend method p (line.uri ++ space :: rest).length =
      if ov_uri_string_is_valid inet_pton line.uri then
        request_version m method ⟨p, line.uri.length⟩ (p + line.uri.length + 1) rest.length
      else .error := by
  obtain ⟨hspace, -⟩ := h.uri_clear
  have hlength : (line.uri ++ space :: rest).length = line.uri.length + 1 + rest.length := by
    simp
    omega
  have hone : ¬ (line.uri ++ space :: rest).length < 1 := by omega
  have hfind : find m space (line.uri ++ space :: rest).length p = some (p + line.uri.length) :=
    find_eq hm hspace (by omega)
  have hback : p + line.uri.length - p = line.uri.length := by omega
  have hfits : ¬ path_max < line.uri.length := Nat.not_lt.mpr h.uri_fits
  have hread : read m p line.uri.length = line.uri := (hm.shorter ⟨_, rfl⟩).read
  have hrest : (line.uri ++ space :: rest).length - line.uri.length - 1 = rest.length := by omega
  simp only [request_uri, if_neg hone, hfind, hback, if_neg hfits, hlineend, hread, hrest]
  cases ov_uri_string_is_valid inet_pton line.uri <;> simp

theorem parse_method_cut (hs : s <+: line.method) (hm : Holds m p s) :
    parse_request_line inet_pton m max_method_name p s.length =
      if max_method_name ≠ 0 ∧ max_method_name ≤ s.length then .error else .progress := by
  have hspace : space ∉ s := fun hmem => h.method_clear.1 (hs.mem hmem)
  have hcr : cr ∉ s := fun hmem => h.method_clear.2 (hs.mem hmem)
  have hskip : skip_whitespace m p s.length p = (p, s.length) := by
    cases s with
    | nil => rfl
    | cons c s => exact h.skip_method hs (cons_ne_nil c s) hm
  have hfind : find m space s.length p = none := find_none hm hspace (Nat.le_refl _)
  simp only [parse_request_line, hskip, hfind, lineend_eq_none hm hcr]
  simp

theorem parse_uri_cut {method : Pointer} (hs : s <+: line.uri)
    (hm : Holds m p s) : request_uri inet_pton m none method p s.length = .progress := by
  have hspace : space ∉ s := fun hmem => h.uri_clear.1 (hs.mem hmem)
  have hfind : find m space s.length p = none := find_none hm hspace (Nat.le_refl _)
  have hfits : ¬ path_max < s.length := Nat.not_lt.mpr (hs.length_le.trans h.uri_fits)
  simp [request_uri, hfind, if_neg hfits]

theorem lineend_behind_uri
    (hm : Holds m p (line.method ++ space :: (line.uri ++ rest))) :
    (string_find m [cr] size p).any (· < p + line.method.length + 1 + line.uri.length) = false := by
  refine lineend_not_before (s := line.method ++ space :: line.uri) ?_ ?_ ?_
  · exact hm.shorter ⟨rest, by simp⟩
  · rw [mem_append, mem_cons, not_or, not_or]
    exact ⟨h.method_clear.2, by decide, h.uri_clear.2⟩
  simp
  omega

theorem request_version_single {method uri : Pointer}
    {value : Request × Nat} (hm : Holds m p (line.version_text ++ crlf))
    (hparse : request_version m method uri p (line.version_text ++ crlf ++ b).length = .success value) :
    line.major.length = 1 ∧ line.minor.length = 1 := by
  obtain ⟨hmajor, hdigits⟩ := h.major
  obtain ⟨hminor, hdigits'⟩ := h.minor
  rw [RequestLine.version_text] at hm hparse
  cases hd : line.major with
  | nil => exact absurd hd hmajor
  | cons d ds =>
    cases he : line.minor with
    | nil => exact absurd he hminor
    | cons e es =>
      rw [hd] at hm hparse hdigits
      rw [he] at hm hparse hdigits'
      have hsize : 10 ≤ (http_slash ++ (d :: ds ++ dot :: e :: es) ++ crlf ++ b).length := by
        simp [http_slash, crlf]
        omega
      have hdigit := hdigits d mem_cons_self
      have hdigit' := hdigits' e mem_cons_self
      cases ds with
      | cons d' ds =>
        have hne := (is_digit_facts d' (hdigits d' (by simp))).1
        have herror : parse_version m p _ = .error :=
          parse_version_long (hm.shorter ⟨ds ++ dot :: e :: es ++ crlf, by simp⟩) hne hdigit
            ((by omega : 8 ≤ 10).trans hsize)
        rw [request_version, herror, if_neg (by omega)] at hparse
        cases hparse
      | nil =>
        cases es with
        | nil => exact ⟨rfl, rfl⟩
        | cons e' es =>
          have hne := (is_digit_facts e' (hdigits' e' (by simp))).2.1
          have hversion : parse_version m p _ = .success ⟨d - 48, e - 48⟩ :=
            parse_version_of (hm.shorter ⟨e' :: es ++ crlf, by simp⟩) hdigit hdigit'
              ((by omega : 8 ≤ 10).trans hsize)
          have hbehind : m (p + 8) = e' := by
            have hlonger := hm.shorter (a := http_slash ++ [d, dot, e] ++ [e']) ⟨es ++ crlf, by simp⟩
            exact (holds_append.mp hlonger).2.1
          rw [request_version, hversion, if_neg (by omega)] at hparse
          simp only [hbehind, if_pos hne, if_neg (Nat.not_lt.mpr hsize)] at hparse
          cases hparse

end

/-- When the reader does what it is to do with a line. -/
structure RequestLine.Readable (inet_pton : Family → List Byte → Bool) (max_method_name : Nat)
    (line : RequestLine) : Prop where
  method : max_method_name = 0 ∨ line.method.length < max_method_name
  uri : ov_uri_string_is_valid inet_pton line.uri = true
  major : line.major.length = 1
  minor : line.minor.length = 1

theorem RequestLine.Readable.digits (hread : line.Readable inet_pton max_method_name)
    (h : line.Legal max_method_name) : ∃ d e, line.major = [d] ∧ line.minor = [e] ∧
      is_digit d = true ∧ is_digit e = true := by
  obtain ⟨d, hd⟩ := length_eq_one_iff.mp hread.major
  obtain ⟨e, he⟩ := length_eq_one_iff.mp hread.minor
  exact ⟨d, e, hd, he, h.major.2 d (by simp [hd]), h.minor.2 e (by simp [he])⟩

theorem version_digit {d : Byte} (h : is_digit d = true) : BitVec.ofNat 8 (cstring.value [d]) = d - 48 := by
  have hvalue : cstring.value [d] = d.toNat - 48 := by simp [cstring.value]
  rw [hvalue]
  exact (is_digit_facts d h).2.2

section

variable (hread : line.Readable inet_pton max_method_name)

include hread

theorem RequestLine.Readable.success
    (h : line.Legal max_method_name) {following : List Byte} (hm : Holds m p (line.text ++ following)) :
    parse_request_line inet_pton m max_method_name p (line.text ++ following).length =
      .success (line.request p, p + line.text.length) := by
  obtain ⟨d, e, hd, he, hdigit, hdigit'⟩ := hread.digits h
  have htext : line.text ++ following = line.method ++ space :: (line.uri ++ space ::
      (http_slash ++ [d, dot, e] ++ crlf ++ following)) := by
    simp [RequestLine.text, RequestLine.version_text, hd, he]
  have hlength : line.text.length = line.method.length + 1 + (line.uri.length + 1 + 10) := by
    simp [RequestLine.text, RequestLine.version_text, hd, he, http_slash, crlf]
    omega
  rw [htext] at hm ⊢
  rw [hlength]
  obtain ⟨-, -, huri⟩ := holds_append.mp hm
  obtain ⟨-, -, hversion⟩ := holds_append.mp huri
  have hsize : 10 ≤ (http_slash ++ [d, dot, e] ++ crlf ++ following).length := by simp [http_slash, crlf]
  rw [parse_method h hm, parse_uri h huri (lineend_behind_uri h hm), if_pos hread.uri,
    request_version_of (hversion.shorter ⟨following, rfl⟩) hdigit hdigit' hsize]
  simp only [RequestLine.request, hd, he, version_digit hdigit, version_digit hdigit']
  congr 2
  omega

theorem RequestLine.Readable.progress
    (h : line.Legal max_method_name) (hs : s <+: line.text) (hne : s ≠ line.text) (hm : Holds m p s) :
    parse_request_line inet_pton m max_method_name p s.length = .progress := by
  obtain ⟨d, e, hd, he, hdigit, hdigit'⟩ := hread.digits h
  have htext : line.text = line.method ++ space :: (line.uri ++ space ::
      (http_slash ++ [d, dot, e] ++ crlf)) := by
    simp [RequestLine.text, RequestLine.version_text, hd, he]
  rw [htext] at hs hne
  obtain hs | ⟨rest, rfl, hrest⟩ := cut_cases hs
  · have hlimit := hread.method
    have hle := hs.length_le
    rw [parse_method_cut h hs hm, if_neg (by omega)]
  obtain ⟨hmethod, -, huri⟩ := holds_append.mp hm
  rw [parse_method h hm]
  obtain hrest | ⟨behind, rfl, hbehind⟩ := cut_cases hrest
  · have hcr : cr ∉ line.method ++ space :: rest := by
      rw [mem_append, mem_cons, not_or, not_or]
      exact ⟨h.method_clear.2, by decide, fun hmem => h.uri_clear.2 (hrest.mem hmem)⟩
    rw [lineend_eq_none hm hcr]
    exact parse_uri_cut h hrest huri
  obtain ⟨-, -, hversion⟩ := holds_append.mp huri
  have hlength : behind.length < 10 := by
    have hle := hbehind.length_le
    have hwhole : (http_slash ++ [d, dot, e] ++ crlf).length = 10 := rfl
    have hnot : behind.length ≠ 10 := by
      intro heq
      rw [hbehind.eq_of_length (heq.trans hwhole.symm)] at hne
      exact hne rfl
    omega
  rw [parse_uri h huri (lineend_behind_uri h hm), if_pos hread.uri]
  exact request_version_cut hversion hbehind hlength hdigit hdigit'

theorem RequestLine.Readable.exact
    (h : line.Legal max_method_name) : line.Exact inet_pton max_method_name where
  success _ _ _ hm := hread.success h hm
  progress _ _ _ hs hne hm := hread.progress h hs hne hm
  independent m m' p s _ hs hm hm' := by
    obtain ⟨rest, rfl⟩ | ⟨hpart, hne⟩ := part_or_whole hs
    · rw [hread.success h hm, hread.success h hm']
    · rw [hread.progress h hpart hne hm, hread.progress h hpart hne hm']

end

theorem RequestLine.Exact.readable (hexact : line.Exact inet_pton max_method_name)
    (h : line.Legal max_method_name) : line.Readable inet_pton max_method_name := by
  have hmethod : max_method_name = 0 ∨ line.method.length < max_method_name := by
    by_contra hlong
    have hprefix : line.method <+: line.text := ⟨_, rfl⟩
    have hne : line.method ≠ line.text := by
      intro heq
      have hlength := congrArg List.length heq
      simp [RequestLine.text] at hlength
    have hm := holds_of line.method (fun _ => 0)
    have hprogress := hexact.progress _ 0 _ hprefix hne hm
    rw [parse_method_cut h (prefix_refl _) hm, if_pos (by omega)] at hprogress
    cases hprogress
  have hm : Holds (of (line.text ++ []) fun _ => 0) 0 (line.text ++ []) := holds_of _ _
  have hsuccess := hexact.success _ 0 [] hm
  have htext : line.text ++ [] = line.method ++ space :: (line.uri ++ space ::
      (line.version_text ++ crlf)) := List.append_nil _
  rw [htext] at hm hsuccess
  obtain ⟨-, -, huri⟩ := holds_append.mp hm
  obtain ⟨-, -, hversion⟩ := holds_append.mp huri
  rw [parse_method h hm, parse_uri h huri (lineend_behind_uri h hm)] at hsuccess
  by_cases hvalid : ov_uri_string_is_valid inet_pton line.uri = true
  · rw [if_pos hvalid] at hsuccess
    obtain ⟨hmajor, hminor⟩ := request_version_single (b := []) h hversion (by simpa using hsuccess)
    exact ⟨hmethod, hvalid, hmajor, hminor⟩
  rw [if_neg hvalid] at hsuccess
  cases hsuccess

theorem request_line_exact_iff (h : line.Legal max_method_name) :
    line.Exact inet_pton max_method_name ↔ line.Readable inet_pton max_method_name :=
  ⟨fun hexact => hexact.readable h, fun hread => hread.exact h⟩

end openvocs.http
