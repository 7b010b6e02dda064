import Openvocs.Lib.Strtod

namespace openvocs.uri

open cstring

/-- `ov_uri`. A query and a fragment have their first octet with them. -/
structure Uri where
  scheme : Option (List Byte) := none
  path : Option (List Byte) := none
  user : Option (List Byte) := none
  host : Option (List Byte) := none
  port : Nat := 0
  query : Option (List Byte) := none
  fragment : Option (List Byte) := none
deriving DecidableEq

def colon : Byte := 58
def slash : Byte := 47
def question : Byte := 63
def hash : Byte := 35
def at_sign : Byte := 64
def percent : Byte := 37
def open_bracket : Byte := 91
def close_bracket : Byte := 93
def letter_v : Byte := 118
def dot : Byte := 46

def is_alpha (c : Byte) : Bool := (65 ≤ c.toNat && c.toNat ≤ 90) || (97 ≤ c.toNat && c.toNat ≤ 122)

def is_alnum (c : Byte) : Bool := is_alpha c || is_digit c

def char_is_unreserved (c : Byte) : Bool := is_alnum c || c = 45 || c = 46 || c = 95 || c = 126

def char_is_reserved_general_delimiter (c : Byte) : Bool :=
  c = 58 || c = 47 || c = 63 || c = 35 || c = 91 || c = 93 || c = 64

def char_is_reserved_sub_delimiter (c : Byte) : Bool :=
  c = 33 || c = 36 || c = 38 || c = 39 || c = 40 || c = 41 || c = 42 || c = 43 || c = 44 || c = 59 || c = 61

def char_is_reserved (c : Byte) : Bool :=
  char_is_reserved_general_delimiter c || char_is_reserved_sub_delimiter c

/-- Octets of a kind, each of which may be written with a percent sign and two digits. -/
def chars_are (ok : Byte → Bool) : List Byte → Bool
  | [] => true
  | c :: s =>
    if c = percent then
      match s with
      | a :: b :: rest => is_hex_digit a && is_hex_digit b && chars_are ok rest
      | _ => false
    else ok c && chars_are ok s

def chars_are_allowed (s : List Byte) : Bool :=
  s ≠ [] && chars_are (fun c => char_is_reserved c || char_is_unreserved c) s

def char_is_scheme (c : Byte) : Bool := c = 43 || c = 45 || c = 46 || is_alnum c

/-- `chars_are_scheme`, for a string that ends or is followed by a colon. -/
def chars_are_scheme (s : List Byte) : Bool :=
  match s with
  | [] => false
  | c :: _ => is_alpha c && s.all char_is_scheme

def char_is_user (c : Byte) : Bool := c = 58 || char_is_unreserved c || char_is_reserved_sub_delimiter c

def chars_are_user (s : List Byte) : Bool := s ≠ [] && chars_are char_is_user s

def char_is_reg_name (c : Byte) : Bool := char_is_unreserved c || char_is_reserved_sub_delimiter c

/-- `chars_are_reg_name`. A percent sign at the end is followed by a delimiter, which is no digit. -/
def chars_are_reg_name (s : List Byte) : Bool := chars_are char_is_reg_name s

def char_is_path (colons : Bool) (c : Byte) : Bool :=
  (colons && c = 58) || c = 64 || char_is_unreserved c || char_is_reserved_sub_delimiter c

def chars_are_path_chars (s : List Byte) (colons : Bool) : Bool := s ≠ [] && chars_are (char_is_path colons) s

def chars_are_ip_future : List Byte → Bool
  | v :: digit :: point :: c :: s =>
    (v = 118 || v = 86) && is_hex_digit digit && point = dot && (c :: s).all char_is_user
  | _ => false

inductive Family where
  | inet
  | inet6
deriving DecidableEq

section

-- the addresses that `inet_pton` reads
variable (inet_pton : Family → List Byte → Bool)

def chars_are_ip (type : Family) (s : List Byte) : Bool := 2 ≤ s.length && inet_pton type s

def chars_are_ip_literal (s : List Byte) : Bool :=
  4 ≤ s.length && s.head? = some open_bracket && s.getLast? = some close_bracket &&
    (chars_are_ip inet_pton .inet6 s.tail.dropLast || chars_are_ip_future s.tail.dropLast)

/-- `chars_are_host`, for a string that ends. -/
def chars_are_host (s : List Byte) : Bool :=
  s ≠ [] && (chars_are_ip_literal inet_pton s || chars_are_ip inet_pton .inet s || chars_are_reg_name s)

/-- The scheme and what is behind its colon. It is empty where there is none. -/
def mask_scheme (s : List Byte) : List Byte × List Byte :=
  if colon ∈ s ∧ chars_are_scheme (s.takeWhile (· ≠ colon)) then
    (s.takeWhile (· ≠ colon), (s.dropWhile (· ≠ colon)).tail)
  else ([], s)

/-- The user and what is behind it. The sign is searched in all that is left. -/
def mask_user (s : List Byte) : Option (List Byte × List Byte) :=
  if at_sign ∈ s then
    if chars_are_user (s.takeWhile (· ≠ at_sign)) then
      some (s.takeWhile (· ≠ at_sign), (s.dropWhile (· ≠ at_sign)).tail)
    else none
  else some ([], s)

/-- The branch of `mask_host` for hosts with the letter v. -/
def mask_ip_future (s : List Byte) : Option (List Byte × List Byte) :=
  if 3 < s.length then none
  else
    match s with
    | v :: digit :: point :: rest =>
      if is_hex_digit digit ∧ point = dot then
        let host := v :: digit :: (point :: rest).takeWhile char_is_user
        if chars_are_ip_future host then some (host, (point :: rest).dropWhile char_is_user) else none
      else none
    | _ => none

def mask_host (s : List Byte) : Option (List Byte × List Byte) :=
  match s with
  | [] => some ([], [])
  | c :: _ =>
    if c = open_bracket then
      if close_bracket ∈ s then
        let host := s.takeWhile (· ≠ close_bracket) ++ [close_bracket]
        if chars_are_ip_literal inet_pton host then some (host, (s.dropWhile (· ≠ close_bracket)).tail) else none
      else none
    else if c = letter_v then mask_ip_future s
    else
      let host := s.takeWhile fun c => !char_is_reserved_general_delimiter c
      if chars_are_ip inet_pton .inet host || chars_are_reg_name host then
        some (host, s.dropWhile fun c => !char_is_reserved_general_delimiter c)
      else none

/-- The port that is written to the identifier, if any, and what is behind it. -/
def mask_port (s : List Byte) : Option (Option Nat × List Byte) :=
  match s with
  | [] => some (none, [])
  | c :: rest =>
    if c ≠ colon then some (none, s)
    else if rest = [] then none
    else
      -- `strtoll` stops where it starts if there is no number
      let (number, next) := (strtol rest).getD (0, rest)
      if number < 0 ∨ 65535 < number then none else some (some number.toNat, next)

end

def is_major_delimiter (c : Byte) : Bool := c = 47 || c = 63 || c = 35

/-- The segments between the delimiters, the last one up to the next major delimiter. A colon is
    always allowed in the last one. -/
def check_segments (colons : Bool) : List (List Byte) → Option (List Byte)
  | [] => none
  | [last] =>
    let item := last.takeWhile fun c => !is_major_delimiter c
    if item = [] ∨ chars_are_path_chars item true then some (last.dropWhile fun c => !is_major_delimiter c) else none
  | segment :: more => if chars_are_path_chars segment colons then check_segments true more else none

/-- `check_with_delimiter`. The delimiter is searched in all that is left. -/
def check_with_delimiter (s : List Byte) (delimiter : Byte) (colons : Bool) : Option (List Byte) :=
  check_segments colons (s.splitOn delimiter)

def check_path (s : List Byte) (colons : Bool) : Option (List Byte) := check_with_delimiter s slash colons

/-- A part of the input that ends where the next part begins. -/
def before (s next : List Byte) : List Byte := s.take (s.length - next.length)

/-- The identifier with what was written to it, and what is left unless there was an error. -/
abbrev Result := Uri × Option (List Byte)

/-- A path that goes up to the end of a check. -/
def set_path (u : Uri) (s : List Byte) : Option (List Byte) → Result
  | none => (u, none)
  | some next => ({ u with path := some (before s next) }, some next)

def check_path_absolute (u : Uri) (s : List Byte) : Result :=
  match s with
  | [] => (u, none)
  | c :: rest =>
    if c ≠ slash ∨ rest.head? = some slash then (u, none) else set_path u s (check_path rest true)

/-- What is behind an authority. The path may be empty. -/
def path_behind (u : Uri) (s : List Byte) : Result :=
  match s with
  | [] => (u, some [])
  | c :: _ => if c = question ∨ c = hash then (u, some s) else check_path_absolute u s

section

variable (inet_pton : Family → List Byte → Bool)

/-- What `check_with_authority` and `check_path_with_authority` have in common. -/
def authority (u : Uri) (s : List Byte) : Result :=
  match mask_user s with
  | none => (u, none)
  | some (user, s) =>
    let u := if user = [] then u else { u with user := some user }
    match mask_host inet_pton s with
    | none => (u, none)
    | some (host, s) =>
      let u := if host = [] then u else { u with host := some host }
      match mask_port s with
      | none => (u, none)
      | some (port, s) => path_behind { u with port := port.getD u.port } s

def check_with_authority (u : Uri) (s : List Byte) : Result :=
  if s.length < 2 then (u, none) else authority inet_pton u s

def check_path_with_authority (u : Uri) (s : List Byte) : Result :=
  match s with
  | a :: b :: rest => if a ≠ slash ∨ b ≠ slash then (u, none) else authority inet_pton u rest
  | _ => (u, none)

/-- `check_path_rootless`. What the attempt with an authority has written stays. -/
def check_path_rootless (u : Uri) (s : List Byte) : Result :=
  if s = [] ∨ s.head? = some slash then (u, none)
  else
    match check_with_authority inet_pton u s with
    | (u, some next) => (u, some next)
    | (u, none) => set_path u s (check_path s true)

def check_path_no_scheme (u : Uri) (s : List Byte) : Result :=
  if s = [] ∨ s.head? = some slash then (u, none) else set_path u s (check_path s false)

/-- A path that begins with a slash. -/
def check_rooted (u : Uri) (s : List Byte) : Result :=
  match check_path_absolute u s with
  | (u, some next) => (u, some next)
  | (u, none) => check_path_with_authority inet_pton u s

def check_hierarchical_path (u : Uri) (s : List Byte) : Result :=
  match s with
  | [] => (u, some [])
  | c :: _ =>
    if c = slash then check_rooted inet_pton u s
    else if c = question then (u, some s)
    else check_path_rootless inet_pton u s

def check_relative_path (u : Uri) (s : List Byte) : Result :=
  match s with
  | [] => (u, some [])
  | c :: _ =>
    if c = slash then check_rooted inet_pton u s
    else if c = question ∨ c = hash then (u, some s)
    else check_path_no_scheme u s

/-- The identifier and what is left behind a query. -/
def parse_query (u : Uri) (s : List Byte) : Result :=
  match check_with_delimiter s.tail question true with
  | none => (u, none)
  | some next => ({ u with query := some (before s next) }, some next)

def parse_fragment (u : Uri) (s : List Byte) : Result :=
  match check_with_delimiter s.tail hash true with
  | none => (u, none)
  | some next => ({ u with fragment := some (before s next) }, some next)

/-- The identifier if nothing is left. -/
def complete : Result → Option Uri
  | (u, some []) => some u
  | _ => none

/-- What is behind the path of an absolute identifier. -/
def parse_absolute_end (u : Uri) (s : List Byte) : Option Uri :=
  match s with
  | [] => some u
  | c :: _ => if c ≠ question then none else complete (parse_query u s)

def parse_uri_string_absolute (s : List Byte) : Option Uri :=
  if !chars_are_allowed s then none
  else
    let (scheme, s) := mask_scheme s
    if scheme = [] then none
    else
      match check_hierarchical_path inet_pton { scheme := some scheme } s with
      | (_, none) => none
      | (u, some s) => parse_absolute_end u s

/-- What is behind the path and the query of a reference. -/
def parse_fragment_end (u : Uri) (s : List Byte) : Option Uri :=
  match s with
  | [] => some u
  | c :: _ => if c ≠ hash then none else complete (parse_fragment u s)

/-- What is behind the path of a reference. -/
def parse_reference_end (u : Uri) (s : List Byte) : Option Uri :=
  if s.head? = some question then
    match parse_query u s with
    | (_, none) => none
    | (u, some s) => parse_fragment_end u s
  else parse_fragment_end u s

def parse_uri_string_reference (s : List Byte) : Option Uri :=
  if !chars_are_allowed s then none
  else
    let (scheme, s) := mask_scheme s
    match check_relative_path inet_pton { scheme := if scheme = [] then none else some scheme } s with
    | (_, none) => none
    | (u, some s) => parse_reference_end u s

def ov_uri_string_is_absolute (s : List Byte) : Bool := (parse_uri_string_absolute inet_pton s).isSome

def ov_uri_string_is_reference (s : List Byte) : Bool := (parse_uri_string_reference inet_pton s).isSome

def ov_uri_string_is_valid (s : List Byte) : Bool :=
  ov_uri_string_is_absolute inet_pton s || ov_uri_string_is_reference inet_pton s

def ov_uri_from_string (s : List Byte) : Option Uri :=
  (parse_uri_string_absolute inet_pton s).or (parse_uri_string_reference inet_pton s)

/-- The length of a part, or of none. -/
def part_length (part : Option (List Byte)) (more : Nat) : Nat := (part.map fun s => s.length + more).getD 0

/-- The first octet of a query or a fragment, and the check of what is behind it. -/
def part_is_valid (first : Byte) (part : Option (List Byte)) : Bool :=
  part.all fun s => s.head? = some first && (check_with_delimiter s.tail first true).isSome

/-- `ov_uri_string_length`. It is zero for a part that is not valid. -/
def ov_uri_string_length (u : Uri) : Nat :=
  if u.scheme.all chars_are_scheme && u.user.all chars_are_user && u.host.all (chars_are_host inet_pton) &&
      part_is_valid question u.query && part_is_valid hash u.fragment then
    part_length u.scheme 1 + (if u.host ≠ none ∨ u.user ≠ none ∨ u.port ≠ 0 then 2 else 0) + part_length u.user 1 +
      part_length u.host 0 + (if u.port ≠ 0 then 6 else 0) + part_length u.path 0 + part_length u.query 0 +
      part_length u.fragment 0 + 1
  else 0

end

/-- What is written to the memory, and how far the pointer has moved. -/
structure Output where
  text : List Byte
  count : Nat

/-- What is left of the length, which is a number of 64 bits. -/
def room (length count : Nat) : Nat := if count ≤ length then length - count else length + 2 ^ 64 - count

/-- `snprintf` with what is left of the length. Nothing written is an error. -/
def snprintf (length : Nat) (out : Output) (s : List Byte) : Option Output :=
  if s = [] then none else some ⟨out.text ++ s.take (room length out.count - 1), out.count + s.length⟩

/-- A part that is written if it is there. -/
def write_part (length : Nat) (part : Option (List Byte)) (out : Output) : Option Output :=
  match part with
  | none => some out
  | some s => snprintf length out s

/-- The texts that `ov_uri_to_string` writes. -/
def parts (u : Uri) : List (Option (List Byte)) :=
  [u.scheme.map (· ++ [colon]), if u.user ≠ none ∨ u.host ≠ none ∨ 0 < u.port then some [slash, slash] else none,
    u.user.map (· ++ [at_sign]), u.host, if u.port ≠ 0 then some (colon :: decimal u.port) else none, u.path,
    u.query, u.fragment]

def write_parts (length : Nat) : List (Option (List Byte)) → Output → Option Output
  | [], out => some out
  | part :: more, out => (write_part length part out).bind (write_parts length more)

def ov_uri_to_string (inet_pton : Family → List Byte → Bool) (u : Uri) : Option (List Byte) :=
  if ov_uri_string_length inet_pton u = 0 then none
  else (write_parts (ov_uri_string_length inet_pton u) (parts u) ⟨[], 0⟩).map Output.text

end openvocs.uri
