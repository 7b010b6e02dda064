import Openvocs.Ice.CandidateText

open List Option

namespace openvocs.candidate

open cstring

variable {w s rest : List Byte}

theorem split_space_append (hw : space ∉ w) (rest : List Byte) :
    split_space (w ++ space :: rest) = some (w, rest) := by
  have hne : ∀ c ∈ w, decide (c ≠ space) = true := by
    intro c hc
    rw [decide_eq_true_eq]
    rintro rfl
    exact hw hc
  have htake : (w ++ space :: rest).takeWhile (· ≠ space) = w := by
    rw [takeWhile_append_of_pos hne]
    simp
  have hdrop : (w ++ space :: rest).dropWhile (· ≠ space) = space :: rest := by
    rw [dropWhile_append_of_pos hne]
    simp
  simp only [split_space, htake, hdrop]

theorem split_space_none (hw : space ∉ w) : split_space w = none := by
  have hdrop : w.dropWhile (· ≠ space) = [] := by
    rw [dropWhile_eq_nil_iff]
    intro c hc
    rw [decide_eq_true_eq]
    rintro rfl
    exact hw hc
  simp only [split_space, hdrop]

theorem accept_append (hw : space ∉ w) (rest : List Byte) (ok : List Byte → Bool) :
    accept ok (w ++ space :: rest) = if ok w then some (w, rest) else none := by
  rw [accept, split_space_append hw, filter_some]

theorem accept_bind {α : Type} {ok : List Byte → Bool} (hw : space ∉ w) (hok : ok w = true) (rest : List Byte)
    (f : List Byte × List Byte → Option α) : (accept ok (w ++ space :: rest) >>= f) = f (w, rest) := by
  rw [accept_append hw, if_pos hok]
  rfl

theorem accept_bind_none {α : Type} {ok : List Byte → Bool} (hw : space ∉ w) (hok : ok w = false) (rest : List Byte)
    (f : List Byte × List Byte → Option α) : (accept ok (w ++ space :: rest) >>= f) = none := by
  rw [accept_append hw, hok]
  rfl

theorem some_bind {α β : Type} (x : α) (f : α → Option β) : (some x >>= f) = f x := rfl

theorem eq_of_split_space (h : split_space s = some (w, rest)) : s = w ++ space :: rest := by
  rw [split_space] at h
  cases hdrop : s.dropWhile (· ≠ space) with
  | nil =>
    rw [hdrop] at h
    simp at h
  | cons c more =>
    rw [hdrop] at h
    simp only [some.injEq, Prod.mk.injEq] at h
    have hc : c = space := by
      have hhead := head?_dropWhile_not (· ≠ space) s
      rw [hdrop] at hhead
      simpa using hhead
    rw [hc] at hdrop
    rw [← h.1, ← h.2, ← hdrop]
    exact takeWhile_append_dropWhile.symm

theorem not_mem_of_all {p : Byte → Bool} (h : w.all p = true) (hp : p space = false) : space ∉ w := by
  intro hmem
  rw [List.all_eq_true] at h
  rw [h space hmem] at hp
  simp at hp

theorem not_mem_decimal (n : Nat) : space ∉ decimal n := by
  intro hmem
  have hdigit := (isNumber_decimal n).2 space hmem
  simp [is_digit, space] at hdigit

theorem to_uint_of_number (h : IsNumber w) (hlt : value w < 2 ^ 62) : to_uint 64 w = some (value w) := by
  have hread := strtol_digits h (fun c (hc : c ∈ ([] : List Byte).head?) => by simp at hc)
  rw [List.append_nil] at hread
  have hclamp : clamp (value w) = value w := by
    rw [clamp]
    omega
  rw [to_uint, hread, hclamp]
  simp only
  rw [if_pos (by omega)]
  simp

theorem to_uint_of_decimal {n : Nat} (h : n < 2 ^ 62) : to_uint 64 (decimal n) = some n := by
  have hread := to_uint_of_number (isNumber_decimal n)
  rw [value_decimal] at hread
  exact hread h

theorem value_lt {digits : List Byte} (h : ∀ c ∈ digits, is_digit c = true) :
    value digits < 10 ^ digits.length := by
  induction digits using List.reverseRecOn with
  | nil => simp [value]
  | append_singleton digits c ih =>
    have hc := h c (by simp)
    simp only [is_digit, Bool.and_eq_true, decide_eq_true_eq] at hc
    have hrest := ih fun d hd => h d (by simp [hd])
    have hvalue : value (digits ++ [c]) = 10 * value digits + (c.toNat - 48) := by simp [value]
    rw [hvalue, length_append, length_singleton, Nat.pow_succ]
    omega

theorem length_decimal_le_of_to_uint {bits n : Nat} (h : to_uint bits s = some n) :
    (decimal n).length ≤ s.length := by
  rw [to_uint] at h
  split at h
  · rename_i number hread
    split at h
    · rename_i hrange
      simp only [some.injEq] at h
      rw [strtol] at hread
      generalize hsign : sign (s.dropWhile is_space) = signed at hread
      obtain ⟨negative, digits⟩ := signed
      simp only at hread
      split at hread
      · simp at hread
      rename_i hne
      simp only [some.injEq, Prod.mk.injEq] at hread
      have hlength : (digits.takeWhile is_digit).length ≤ s.length := by
        have htake : (digits.takeWhile is_digit).length ≤ digits.length := (takeWhile_sublist _).length_le
        have hdrop : (s.dropWhile is_space).length ≤ s.length := (dropWhile_sublist _).length_le
        have hrest : digits.length ≤ (s.dropWhile is_space).length := by
          cases hcase : s.dropWhile is_space with
          | nil =>
            rw [hcase, sign, Prod.mk.injEq] at hsign
            simp [← hsign.2]
          | cons c more =>
            rw [hcase, sign] at hsign
            split at hsign
            · rw [Prod.mk.injEq] at hsign
              simp [← hsign.2]
            split at hsign
            · rw [Prod.mk.injEq] at hsign
              simp [← hsign.2]
            rw [Prod.mk.injEq] at hsign
            simp [← hsign.2]
        omega
      have hvalue : n ≤ value (digits.takeWhile is_digit) := by
        have hclamp := hread.1
        rw [clamp] at hclamp
        split at hclamp <;> omega
      have hlt : value (digits.takeWhile is_digit) < 10 ^ (digits.takeWhile is_digit).length :=
        value_lt fun c hc => mem_takeWhile_imp hc
      have hpos : 0 < (digits.takeWhile is_digit).length := length_pos_of_ne_nil hne
      exact (length_decimal_le hpos (by omega)).trans hlength
    · simp at h
  · simp at h

theorem length_decimal_mono {m n : Nat} (h : m ≤ n) : (decimal m).length ≤ (decimal n).length := by
  have hpos : 0 < (decimal n).length := length_pos_of_ne_nil (isNumber_decimal n).1
  apply length_decimal_le hpos
  have hlt := value_lt (isNumber_decimal n).2
  rw [value_decimal] at hlt
  omega

/-- A name or a value of an extension. -/
def IsToken (w : List Byte) : Prop := w ≠ [] ∧ space ∉ w ∧ 0 ∉ w

instance (w : List Byte) : Decidable (IsToken w) := inferInstanceAs (Decidable (_ ∧ _ ∧ _))

/-- Extensions without the space in front of the first. -/
def extension_text : List (List Byte × List Byte) → List Byte
  | [] => []
  | e :: ext => e.1 ++ space :: (e.2 ++ (ext.map extension_part).flatten)

theorem flatten_extension_parts (ext : List (List Byte × List Byte)) :
    (ext.map extension_part).flatten = if ext = [] then [] else space :: extension_text ext := by
  cases ext with
  | nil => rfl
  | cons e ext => simp [extension_text, extension_part]

variable {ext : List (List Byte × List Byte)}

theorem parse_extensions_eq (hext : ∀ e ∈ ext, IsToken e.1 ∧ IsToken e.2) (hne : ext ≠ []) {rounds : Nat}
    (hrounds : ext.length ≤ rounds) : parse_extensions rounds (extension_text ext) = some ext := by
  induction ext generalizing rounds with
  | nil => simp at hne
  | cons e ext ih =>
    obtain ⟨hkey, hval⟩ := hext e (by simp)
    have hkeyPos := length_pos_of_ne_nil hkey.1
    have hvalPos := length_pos_of_ne_nil hval.1
    cases rounds with
    | zero => simp at hrounds
    | succ rounds =>
      rw [extension_text, flatten_extension_parts, parse_extensions, split_space_append hkey.2.1]
      by_cases hlast : ext = []
      · simp only [hlast, if_true, List.append_nil, split_space_none hval.2.1]
        rw [if_neg (by omega)]
      simp only [hlast, if_false, split_space_append hval.2.1]
      rw [if_neg (by omega), ih (fun x hx => hext x (by simp [hx])) hlast (by simpa using hrounds)]
      rfl

theorem length_ext_le_text (ext : List (List Byte × List Byte)) : ext.length ≤ (extension_text ext).length := by
  induction ext with
  | nil => simp
  | cons e ext ih =>
    rw [extension_text, flatten_extension_parts]
    split
    · rename_i hnil
      simp [hnil]
      omega
    simp only [length_append, length_cons]
    omega

theorem parse_rest_eq
    (hext : ∀ e ∈ ext, IsToken e.1 ∧ IsToken e.2) : parse_rest (extension_text ext) = some ext := by
  cases ext with
  | nil => rfl
  | cons e ext =>
    have hsplit : (split_space (extension_text (e :: ext))).isSome = true := by
      rw [extension_text, split_space_append (hext e (by simp)).1.2.1]
      rfl
    rw [parse_rest, if_pos hsplit]
    exact parse_extensions_eq hext (by simp) (length_ext_le_text _)

theorem length_of_parse_extensions {rounds : Nat}
    (h : parse_extensions rounds s = some ext) : (ext.map extension_part).flatten.length ≤ s.length + 1 := by
  induction rounds generalizing s ext with
  | zero => simp [parse_extensions] at h
  | succ rounds ih =>
    rw [parse_extensions] at h
    cases hkey : split_space s with
    | none =>
      rw [hkey] at h
      simp at h
    | some found =>
      obtain ⟨key, rest⟩ := found
      have hs := eq_of_split_space hkey
      rw [hkey] at h
      simp only at h
      cases hval : split_space rest with
      | none =>
        rw [hval] at h
        simp only at h
        split at h
        · simp at h
        simp only [some.injEq] at h
        rw [← h, hs]
        simp [extension_part]
      | some found =>
        obtain ⟨val, more⟩ := found
        have hrest := eq_of_split_space hval
        rw [hval] at h
        simp only at h
        split at h
        · simp at h
        simp only [map_eq_some_iff] at h
        obtain ⟨others, hothers, rfl⟩ := h
        have hle := ih hothers
        rw [hs, hrest]
        simp only [map_cons, flatten_cons, length_append, extension_part, length_cons]
        omega

theorem length_of_parse_rest (h : parse_rest s = some ext) :
    (ext.map extension_part).flatten.length ≤ s.length + 1 ∧ (s = [] → ext = []) := by
  rw [parse_rest] at h
  split at h
  · rename_i hsome
    refine ⟨length_of_parse_extensions h, ?_⟩
    rintro rfl
    simp [split_space] at hsome
  split at h
  · simp only [some.injEq] at h
    simp [← h]
  · simp at h

theorem isPrefixOf_append_space {p : List Byte} (hp : space ∉ p) (w rest : List Byte) :
    p.isPrefixOf (w ++ space :: rest) = p.isPrefixOf w := by
  induction p generalizing w with
  | nil => simp
  | cons c p ih =>
    obtain ⟨hc, hp⟩ := not_or.mp (fun hor => hp (mem_cons.mpr hor))
    cases w with
    | nil =>
      have hne : (c == space) = false := by simpa using Ne.symm hc
      simp [List.isPrefixOf, hne]
    | cons d w =>
      rw [List.cons_append, List.isPrefixOf, List.isPrefixOf, ih hp]

/-- What is written behind the type. -/
def tail_parts (raddr : List Byte) (rport : BitVec 16) (ext : List (List Byte × List Byte)) : List Byte :=
  (related_part raddr rport ++ ext.map extension_part).flatten

/-- What the code can take for a related address. -/
def named_raddr (ext : List (List Byte × List Byte)) : Bool :=
  ext.head?.any fun e => word_raddr.isPrefixOf e.1

theorem parse_tail_extensions
    (hext : ∀ e ∈ ext, IsToken e.1 ∧ IsToken e.2) (hname : named_raddr ext = false) :
    parse_tail (extension_text ext) = some ([], 0, ext) := by
  have hrest := parse_rest_eq hext
  cases ext with
  | nil => rfl
  | cons e ext =>
    have hsplit := split_space_append (hext e (by simp)).1.2.1 (e.2 ++ (ext.map extension_part).flatten)
    have hword : word_raddr.isPrefixOf (extension_text (e :: ext)) = false := by
      rw [extension_text, isPrefixOf_append_space (by decide)]
      exact hname
    rw [← extension_text] at hsplit
    simp [parse_tail, hsplit, hword, hrest]

theorem not_mem_address {addr : List Byte} (h : sdp_is_address addr = true) : space ∉ addr := by
  rw [sdp_is_address, Bool.and_eq_true] at h
  exact not_mem_of_all h.2 rfl

variable {raddr : List Byte}

theorem parse_related_eq (hraddr : sdp_is_address raddr = true) (rport : BitVec 16) (hext : ∀ e ∈ ext, IsToken e.1 ∧ IsToken e.2) :
    parse_related (raddr ++ space :: (word_rport ++ space ::
      (decimal rport.toNat ++ (ext.map extension_part).flatten))) = some (raddr, rport, ext) := by
  have hrest := parse_rest_eq hext
  have hlt := rport.isLt
  have hsplit : (split_space (decimal rport.toNat ++ (ext.map extension_part).flatten)).getD
      (decimal rport.toNat ++ (ext.map extension_part).flatten, []) =
        (decimal rport.toNat, extension_text ext) := by
    rw [flatten_extension_parts]
    split
    · rename_i hnil
      rw [List.append_nil, split_space_none (not_mem_decimal _), hnil]
      rfl
    rw [split_space_append (not_mem_decimal _)]
    rfl
  have hpos : ¬ (decimal rport.toNat).length < 1 := by
    have := length_pos_of_ne_nil (isNumber_decimal rport.toNat).1
    omega
  have hrportWord : word_rport.isPrefixOf (word_rport ++ space ::
      (decimal rport.toNat ++ (ext.map extension_part).flatten)) = true := by
    rw [isPrefixOf_append_space (by decide)]
    rfl
  have hfive : ¬ (word_rport.length ≠ 5 ∨ (decimal rport.toNat).length < 1) := by
    rintro (hne | hlt)
    · exact hne rfl
    · exact hpos hlt
  have hnumber : to_uint 64 (decimal rport.toNat) = some rport.toNat := to_uint_of_decimal (by omega)
  rw [parse_related, split_space_append (not_mem_address hraddr)]
  simp only [hraddr, hrportWord, Bool.not_true, Bool.or_false, Bool.false_eq_true, if_false]
  rw [split_space_append (by decide)]
  simp only [hsplit, if_neg hfive, hnumber, hrest, BitVec.ofNat_toNat, BitVec.setWidth_eq]

theorem parse_tail_related (hraddr : sdp_is_address raddr = true) (rport : BitVec 16) (hext : ∀ e ∈ ext, IsToken e.1 ∧ IsToken e.2) :
    parse_tail (word_raddr ++ space :: (raddr ++ space :: (word_rport ++ space ::
      (decimal rport.toNat ++ (ext.map extension_part).flatten)))) = some (raddr, rport, ext) := by
  have hraddrWord : word_raddr.isPrefixOf (word_raddr ++ space :: (raddr ++ space :: (word_rport ++ space ::
      (decimal rport.toNat ++ (ext.map extension_part).flatten)))) = true := by
    rw [isPrefixOf_append_space (by decide)]
    rfl
  rw [parse_tail, split_space_append (by decide)]
  simp only [hraddrWord, if_true]
  exact parse_related_eq hraddr rport hext

theorem tail_parts_nil (rport : BitVec 16) (ext : List (List Byte × List Byte)) :
    tail_parts [] rport ext = (ext.map extension_part).flatten := by
  simp [tail_parts, related_part]

theorem length_tail_parts (hraddr : raddr ≠ []) (rport : BitVec 16) (ext : List (List Byte × List Byte)) :
    (tail_parts raddr rport ext).length =
      14 + raddr.length + (decimal rport.toNat).length + (ext.map extension_part).flatten.length := by
  simp only [tail_parts, related_part, if_neg hraddr, List.cons_append, nil_append, flatten_cons,
    length_append, length_cons, word_raddr, word_rport]
  omega

theorem length_le_of_isPrefixOf {p w : List Byte} (h : p.isPrefixOf w = true) : p.length ≤ w.length :=
  ( isPrefixOf_iff_prefix.mp h).length_le

theorem length_of_parse_related {rport : BitVec 16} (h : parse_related s = some (raddr, rport, ext)) :
    raddr ≠ [] ∧ (tail_parts raddr rport ext).length ≤ 7 + s.length := by
  rw [parse_related] at h
  cases haddr : split_space s with
  | none =>
    rw [haddr] at h
    simp at h
  | some found =>
    obtain ⟨addr, rest⟩ := found
    have hs := eq_of_split_space haddr
    rw [haddr] at h
    simp only at h
    split at h
    · simp at h
    rename_i hvalid
    cases hword : split_space rest with
    | none =>
      rw [hword] at h
      simp at h
    | some found =>
      obtain ⟨word, more⟩ := found
      have hrest := eq_of_split_space hword
      rw [hword] at h
      simp only at h
      split at h
      · simp at h
      rename_i hlength
      split at h
      · rename_i number others hnumber hothers
        simp only [some.injEq, Prod.mk.injEq] at h
        obtain ⟨rfl, rfl, rfl⟩ := h
        have hne : addr ≠ [] := by
          rintro rfl
          simp [sdp_is_address] at hvalid
        have hdigits : (decimal (BitVec.ofNat 16 number).toNat).length ≤
            ((split_space more).getD (more, [])).1.length :=
          (length_decimal_mono (by rw [BitVec.toNat_ofNat]; exact Nat.mod_le _ _)).trans
            (length_decimal_le_of_to_uint hnumber)
        obtain ⟨hle, hnil⟩ := length_of_parse_rest hothers
        refine ⟨hne, ?_⟩
        rw [length_tail_parts hne, hs, hrest]
        simp only [length_append, length_cons]
        cases hmore : split_space more with
        | none =>
          rw [hmore] at hdigits hnil
          simp only [getD_none] at hdigits hnil
          rw [hnil trivial, map_nil, flatten_nil, length_nil]
          omega
        | some found =>
          have hsplit := congrArg List.length (eq_of_split_space hmore)
          rw [hmore] at hdigits hle
          simp only [getD_some] at hdigits hle
          simp only [length_append, length_cons] at hsplit
          omega
      · simp at h

theorem length_of_parse_tail {rport : BitVec 16} (h : parse_tail s = some (raddr, rport, ext)) :
    (tail_parts raddr rport ext).length ≤ s.length + 1 ∧
      (raddr = [] → (split_space s).isSome = true → word_raddr.isPrefixOf s = false) := by
  rw [parse_tail] at h
  cases hfirst : split_space s with
  | none =>
    rw [hfirst] at h
    simp only [map_eq_some_iff, Prod.mk.injEq] at h
    obtain ⟨found, hfound, rfl, rfl, rfl⟩ := h
    rw [tail_parts_nil]
    exact ⟨(length_of_parse_rest hfound).1, by simp⟩
  | some found =>
    obtain ⟨first, rest⟩ := found
    have hs := eq_of_split_space hfirst
    rw [hfirst] at h
    simp only at h
    cases hword : word_raddr.isPrefixOf s with
    | true =>
      rw [hword, if_pos rfl] at h
      obtain ⟨hne, hle⟩ := length_of_parse_related h
      have hfive : 5 ≤ first.length := by
        rw [hs, isPrefixOf_append_space (by decide)] at hword
        exact length_le_of_isPrefixOf hword
      refine ⟨?_, fun hnil => absurd hnil hne⟩
      rw [hs]
      simp only [length_append, length_cons]
      omega
    | false =>
      rw [hword, if_neg (by simp)] at h
      simp only [map_eq_some_iff, Prod.mk.injEq] at h
      obtain ⟨found, hfound, rfl, rfl, rfl⟩ := h
      rw [tail_parts_nil]
      exact ⟨(length_of_parse_rest hfound).1, fun _ _ => rfl⟩

/-- The fields as a candidate has them. -/
structure Candidate.WellFormed (c : Candidate) : Prop where
  foundation : is_foundation c.foundation = true
  component_id : 1 ≤ c.component_id.toNat ∧ c.component_id.toNat ≤ 256
  transport : c.transport.word ≠ none
  addr : sdp_is_address c.addr = true ∧ c.addr.length < 255
  type : c.type ≠ none
  related : c.raddr = [] ∧ c.rport = 0 ∨ sdp_is_address c.raddr = true ∧ c.raddr.length < 255
  ext : ∀ e ∈ c.ext, IsToken e.1 ∧ IsToken e.2

theorem not_mem_transport {transport : Transport} {word : List Byte} (h : transport.word = some word) :
    space ∉ word ∧ sdp_is_token word = true ∧ transport_from_string word = transport.spoken := by
  cases transport with
  | error => simp [Transport.word] at h
  | local_socket => simp [Transport.word] at h
  | tcp | udp | tls | dtls =>
    simp only [Transport.word, some.injEq] at h
    subst h
    decide

theorem type_from_word (type : CandidateType) :
    space ∉ type.word ∧ type_from_string type.word = some type ∧ type.word.length ≤ 2048 := by
  cases type <;> decide

theorem strtol_word (h : IsNumber w) (rest : List Byte) :
    strtol (w ++ space :: rest) = some (clamp (value w), space :: rest) := by
  apply strtol_digits h
  intro c hc
  simp only [head?_cons, mem_def, some.injEq] at hc
  rw [← hc]
  decide

theorem is_connection_port_decimal (port : BitVec 16) (rest : List Byte) :
    is_connection_port (decimal port.toNat ++ space :: rest) (decimal port.toNat).length =
      decide (port ≠ 0) := by
  have hlt := port.isLt
  have hread := strtol_word (isNumber_decimal port.toNat) rest
  have hclamp : clamp port.toNat = port.toNat := by
    rw [clamp]
    omega
  rw [value_decimal, hclamp] at hread
  have hpos : 1 ≤ (decimal port.toNat).length := length_pos_of_ne_nil (isNumber_decimal _).1
  have hfive : (decimal port.toNat).length ≤ 5 := length_decimal_le (by omega) (by omega)
  rw [is_connection_port, hread, Bool.eq_iff_iff]
  simp only [Bool.and_eq_true, decide_eq_true_eq, length_append]
  constructor
  · rintro ⟨-, ⟨hone, -⟩, -⟩ rfl
    simp at hone
  intro hne
  have hzero : port.toNat ≠ 0 := fun hzero => hne (BitVec.eq_of_toNat_eq hzero)
  omega

theorem is_digits_priority (priority : BitVec 32) :
    is_digits 10 (int_text priority) = decide (priority.toNat < 2 ^ 31) ∧ space ∉ int_text priority := by
  have hlt := priority.isLt
  rw [int_text]
  split
  · rename_i hsmall
    have hpos : 1 ≤ (decimal priority.toNat).length := length_pos_of_ne_nil (isNumber_decimal _).1
    have hten : (decimal priority.toNat).length ≤ 10 := length_decimal_le (by omega) (by omega)
    refine ⟨?_, not_mem_decimal _⟩
    simp only [is_digits, Bool.and_eq_true, decide_eq_true_eq, List.all_eq_true, hsmall, decide_true]
    exact ⟨⟨hpos, hten⟩, (isNumber_decimal _).2⟩
  rename_i hlarge
  refine ⟨?_, ?_⟩
  · have hminus : is_digit 45 = false := by decide
    rw [decide_eq_false hlarge, is_digits, all_cons, hminus, Bool.false_and, Bool.and_false]
  rw [mem_cons, not_or]
  exact ⟨by decide, not_mem_decimal _⟩

variable {c : Candidate}

theorem parse_main (h : c.WellFormed) {word : List Byte} (hword : c.transport.word = some word)
    {tail : List Byte} (htail : tail = [] ∨ ∃ s, tail = space :: s) :
    parse (c.main_part word ++ tail) =
      if c.priority.toNat < 2 ^ 31 ∧ c.port ≠ 0 then
        (if tail = [] then some ([], 0, []) else parse_tail (tail.drop 1)).map fun (raddr, rport, ext) =>
          { c with transport := c.transport.spoken, raddr := raddr, rport := rport, ext := ext }
      else none := by
  obtain ⟨type, htype⟩ := ne_none_iff_exists'.mp h.type
  obtain ⟨htypeSpace, htypeRead, htypeLength⟩ := type_from_word type
  obtain ⟨hwordSpace, hwordToken, hwordRead⟩ := not_mem_transport hword
  obtain ⟨hpriority, hprioritySpace⟩ := is_digits_priority c.priority
  have hfoundation : space ∉ c.foundation := by
    have hall := h.foundation
    rw [is_foundation, Bool.and_eq_true] at hall
    exact not_mem_of_all hall.2 rfl
  have hcomponent : is_digits 5 (decimal c.component_id.toNat) = true := by
    have hlt := c.component_id.isLt
    have hpos : 1 ≤ (decimal c.component_id.toNat).length :=
      length_pos_of_ne_nil (isNumber_decimal _).1
    have hfive : (decimal c.component_id.toNat).length ≤ 5 := length_decimal_le (by omega) (by omega)
    simp only [is_digits, Bool.and_eq_true, decide_eq_true_eq, List.all_eq_true]
    exact ⟨⟨hpos, hfive⟩, (isNumber_decimal _).2⟩
  have hcomponentRead : to_uint 64 (decimal c.component_id.toNat) = some c.component_id.toNat :=
    to_uint_of_decimal (by have := c.component_id.isLt; omega)
  have hportRead : to_uint 64 (decimal c.port.toNat) = some c.port.toNat :=
    to_uint_of_decimal (by have := c.port.isLt; omega)
  have htyp : word_typ.isPrefixOf word_typ = true := by decide
  have htext : c.main_part word ++ tail = c.foundation ++ space :: (decimal c.component_id.toNat ++ space ::
      (word ++ space :: (int_text c.priority ++ space :: (c.addr ++ space :: (decimal c.port.toNat ++ space ::
        (word_typ ++ space :: (type.word ++ tail))))))) := by
    simp [Candidate.main_part, htype, type_to_string]
  have hpriorityRead : c.priority.toNat < 2 ^ 31 →
      to_uint 64 (int_text c.priority) = some c.priority.toNat := by
    intro hsmall
    rw [int_text, if_pos hsmall]
    exact to_uint_of_decimal (by omega)
  have hparse : parse_type (type.word ++ tail) = (if tail = [] then some ([], 0, [])
      else parse_tail (tail.drop 1)).map fun tail => (type, tail) := by
    rcases htail with rfl | ⟨s, rfl⟩
    · rw [List.append_nil, parse_type, split_space_none htypeSpace]
      simp [if_neg (show ¬ 2048 < type.word.length by omega), htypeRead]
    rw [parse_type, split_space_append htypeSpace]
    simp [if_neg (show ¬ 2048 < type.word.length by omega), htypeRead, if_neg (show ¬ space :: s = [] by simp)]
  rw [htext, parse, accept_bind hfoundation h.foundation]
  dsimp only
  rw [accept_bind (not_mem_decimal _) hcomponent]
  dsimp only
  rw [hcomponentRead, some_bind, accept_bind hwordSpace hwordToken]
  dsimp only
  by_cases hsmall : c.priority.toNat < 2 ^ 31
  · rw [accept_bind hprioritySpace (hpriority.trans (decide_eq_true hsmall))]
    dsimp only
    rw [hpriorityRead hsmall, some_bind, accept_bind (not_mem_address h.addr.1) h.addr.1]
    dsimp only
    by_cases hport : c.port ≠ 0
    · rw [accept_bind (not_mem_decimal _)
        ((is_connection_port_decimal c.port _).trans (decide_eq_true hport)), if_pos ⟨hsmall, hport⟩]
      dsimp only
      rw [hportRead, some_bind, @accept_bind word_typ _ (fun typ => typ.isPrefixOf word_typ) (by decide) htyp]
      dsimp only
      rw [hparse]
      cases (if tail = [] then some ([], 0, []) else parse_tail (tail.drop 1)) with
      | none => rfl
      | some found => simp [htype, hwordRead, some_bind]
    rw [accept_bind_none (not_mem_decimal _)
      ((is_connection_port_decimal c.port _).trans (decide_eq_false hport)), if_neg fun hboth => hport hboth.2]
  rw [accept_bind_none hprioritySpace (hpriority.trans (decide_eq_false hsmall)), if_neg fun hboth => hsmall hboth.1]

theorem flatten_parts (c : Candidate) (word : List Byte) :
    (c.parts word).flatten = c.main_part word ++ tail_parts c.raddr c.rport c.ext := by
  simp [Candidate.parts, tail_parts]

theorem parts_ne_nil (c : Candidate) (word : List Byte) : ∀ part ∈ c.parts word, part ≠ [] := by
  intro part hpart
  rw [Candidate.parts, mem_cons, mem_append, List.mem_map] at hpart
  rcases hpart with rfl | hpart | ⟨e, -, rfl⟩
  · simp [Candidate.main_part]
  · rw [related_part] at hpart
    split at hpart
    · simp at hpart
    rw [mem_singleton] at hpart
    simp [hpart]
  · simp [extension_part]

theorem tail_parts_cases (raddr : List Byte) (rport : BitVec 16) (ext : List (List Byte × List Byte)) :
    tail_parts raddr rport ext = [] ∨ ∃ s, tail_parts raddr rport ext = space :: s := by
  by_cases hraddr : raddr = []
  · rw [hraddr, tail_parts_nil, flatten_extension_parts]
    split
    · exact .inl rfl
    · exact .inr ⟨_, rfl⟩
  rw [tail_parts, related_part, if_neg hraddr]
  exact .inr ⟨_, rfl⟩

theorem parse_tail_parts (h : c.WellFormed) (hname : c.raddr = [] → named_raddr c.ext = false) :
    (if tail_parts c.raddr c.rport c.ext = [] then some ([], 0, [])
      else parse_tail ((tail_parts c.raddr c.rport c.ext).drop 1)) = some (c.raddr, c.rport, c.ext) := by
  rcases h.related with ⟨hraddr, hrport⟩ | ⟨hraddr, -⟩
  · rw [hraddr, hrport, tail_parts_nil, flatten_extension_parts]
    by_cases hext : c.ext = []
    · simp [hext]
    rw [if_neg hext, if_neg (by simp)]
    exact parse_tail_extensions h.ext (hname hraddr)
  have hne : c.raddr ≠ [] := by
    intro hnil
    rw [hnil] at hraddr
    simp [sdp_is_address] at hraddr
  have htail : tail_parts c.raddr c.rport c.ext = space :: (word_raddr ++ space :: (c.raddr ++ space ::
      (word_rport ++ space :: (decimal c.rport.toNat ++ (c.ext.map extension_part).flatten)))) := by
    simp [tail_parts, related_part, hne]
  rw [htail, if_neg (by simp)]
  exact parse_tail_related hraddr c.rport h.ext

/-- Writing a candidate succeeds, and the text is read as its fields. The transport is read as the
one that the text names. -/
def Candidate.RoundTrips (c : Candidate) : Prop :=
  ∃ text, to_string c = .text text ∧ parse text = some { c with transport := c.transport.spoken }

/-- The priority is not written as a negative number, the port is not zero, the text fits into the
buffer and no extension is taken for a related address. -/
structure Candidate.Writable (c : Candidate) : Prop where
  priority : c.priority.toNat < 2 ^ 31
  port : c.port ≠ 0
  fits : Fits (c.parts (c.transport.word.getD []))
  name : c.raddr = [] → named_raddr c.ext = false

theorem named_raddr_eq_false (h : c.WellFormed) (hraddr : c.raddr = [])
    (hparse : (if tail_parts c.raddr c.rport c.ext = [] then some ([], 0, [])
      else parse_tail ((tail_parts c.raddr c.rport c.ext).drop 1)) = some (c.raddr, c.rport, c.ext)) :
    named_raddr c.ext = false := by
  rw [hraddr, tail_parts_nil, flatten_extension_parts] at hparse
  cases hext : c.ext with
  | nil => rfl
  | cons e ext =>
    rw [hext, if_neg (by simp), if_neg (by simp), drop_succ_cons, drop_zero] at hparse
    have hkey : space ∉ e.1 := (h.ext e (by simp [hext])).1.2.1
    have hword := (length_of_parse_tail hparse).2 rfl (by
      rw [extension_text, split_space_append hkey]
      rfl)
    rwa [extension_text, isPrefixOf_append_space (by decide)] at hword

theorem writable_of_round_trips (h : c.WellFormed) (hc : c.RoundTrips) : c.Writable := by
  obtain ⟨word, hword⟩ := ne_none_iff_exists'.mp h.transport
  have hparts := parts_ne_nil c word
  have hne : c.parts word ≠ [] := by simp [Candidate.parts]
  have hflatten := flatten_parts c word
  have hwhole := parse_main h hword (tail_parts_cases c.raddr c.rport c.ext)
  rw [← hflatten] at hwhole
  obtain ⟨text, htext, hparse⟩ := hc
  simp only [to_string, hword] at htext
  by_cases hfits : Fits (c.parts word)
  · rw [write_rounds_of_fits hne hparts hfits, Written.text.injEq] at htext
    rw [← htext, hwhole] at hparse
    split at hparse
    · rename_i hboth
      rw [map_eq_some_iff] at hparse
      obtain ⟨⟨raddr, rport, ext⟩, htail, hsame⟩ := hparse
      simp only [Candidate.mk.injEq, true_and] at hsame
      obtain ⟨rfl, rfl, rfl⟩ := hsame
      refine ⟨hboth.1, hboth.2, by simpa [hword] using hfits, fun hraddr => ?_⟩
      exact named_raddr_eq_false h hraddr htail
    · simp at hparse
  -- the text is cut behind the fields that are always there
  obtain ⟨n, hlong, hshort, hcut⟩ := write_rounds_text_of_not_fits hne hparts htext hfits
  have hmain : (c.main_part word).length ≤ n := hlong _ (by simp [Candidate.parts])
  have htotal : total (c.parts word) =
      (c.main_part word).length + (tail_parts c.raddr c.rport c.ext).length := by
    rw [total, hflatten, length_append]
  rw [hflatten, take_append, take_of_length_le hmain] at hcut
  have hcases : (tail_parts c.raddr c.rport c.ext).take (n - (c.main_part word).length) = [] ∨
      ∃ s, (tail_parts c.raddr c.rport c.ext).take (n - (c.main_part word).length) = space :: s := by
    rcases tail_parts_cases c.raddr c.rport c.ext with hnil | ⟨s, hs⟩
    · simp [hnil]
    cases hzero : n - (c.main_part word).length with
    | zero => simp
    | succ k => exact .inr ⟨s.take k, by simp [hs]⟩
  rw [hcut, parse_main h hword hcases] at hparse
  split at hparse
  · rw [map_eq_some_iff] at hparse
    obtain ⟨⟨raddr, rport, ext⟩, htail, hsame⟩ := hparse
    simp only [Candidate.mk.injEq, true_and] at hsame
    obtain ⟨rfl, rfl, rfl⟩ := hsame
    split at htail
    · simp only [some.injEq, Prod.mk.injEq] at htail
      obtain ⟨hraddr, -, hext⟩ := htail
      rw [← hraddr, ← hext, tail_parts_nil] at htotal
      simp at htotal
      omega
    rename_i hnonempty
    have hle := (length_of_parse_tail htail).1
    have hpos := length_pos_of_ne_nil hnonempty
    rw [length_drop] at hle
    rw [length_take] at hle hpos
    omega
  · simp at hparse

theorem round_trips_of_writable (h : c.WellFormed) (hc : c.Writable) : c.RoundTrips := by
  obtain ⟨word, hword⟩ := ne_none_iff_exists'.mp h.transport
  obtain ⟨hpriority, hport, hfits, hname⟩ := hc
  rw [hword, getD_some] at hfits
  refine ⟨(c.parts word).flatten, ?_, ?_⟩
  · simp only [to_string, hword]
    exact write_rounds_of_fits (by simp [Candidate.parts]) (parts_ne_nil c word) hfits
  rw [flatten_parts, parse_main h hword (tail_parts_cases c.raddr c.rport c.ext),
    if_pos ⟨hpriority, hport⟩, parse_tail_parts h hname]
  rfl

/-- Candidates come back exactly when they can be written. -/
theorem candidate_round_trip_iff {c : Candidate} (h : c.WellFormed) : c.RoundTrips ↔ c.Writable :=
  ⟨writable_of_round_trips h, round_trips_of_writable h⟩

def host_candidate : Candidate where
  type := some .host
  transport := .udp
  foundation := [49]
  component_id := 1
  priority := 2130706431
  addr := [49, 46, 49]
  port := 5000

theorem host_candidate_well_formed (priority : BitVec 32) (ext : List (List Byte × List Byte))
    (hext : ∀ e ∈ ext, IsToken e.1 ∧ IsToken e.2) :
    { host_candidate with priority := priority, ext := ext }.WellFormed where
  foundation := show is_foundation host_candidate.foundation = true by decide
  component_id := show 1 ≤ host_candidate.component_id.toNat ∧ host_candidate.component_id.toNat ≤ 256 by decide
  transport := by simp [host_candidate, Transport.word]
  addr := show sdp_is_address host_candidate.addr = true ∧ host_candidate.addr.length < 255 by decide
  type := by simp [host_candidate]
  related := .inl ⟨rfl, rfl⟩
  ext := hext

theorem host_candidate_round_trips : host_candidate.RoundTrips :=
  (candidate_round_trip_iff (host_candidate_well_formed 2130706431 [] (by simp))).mpr
    ⟨by decide, by decide, by decide +kernel, fun _ => rfl⟩

/-- The priority 2147483648 is written as a negative number, and extensions that are longer together
than the buffer lead out of it. -/
theorem host_candidate_fails : ¬ { host_candidate with priority := 2147483648, ext := [] }.RoundTrips ∧
      to_string { host_candidate with
        ext := [(List.replicate 250 97, List.replicate 250 98), ([99], [100]), ([99], [100])] } =
          .overflow := by
  constructor
  · intro h
    have hsmall := (writable_of_round_trips (host_candidate_well_formed 2147483648 [] (by simp)) h).priority
    exact absurd hsmall (by decide)
  · decide +kernel

end openvocs.candidate
