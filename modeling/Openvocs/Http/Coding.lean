import Openvocs.Http.Transfer

open List

namespace openvocs.http

open memory

/-- OWS and BWS. -/
abbrev Blanks := {w : List Byte // ∀ c ∈ w, is_whitespace c = true}

abbrev Token := {t : List Byte // t ≠ [] ∧ ∀ c ∈ t, is_token c = true}

/-- `qdtext / quoted-pair`. -/
inductive QuotedItem where
  | char (c : {c : Byte // is_qd_char c = true})
  | pair (c : {c : Byte // is_paired c = true})

def QuotedItem.text : QuotedItem → List Byte
  | .char c => [c.1]
  | .pair c => [92, c.1]

def quoted_text (items : List QuotedItem) : List Byte := 34 :: (items.flatMap QuotedItem.text ++ [34])

inductive ParameterValue where
  | token (t : Token)
  | quoted (items : List QuotedItem)

def ParameterValue.text : ParameterValue → List Byte
  | .token t => t.1
  | .quoted items => quoted_text items

/-- `OWS ";" OWS transfer-parameter`. -/
structure Parameter where
  front : Blanks
  lead : Blanks
  name : Token
  left : Blanks
  right : Blanks
  value : ParameterValue

/-- The part behind the semicolon, up to the value. -/
def Parameter.key (p : Parameter) : List Byte := p.lead.1 ++ (p.name.1 ++ (p.left.1 ++ equals :: p.right.1))

def Parameter.body (p : Parameter) : List Byte := p.key ++ p.value.text

def Parameter.text (p : Parameter) : List Byte := p.front.1 ++ semicolon :: p.body

/-- `transfer-coding`. -/
structure Coding where
  name : Token
  parameters : List Parameter

def Coding.text (c : Coding) : List Byte := c.name.1 ++ c.parameters.flatMap Parameter.text

/-- The last value of a coding, without some octets at its end. A quoted string has to be whole,
and without a semicolon. -/
def ParameterValue.accepted (missing : Nat) : ParameterValue → Bool
  | .token t => missing < t.1.length
  | .quoted items => missing = 0 && semicolon ∉ quoted_text items

/-- A value with another parameter behind it: it is a token of which an octet is not looked at. -/
def ParameterValue.inner : ParameterValue → Bool
  | .token t => 2 ≤ t.1.length
  | .quoted _ => false

/-- The parameters of a coding, without some octets at the end. -/
def parameters_accepted (missing : Nat) : Parameter → List Parameter → Bool
  | p, [] => 2 ≤ p.name.1.length && p.value.accepted missing
  | p, q :: rest => 2 ≤ p.name.1.length && p.value.inner && parameters_accepted missing q rest

/-- A coding without some octets at its end. -/
def Coding.accepted (missing : Nat) (c : Coding) : Bool :=
  match c.parameters with
  | [] => missing < c.name.1.length
  | p :: rest => 2 ≤ c.name.1.length && parameters_accepted missing p rest

variable {m : Memory} {p q size start stop missing : Nat} {s a b : List Byte}

theorem token_octet : ∀ c : Byte, is_token c = true → is_whitespace c = false ∧ c ≠ semicolon ∧
    c ≠ equals ∧ c ≠ comma ∧ c ≠ 34 ∧ c ≠ nul := by decide +kernel

theorem blank_octet : ∀ c : Byte, is_whitespace c = true → is_token c = false ∧ c ≠ semicolon ∧
    c ≠ equals ∧ c ≠ comma ∧ c ≠ nul := by decide +kernel

theorem qd_octet : ∀ c : Byte, is_qd_char c = true → c ≠ 34 ∧ c ≠ nul := by decide +kernel

theorem paired_octet : ∀ c : Byte, is_paired c = true → c ≠ nul := by decide +kernel

theorem is_quoted_text_char (h : is_qd_char (m p) = true) :
    is_quoted_text m (size + 1) p = is_quoted_text m size (p + 1) := by
  cases size with
  | zero => exact h
  | succ size => rw [is_quoted_text, if_pos h]

theorem is_quoted_text_pair (hslash : m p = 92) (h : is_paired (m (p + 1)) = true) :
    is_quoted_text m (size + 2) p = is_quoted_text m size (p + 2) := by
  have hnot : is_qd_char (m p) = false := by
    rw [hslash]
    decide
  rw [is_quoted_text, hnot, if_neg Bool.false_ne_true, is_quoted_pair, hslash, h, decide_eq_true rfl,
    Bool.and_true, Bool.true_and]

theorem is_quoted_text_of {items : List QuotedItem} (h : Holds m p (items.flatMap QuotedItem.text)) :
    is_quoted_text m (items.flatMap QuotedItem.text).length p = true := by
  induction items generalizing p with
  | nil => rfl
  | cons item items ih =>
    cases item with
    | char c =>
      obtain ⟨hc, hitems⟩ := h
      have hqd : is_qd_char (m p) = true := by
        rw [hc]
        exact c.2
      exact (is_quoted_text_char hqd).trans (ih hitems)
    | pair c =>
      obtain ⟨hslash, hc, hitems⟩ := h
      have hpaired : is_paired (m (p + 1)) = true := by
        rw [hc]
        exact c.2
      exact (is_quoted_text_pair hslash hpaired).trans (ih hitems)

theorem is_quoted_text_cut {items : List QuotedItem} {n : Nat}
    (h : Holds m p (items.flatMap QuotedItem.text)) (hn : n < (items.flatMap QuotedItem.text).length)
    (hquote : m (p + n) = 34) : is_quoted_text m n p = false := by
  induction items generalizing p n with
  | nil => simp at hn
  | cons item items ih =>
    rw [flatMap_cons, length_append] at hn
    cases item with
    | char c =>
      obtain ⟨hc, hitems⟩ := h
      cases n with
      | zero => exact absurd (hc.symm.trans hquote) (qd_octet c.1 c.2).1
      | succ n =>
        have hqd : is_qd_char (m p) = true := by
          rw [hc]
          exact c.2
        rw [is_quoted_text_char hqd]
        refine ih hitems ?_ ?_
        · simp only [QuotedItem.text, length_cons, length_nil] at hn
          omega
        rw [← hquote]
        congr 1
        omega
    | pair c =>
      obtain ⟨hslash, hc, hitems⟩ := h
      match n with
      | 0 => exact absurd (hslash.symm.trans hquote) (by decide)
      | 1 =>
        rw [is_quoted_text, hslash]
        decide
      | n + 2 =>
        have hpaired : is_paired (m (p + 1)) = true := by
          rw [hc]
          exact c.2
        rw [is_quoted_text_pair hslash hpaired]
        refine ih hitems ?_ ?_
        · simp only [QuotedItem.text, length_cons, length_nil] at hn
          omega
        rw [← hquote]
        congr 1
        omega

variable {items : List QuotedItem}

theorem quoted_text_length : (quoted_text items).length = (items.flatMap QuotedItem.text).length + 2 := by
  simp [quoted_text]

theorem is_quoted_string_of (h : Holds m p (quoted_text items)) :
    is_quoted_string m p (quoted_text items).length = true := by
  obtain ⟨hfirst, hrest⟩ := h
  obtain ⟨htext, hlast, -⟩ := holds_append.mp hrest
  have hend : p + (quoted_text items).length - 1 = p + 1 + (items.flatMap QuotedItem.text).length := by
    rw [quoted_text_length]
    omega
  have htwo : (quoted_text items).length - 2 = (items.flatMap QuotedItem.text).length := by
    rw [quoted_text_length]
    omega
  have hlength : 2 ≤ (quoted_text items).length := by
    rw [quoted_text_length]
    omega
  simp only [is_quoted_string, hfirst, hend, hlast, htwo, is_quoted_text_of htext, hlength, decide_true, Bool.and_self]

theorem is_parameter_value_cut (h : Holds m p (quoted_text items)) (hsize : size < (quoted_text items).length) :
    is_parameter_value m p size = false := by
  obtain ⟨hfirst, hrest⟩ := h
  obtain ⟨htext, -⟩ := holds_append.mp hrest
  rw [quoted_text_length] at hsize
  rw [is_parameter_value, Bool.or_eq_false_iff]
  refine ⟨?_, ?_⟩
  · cases size with
    | zero => rfl
    | succ size =>
      have hquote : is_token (m p) = false := by
        rw [hfirst]
        decide
      rw [is_token_string, memory.read, all_cons, hquote, Bool.false_and, Bool.and_false]
  rw [is_quoted_string, Bool.and_eq_false_imp]
  intro hand
  simp only [Bool.and_eq_true, decide_eq_true_eq] at hand
  obtain ⟨⟨htwo, -⟩, hlast⟩ := hand
  refine is_quoted_text_cut htext (by omega) ?_
  rw [← hlast]
  congr 1
  omega

theorem blank_at {w : List Byte} (h : Holds m (q + 1) w) (hw : ∀ c ∈ w, is_whitespace c = true) :
    ∀ i < w.length, is_whitespace (m (q + i + 1)) = true := by
  intro i hi
  rw [Nat.add_right_comm, h.get hi]
  exact hw _ (getElem_mem hi)

theorem skip_blanks_eq {w : List Byte} (h : Holds m p w) (hw : ∀ c ∈ w, is_whitespace c = true)
    (hbehind : is_whitespace (m (p + w.length)) = false) (hsize : w.length ≤ size) :
    skip_blanks m size p = some (p + w.length) := by
  induction w generalizing p size with
  | nil =>
    rw [length_nil, Nat.add_zero] at hbehind
    cases size with
    | zero => rw [skip_blanks, hbehind, if_neg Bool.false_ne_true, length_nil, Nat.add_zero]
    | succ size => rw [skip_blanks, hbehind, if_neg Bool.false_ne_true, length_nil, Nat.add_zero]
  | cons x w ih =>
    rw [length_cons] at hsize hbehind ⊢
    obtain ⟨size, rfl⟩ := Nat.exists_eq_add_of_le' (Nat.le_of_add_left_le hsize : 1 ≤ size)
    have hx : is_whitespace (m p) = true := by
      rw [h.1]
      exact hw x mem_cons_self
    have hsucc : p + (w.length + 1) = p + 1 + w.length := by omega
    rw [hsucc] at hbehind ⊢
    rw [skip_blanks, if_pos hx]
    exact ih h.2 (fun y hy => hw y (mem_cons_of_mem x hy)) hbehind (by omega)

theorem trim_back_eq {n : Nat} (hq : is_whitespace (m q) = false)
    (hw : ∀ i < n, is_whitespace (m (q + i + 1)) = true) :
    trim_back m start (q + n) = if q < start ∧ start ≤ q + n then none else some q := by
  induction n with
  | zero =>
    rw [Nat.add_zero, if_neg (by omega)]
    cases q with
    | zero => rw [trim_back, hq, if_neg Bool.false_ne_true]
    | succ q => rw [trim_back, hq, if_neg Bool.false_ne_true]
  | succ n ih =>
    rw [← Nat.add_assoc, trim_back, if_pos (hw n (Nat.lt_succ_self n)), ih (fun i hi => hw i (by omega))]
    by_cases hn : q + n + 1 = start
    · rw [if_pos hn, if_pos (by omega)]
    rw [if_neg hn]
    by_cases hpass : q < start ∧ start ≤ q + n
    · rw [if_pos hpass, if_pos (by omega)]
    · rw [if_neg hpass, if_neg (by omega)]

theorem trim_back_some (h : trim_back m start p = some q) :
    q ≤ p ∧ is_whitespace (m q) = false ∧ (start ≤ p → start ≤ q) := by
  induction p with
  | zero =>
    rw [trim_back] at h
    split at h
    next => cases h
    next hblank =>
      cases h
      exact ⟨Nat.le_refl 0, by simpa using hblank, id⟩
  | succ p ih =>
    rw [trim_back] at h
    split at h
    next =>
      split at h
      next => cases h
      next hne =>
        obtain ⟨hle, hblank, hstart⟩ := ih h
        exact ⟨by omega, hblank, fun hp => hstart (by omega)⟩
    next hblank =>
      cases h
      exact ⟨Nat.le_refl _, by simpa using hblank, id⟩

theorem back_over_eq {n : Nat} (hq : is_whitespace (m q) = false)
    (hw : ∀ i < n, is_whitespace (m (q + i + 1)) = true) : back_over m (q + n) = q := by
  induction n with
  | zero =>
    cases q with
    | zero => rfl
    | succ q => rw [Nat.add_zero, back_over, hq, if_neg Bool.false_ne_true]
  | succ n ih =>
    rw [← Nat.add_assoc, back_over, if_pos (hw n (Nat.lt_succ_self n))]
    exact ih (fun i hi => hw i (by omega))

theorem back_over_bounds (hq : is_whitespace (m q) = false) (hp : q ≤ p) :
    q ≤ back_over m p ∧ back_over m p ≤ p := by
  induction p with
  | zero => exact ⟨hp, Nat.le_refl 0⟩
  | succ p ih =>
    rw [back_over]
    split
    next hblank =>
      obtain rfl | hlt := Nat.eq_or_lt_of_le hp
      · rw [hq] at hblank
        cases hblank
      obtain ⟨hle, hback⟩ := ih (by omega)
      exact ⟨hle, by omega⟩
    next => exact ⟨hp, Nat.le_refl _⟩

theorem minus_of_le {a b : Nat} (h : b ≤ a) : minus a b = a - b := if_pos h

theorem is_token_string_take {t : Token} (h : Holds m p t.1) (hsize : size ≤ t.1.length) :
    is_token_string m p size = decide (0 < size) := by
  cases size with
  | zero => rfl
  | succ size =>
    have hprefix := h.shorter ( take_prefix (size + 1) t.1)
    have hne : t.1.take (size + 1) ≠ [] := by
      rw [Ne, take_eq_nil_iff, not_or]
      exact ⟨Nat.succ_ne_zero size, t.2.1⟩
    have htoken := is_token_string_of hprefix hne (fun c hc => t.2.2 c (mem_of_mem_take hc))
    rw [length_take, Nat.min_eq_left hsize] at htoken
    rw [htoken]
    exact (decide_eq_true (Nat.succ_pos size)).symm

theorem is_parameter_value_token {t : Token} (h : Holds m p t.1) (hsize : size ≤ t.1.length) :
    is_parameter_value m p size = decide (0 < size) := by
  rw [is_parameter_value, is_token_string_take h hsize]
  cases size with
  | zero => rfl
  | succ size => simp

theorem ParameterValue.first (value : ParameterValue) (h : Holds m p value.text) :
    is_whitespace (m p) = false ∧ 0 < value.text.length := by
  cases value with
  | token t =>
    obtain ⟨t, hne, ht⟩ := t
    cases t with
    | nil => exact absurd rfl hne
    | cons c t =>
      rw [show m p = c from h.1]
      exact ⟨(token_octet c (ht c mem_cons_self)).1, Nat.succ_pos _⟩
  | quoted items =>
    rw [show m p = 34 from h.1]
    exact ⟨by decide, Nat.succ_pos _⟩

theorem parameter_value_semicolon {found : Nat} (h : Holds m p (quoted_text items))
    (hfind : find m semicolon (stop - p) p = some found)
    (hblank : ∀ i, p + (quoted_text items).length ≤ i → i < found → is_whitespace (m i) = true) :
    parameter_value m stop p = none := by
  obtain ⟨hle, hlt, hfound⟩ := find_some hfind
  have hne : found ≠ p := by
    rintro rfl
    rw [h.1] at hfound
    exact absurd hfound (by decide)
  simp only [parameter_value, hfind]
  cases htrim : trim_back m p (found - 1) with
  | none => rfl
  | some last =>
    obtain ⟨hlast, hsolid, hstart⟩ := trim_back_some htrim
    have hstart := hstart (by omega)
    have hin : last < p + (quoted_text items).length := by
      by_contra hbeyond
      have := hblank last (by omega) (by omega)
      rw [hsolid] at this
      cases this
    have hcut := is_parameter_value_cut h (by omega : last - p < (quoted_text items).length)
    simp only [minus_of_le hstart, hcut, if_neg Bool.false_ne_true]

theorem parameter_value_last {value : ParameterValue} (h : Holds m p value.text)
    (hmissing : missing ≤ value.text.length) :
    parameter_value m (p + (value.text.length - missing)) p = if value.accepted missing then some none else none := by
  have hsize := Nat.add_sub_cancel_left p (value.text.length - missing)
  cases value with
  | token t =>
    simp only [ParameterValue.text] at hsize hmissing h ⊢
    have hnone : find m semicolon (t.1.length - missing) p = none :=
      find_none h (fun hmem => (token_octet _ (t.2.2 _ hmem)).2.1 rfl) (Nat.sub_le _ _)
    have hvalue := is_parameter_value_token h (Nat.sub_le t.1.length missing)
    simp only [parameter_value, hsize, hnone, hvalue, ParameterValue.accepted, decide_eq_true_eq]
    by_cases hlt : missing < t.1.length
    · rw [if_pos (by omega), if_pos hlt]
    · rw [if_neg (by omega), if_neg hlt]
  | quoted items =>
    simp only [ParameterValue.text] at hsize hmissing h ⊢
    cases hfind : find m semicolon ((quoted_text items).length - missing) p with
    | some found =>
      obtain ⟨hle, hlt, hfound⟩ := find_some hfind
      rw [parameter_value_semicolon h (by rw [hsize, hfind]) (fun i hi hlast => by omega)]
      have hmem : semicolon ∈ quoted_text items := by
        obtain ⟨i, rfl⟩ := Nat.exists_eq_add_of_le hle
        have hi : i < (quoted_text items).length := by omega
        rw [← hfound, h.get hi]
        exact getElem_mem hi
      simp [ParameterValue.accepted, hmem]
    | none =>
      simp only [parameter_value, hsize, hfind, ParameterValue.accepted]
      cases missing with
      | zero =>
        have hclear := not_mem_of_find h hfind
        have hvalue : is_parameter_value m p (quoted_text items).length = true := by
          rw [is_parameter_value, is_quoted_string_of h, Bool.or_true]
        simp [hvalue, hclear]
      | succ missing =>
        have hcut := is_parameter_value_cut h (by omega : (quoted_text items).length - (missing + 1) < _)
        simp [hcut]

theorem Token.last {t : Token} (h : Holds m p t.1) :
    0 < t.1.length ∧ is_whitespace (m (p + (t.1.length - 1))) = false := by
  have hpos : 0 < t.1.length := length_pos_iff.mpr t.2.1
  refine ⟨hpos, ?_⟩
  rw [h.get (by omega : t.1.length - 1 < t.1.length)]
  exact (token_octet _ (t.2.2 _ (getElem_mem _))).1

theorem parameter_value_next {value : ParameterValue} {front : Blanks}
    (h : Holds m p (value.text ++ (front.1 ++ semicolon :: b)))
    (hstop : p + value.text.length + front.1.length < stop) :
    parameter_value m stop p =
      if value.inner then some (some (p + value.text.length + front.1.length + 1)) else none := by
  obtain ⟨hvalue, hbehind⟩ := holds_append.mp h
  obtain ⟨hfront, -⟩ := holds_append.mp hbehind
  have hnot : semicolon ∉ front.1 := fun hmem => (blank_octet _ (front.2 _ hmem)).2.1 rfl
  rw [← append_assoc] at h
  have hfind (hclear : semicolon ∉ value.text) :
      find m semicolon (stop - p) p = some (p + value.text.length + front.1.length) := by
    rw [find_eq h (by rw [mem_append, not_or]; exact ⟨hclear, hnot⟩)
      (by rw [length_append]; omega), length_append, Nat.add_assoc]
  cases value with
  | token t =>
    simp only [ParameterValue.text] at hvalue hfront hfind hstop ⊢
    obtain ⟨hpos, hsolid⟩ := Token.last hvalue
    have hfound := hfind (fun hmem => (token_octet _ (t.2.2 _ hmem)).2.1 rfl)
    have hend : p + t.1.length = p + (t.1.length - 1) + 1 := by omega
    rw [hend] at hfront
    have htrim := @trim_back_eq m _ p _ hsolid (blank_at hfront front.2)
    have hback : p + t.1.length + front.1.length - 1 = p + (t.1.length - 1) + front.1.length := by omega
    have hvalue := is_parameter_value_token hvalue (Nat.sub_le t.1.length 1)
    simp only [parameter_value, hfound, hback, htrim,
      if_neg (by omega : ¬ (p + (t.1.length - 1) < p ∧ p ≤ p + (t.1.length - 1) + front.1.length)),
      minus_of_le (Nat.le_add_right p _), Nat.add_sub_cancel_left, hvalue, ParameterValue.inner, decide_eq_true_eq]
    by_cases htwo : 2 ≤ t.1.length
    · rw [if_pos (by omega), if_pos htwo]
    · rw [if_neg (by omega), if_neg htwo]
  | quoted items =>
    simp only [ParameterValue.text] at hvalue hfront hfind hstop ⊢
    by_cases hmem : semicolon ∈ quoted_text items
    · obtain ⟨u, v, huv, hu⟩ := eq_append_cons_of_mem hmem
      have hlength := congrArg List.length huv
      rw [length_append, length_cons] at hlength
      refine parameter_value_semicolon hvalue (find_eq (huv ▸ hvalue) hu (by omega)) ?_
      intro i hle hlt
      omega
    refine parameter_value_semicolon hvalue (hfind hmem) ?_
    intro i hle hlt
    obtain ⟨k, rfl⟩ := Nat.exists_eq_add_of_le hle
    rw [hfront.get (by omega)]
    exact front.2 _ (getElem_mem _)

theorem validate_parameter_key {param : Parameter} (h : Holds m p param.key)
    (hfirst : is_whitespace (m (p + param.key.length)) = false) (hstop : p + param.key.length ≤ stop) :
    validate_parameter m stop p =
      if 2 ≤ param.name.1.length then parameter_value m stop (p + param.key.length) else none := by
  have hlength : param.key.length = param.lead.1.length + param.name.1.length + param.left.1.length + 1 +
      param.right.1.length := by
    simp only [Parameter.key, length_append, length_cons]
    omega
  obtain ⟨hlead, hrest⟩ := holds_append.mp h
  obtain ⟨hname, hrest'⟩ := holds_append.mp hrest
  obtain ⟨hleft, -, hright⟩ := holds_append.mp hrest'
  obtain ⟨hpos, hsolid⟩ := Token.last hname
  have hskip : skip_blanks m (stop - p) p = some (p + param.lead.1.length) := by
    refine skip_blanks_eq hlead param.lead.2 ?_ (by omega)
    have hget := hname.get hpos
    rw [Nat.add_zero] at hget
    rw [hget]
    exact (token_octet _ (param.name.2.2 _ (getElem_mem hpos))).1
  have hfind : find m equals (stop - (p + param.lead.1.length)) (p + param.lead.1.length) =
      some (p + param.lead.1.length + (param.name.1.length + param.left.1.length)) := by
    rw [← append_assoc] at hrest
    rw [find_eq hrest ?_ ?_, length_append]
    · rw [mem_append, not_or]
      exact ⟨fun hmem => (token_octet _ (param.name.2.2 _ hmem)).2.2.1 rfl,
        fun hmem => (blank_octet _ (param.left.2 _ hmem)).2.2.1 rfl⟩
    rw [length_append]
    omega
  have hend : p + param.lead.1.length + param.name.1.length =
      p + param.lead.1.length + (param.name.1.length - 1) + 1 := by omega
  rw [hend] at hleft
  have htrim := @trim_end_eq m p _ _ hsolid (blank_at hleft param.left.2)
  have hback : p + param.lead.1.length + (param.name.1.length + param.left.1.length) - 1 =
      p + param.lead.1.length + (param.name.1.length - 1) + param.left.1.length := by omega
  have htoken := is_token_string_take hname (Nat.sub_le param.name.1.length 1)
  have hvalue : skip_blanks m (stop - (p + param.lead.1.length + (param.name.1.length + param.left.1.length) + 1))
      (p + param.lead.1.length + (param.name.1.length + param.left.1.length) + 1) = some (p + param.key.length) := by
    have hat : p + param.lead.1.length + param.name.1.length + param.left.1.length + 1 =
        p + param.lead.1.length + (param.name.1.length + param.left.1.length) + 1 := by omega
    rw [hat] at hright
    rw [skip_blanks_eq hright param.right.2 ?_ (by omega)]
    · congr 1
      omega
    rw [← hfirst]
    congr 2
    omega
  have hne : p + param.lead.1.length + (param.name.1.length + param.left.1.length) ≠ p := by omega
  simp only [validate_parameter, hskip, hfind, if_neg hne, hback, htrim]
  by_cases htwo : 2 ≤ param.name.1.length
  · rw [if_neg (by omega), if_pos htwo]
    simp only [minus_of_le (Nat.le_add_right (p + param.lead.1.length) _), Nat.add_sub_cancel_left, htoken, hvalue,
      decide_eq_true (by omega : 0 < param.name.1.length - 1), Bool.not_true, if_neg Bool.false_ne_true]
  rw [if_neg htwo]
  by_cases hpass : p + param.lead.1.length + (param.name.1.length - 1) ≤ p ∧
      p < p + param.lead.1.length + (param.name.1.length - 1) + param.left.1.length
  · rw [if_pos hpass]
  rw [if_neg hpass]
  simp only [minus_of_le (Nat.le_add_right (p + param.lead.1.length) _), Nat.add_sub_cancel_left, htoken,
    decide_eq_false (by omega : ¬ 0 < param.name.1.length - 1), Bool.not_false, if_true]

def last_value : Parameter → List Parameter → ParameterValue
  | p, [] => p.value
  | _, q :: rest => last_value q rest

/-- What the loop over the parameters is given. -/
def parameters_text (param : Parameter) (rest : List Parameter) : List Byte :=
  param.body ++ rest.flatMap Parameter.text

theorem parameters_text_cons (param next : Parameter) (rest : List Parameter) :
    parameters_text param (next :: rest) =
      param.key ++ (param.value.text ++ (next.front.1 ++ semicolon :: parameters_text next rest)) := by
  simp [parameters_text, Parameter.body, Parameter.text]

theorem last_value_length_le (param : Parameter) (rest : List Parameter) :
    (last_value param rest).text.length + rest.length ≤ (parameters_text param rest).length := by
  induction rest generalizing param with
  | nil => simp [last_value, parameters_text, Parameter.body]
  | cons next rest ih =>
    have hle := ih next
    rw [parameters_text_cons, last_value]
    simp only [length_append, length_cons]
    omega

variable {param : Parameter} {rest : List Parameter}

theorem validate_parameters_eq {rounds : Nat} (h : Holds m p (parameters_text param rest))
    (hmissing : missing ≤ (last_value param rest).text.length) (hrounds : rest.length < rounds) :
    validate_parameters m (p + ((parameters_text param rest).length - missing)) rounds p =
      parameters_accepted missing param rest := by
  induction rest generalizing param p rounds with
  | nil =>
    obtain ⟨rounds, rfl⟩ := Nat.exists_eq_add_of_lt hrounds
    simp only [parameters_text, flatMap_nil, List.append_nil, last_value, Parameter.body] at h hmissing ⊢
    obtain ⟨hkey, hvalue⟩ := holds_append.mp h
    have hstop : p + ((param.key ++ param.value.text).length - missing) =
        p + param.key.length + (param.value.text.length - missing) := by
      rw [length_append]
      omega
    rw [validate_parameters, hstop, validate_parameter_key hkey (param.value.first hvalue).1 (by omega),
      parameter_value_last hvalue hmissing, parameters_accepted]
    by_cases htwo : 2 ≤ param.name.1.length
    · rw [if_pos htwo, decide_eq_true htwo]
      cases param.value.accepted missing <;> rfl
    · rw [if_neg htwo, decide_eq_false htwo, Bool.false_and]
  | cons next rest ih =>
    obtain ⟨rounds, rfl⟩ := Nat.exists_eq_add_of_lt hrounds
    have hle := last_value_length_le next rest
    rw [parameters_text_cons] at h
    rw [last_value] at hmissing
    obtain ⟨hkey, hrest⟩ := holds_append.mp h
    obtain ⟨hvalue, hrest'⟩ := holds_append.mp hrest
    obtain ⟨-, -, hnext⟩ := holds_append.mp hrest'
    have hlength := congrArg List.length (parameters_text_cons param next rest)
    simp only [length_append, length_cons] at hlength
    have hstop : p + ((parameters_text param (next :: rest)).length - missing) =
        p + param.key.length + param.value.text.length + next.front.1.length + 1 +
          ((parameters_text next rest).length - missing) := by omega
    rw [validate_parameters, hstop, validate_parameter_key hkey (param.value.first hvalue).1 (by omega),
      parameter_value_next hrest (by omega), parameters_accepted]
    by_cases htwo : 2 ≤ param.name.1.length
    · rw [if_pos htwo, decide_eq_true htwo, Bool.true_and]
      cases hinner : param.value.inner with
      | false => rfl
      | true =>
        rw [if_pos rfl, Bool.true_and]
        exact ih hnext hmissing (by rw [length_cons]; omega)
    · rw [if_neg htwo, decide_eq_false htwo, Bool.false_and, Bool.false_and]

/-- The last part of a coding. -/
def Coding.last (c : Coding) : ParameterValue :=
  match c.parameters with
  | [] => .token c.name
  | p :: rest => last_value p rest

variable {c : Coding}

theorem validate_eq (h : Holds m p c.text) (hmissing : missing ≤ c.last.text.length) :
    validate_tranfer_encoding_grammar m p (c.text.length - missing) = c.accepted missing := by
  obtain ⟨name, parameters⟩ := c
  cases parameters with
  | nil =>
    simp only [Coding.text, flatMap_nil, List.append_nil, Coding.last, ParameterValue.text,
      Coding.accepted] at h hmissing ⊢
    have hnone : find m semicolon (name.1.length - missing) p = none :=
      find_none h (fun hmem => (token_octet _ (name.2.2 _ hmem)).2.1 rfl) (Nat.sub_le _ _)
    rw [validate_tranfer_encoding_grammar, hnone]
    by_cases hlt : missing < name.1.length
    · rw [if_neg (by omega), decide_eq_true hlt]
      exact (is_token_string_take h (Nat.sub_le _ _)).trans (decide_eq_true (by omega))
    · rw [if_pos (by omega), decide_eq_false hlt]
  | cons param rest =>
    have htext : Coding.text ⟨name, param :: rest⟩ =
        name.1 ++ (param.front.1 ++ semicolon :: parameters_text param rest) := by
      simp [Coding.text, Parameter.text, parameters_text]
    have hle := last_value_length_le param rest
    rw [htext] at h ⊢
    simp only [Coding.last] at hmissing
    obtain ⟨hname, hrest⟩ := holds_append.mp h
    obtain ⟨hfront, -, hparameters⟩ := holds_append.mp hrest
    obtain ⟨hpos, hsolid⟩ := Token.last hname
    have hlength : (name.1 ++ (param.front.1 ++ semicolon :: parameters_text param rest)).length - missing =
        name.1.length + param.front.1.length + 1 + ((parameters_text param rest).length - missing) := by
      simp only [length_append, length_cons]
      omega
    rw [hlength]
    have hfind : find m semicolon
        (name.1.length + param.front.1.length + 1 + ((parameters_text param rest).length - missing)) p =
          some (p + (name.1.length + param.front.1.length)) := by
      rw [← append_assoc] at h
      rw [find_eq h ?_ ?_, length_append]
      · rw [mem_append, not_or]
        exact ⟨fun hmem => (token_octet _ (name.2.2 _ hmem)).2.1 rfl,
          fun hmem => (blank_octet _ (param.front.2 _ hmem)).2.1 rfl⟩
      rw [length_append]
      omega
    have hend : p + name.1.length = p + (name.1.length - 1) + 1 := by omega
    rw [hend] at hfront
    have htrim := @trim_back_eq m _ p _ hsolid (blank_at hfront param.front.2)
    have hback : p + (name.1.length + param.front.1.length) - 1 =
        p + (name.1.length - 1) + param.front.1.length := by omega
    have hstop : p + (name.1.length + param.front.1.length + 1 + ((parameters_text param rest).length - missing)) =
        p + (name.1.length + param.front.1.length) + 1 + ((parameters_text param rest).length - missing) := by omega
    have hat : p + name.1.length + param.front.1.length + 1 =
        p + (name.1.length + param.front.1.length) + 1 := by omega
    rw [hat] at hparameters
    have hrounds : rest.length < name.1.length + param.front.1.length + 1 +
        ((parameters_text param rest).length - missing) := by omega
    rw [validate_tranfer_encoding_grammar, if_neg (by omega), hfind]
    simp only [hback, htrim, if_neg (by omega : ¬ p + (name.1.length + param.front.1.length) = p),
      if_neg (by omega : ¬ (p + (name.1.length - 1) < p ∧ p ≤ p + (name.1.length - 1) + param.front.1.length)),
      Nat.add_sub_cancel_left, is_token_string_take hname (Nat.sub_le _ 1), hstop,
      validate_parameters_eq hparameters hmissing hrounds, Coding.accepted]
    congr 1
    rw [decide_eq_decide]
    omega

theorem exists_last_value (param : Parameter) (rest : List Parameter) :
    ∃ u, parameters_text param rest = u ++ (last_value param rest).text := by
  induction rest generalizing param with
  | nil => exact ⟨param.key, by simp [parameters_text, Parameter.body, last_value]⟩
  | cons next rest ih =>
    obtain ⟨u, hu⟩ := ih next
    refine ⟨param.key ++ (param.value.text ++ (next.front.1 ++ semicolon :: u)), ?_⟩
    rw [parameters_text_cons, hu, last_value]
    simp

theorem Coding.text_cons (name : Token) (param : Parameter) (rest : List Parameter) :
    Coding.text ⟨name, param :: rest⟩ = name.1 ++ (param.front.1 ++ semicolon :: parameters_text param rest) := by
  simp [Coding.text, Parameter.text, parameters_text]

theorem Coding.exists_last (c : Coding) : ∃ u, c.text = u ++ c.last.text := by
  obtain ⟨name, parameters⟩ := c
  cases parameters with
  | nil => exact ⟨[], by simp [Coding.text, Coding.last, ParameterValue.text]⟩
  | cons param rest =>
    obtain ⟨u, hu⟩ := exists_last_value param rest
    refine ⟨name.1 ++ (param.front.1 ++ semicolon :: u), ?_⟩
    rw [Coding.text_cons, hu, Coding.last]
    simp

theorem ParameterValue.last {value : ParameterValue} (h : Holds m p value.text) :
    is_whitespace (m (p + (value.text.length - 1))) = false := by
  cases value with
  | token t => exact (Token.last h).2
  | quoted items =>
    obtain ⟨-, hrest⟩ := h
    obtain ⟨-, hlast, -⟩ := holds_append.mp hrest
    have hend : p + ((ParameterValue.quoted items).text.length - 1) =
        p + 1 + (items.flatMap QuotedItem.text).length := by
      rw [ParameterValue.text, quoted_text_length]
      omega
    rw [hend, hlast]
    decide

theorem Coding.ends (h : Holds m p c.text) : 0 < c.text.length ∧ is_whitespace (m p) = false ∧
    is_whitespace (m (p + (c.text.length - 1))) = false := by
  obtain ⟨hname, -⟩ := holds_append.mp h
  obtain ⟨u, hu⟩ := c.exists_last
  have hpos : 0 < c.last.text.length ∧ is_whitespace (m (p + (c.text.length - 1))) = false := by
    rw [hu] at h ⊢
    obtain ⟨-, hlast⟩ := holds_append.mp h
    have hpos := (c.last.first hlast).2
    have hend : p + ((u ++ c.last.text).length - 1) = p + u.length + (c.last.text.length - 1) := by
      rw [length_append]
      omega
    rw [hend]
    exact ⟨hpos, ParameterValue.last hlast⟩
  refine ⟨?_, (ParameterValue.first (.token c.name) hname).1, hpos.2⟩
  rw [hu, length_append]
  omega

end openvocs.http
