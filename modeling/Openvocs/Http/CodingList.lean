import Openvocs.Http.Coding

open List

namespace openvocs.http

open memory

variable {m : Memory} {p q size missing : Nat} {s b : List Byte} {param : Parameter} {rest : List Parameter}
  {items : List QuotedItem} {c : Coding}

theorem Parameter.comma_not_mem_key (param : Parameter) : comma ∉ param.key := by
  simp only [key, mem_append, mem_cons, not_or]
  exact ⟨fun hmem => (blank_octet _ (param.lead.2 _ hmem)).2.2.2.1 rfl,
    fun hmem => (token_octet _ (param.name.2.2 _ hmem)).2.2.2.1 rfl,
    fun hmem => (blank_octet _ (param.left.2 _ hmem)).2.2.2.1 rfl, by decide,
    fun hmem => (blank_octet _ (param.right.2 _ hmem)).2.2.2.1 rfl⟩

/-- A text that ends with a quoted string, and the first comma in it, which is in that string. -/
structure FirstComma (text : List Byte) (last : ParameterValue) (items : List QuotedItem)
    (u a b : List Byte) : Prop where
  last_eq : last = .quoted items
  text_eq : text = u ++ quoted_text items
  split : quoted_text items = a ++ comma :: b
  clear : comma ∉ u ++ a

theorem exists_comma_single (h : comma ∈ parameters_text param []) :
    ∃ items u a b, FirstComma (parameters_text param []) param.value items u a b := by
  rw [parameters_text, flatMap_nil, List.append_nil, Parameter.body] at h ⊢
  have hvalue := (mem_append.mp h).resolve_left param.comma_not_mem_key
  cases hquoted : param.value with
  | token t =>
    rw [hquoted] at hvalue
    exact absurd rfl (token_octet _ (t.2.2 _ hvalue)).2.2.2.1
  | quoted items =>
    rw [hquoted] at hvalue
    obtain ⟨a, b, hab, ha⟩ := eq_append_cons_of_mem hvalue
    refine ⟨items, param.key, a, b, rfl, rfl, hab, ?_⟩
    rw [mem_append, not_or]
    exact ⟨param.comma_not_mem_key, ha⟩

theorem exists_comma (h : comma ∈ parameters_text param rest) : ∃ rest' items u a b,
    parameters_text param rest' <+: parameters_text param rest ∧
      FirstComma (parameters_text param rest') (last_value param rest') items u a b := by
  induction rest generalizing param with
  | nil =>
    obtain ⟨items, u, a, b, hfirst⟩ := exists_comma_single h
    exact ⟨[], items, u, a, b, prefix_refl _, hfirst⟩
  | cons next rest ih =>
    by_cases hsingle : comma ∈ parameters_text param []
    · obtain ⟨items, u, a, b, hfirst⟩ := exists_comma_single hsingle
      refine ⟨[], items, u, a, b, ⟨(next :: rest).flatMap Parameter.text, ?_⟩, hfirst⟩
      simp [parameters_text]
    have hclear : comma ∉ param.key ∧ comma ∉ param.value.text := by
      simpa [parameters_text, Parameter.body] using hsingle
    have hfront : comma ∉ next.front.1 := fun hmem => (blank_octet _ (next.front.2 _ hmem)).2.2.2.1 rfl
    have hne : comma ≠ semicolon := by decide
    obtain ⟨rest', items, u, a, b, ⟨v, hv⟩, hfirst⟩ :=
      @ih next (by simpa [parameters_text_cons, hclear, hfront, hne] using h)
    refine ⟨next :: rest', items, param.key ++ (param.value.text ++ (next.front.1 ++ semicolon :: u)), a, b,
      ⟨v, ?_⟩, hfirst.last_eq, ?_, hfirst.split, ?_⟩
    · simp [parameters_text_cons, ← hv]
    · simp [parameters_text_cons, hfirst.text_eq]
    have hbehind := hfirst.clear
    rw [mem_append, not_or] at hbehind
    simp [hclear, hfront, hne, hbehind]

theorem Coding.exists_comma (h : comma ∈ c.text) : ∃ (c' : Coding) (items : List QuotedItem) (u a b : List Byte),
    c'.text <+: c.text ∧ FirstComma c'.text c'.last items u a b := by
  obtain ⟨name, parameters⟩ := c
  have hname : comma ∉ name.1 := fun hmem => (token_octet _ (name.2.2 _ hmem)).2.2.2.1 rfl
  cases parameters with
  | nil => exact absurd (by simpa [Coding.text] using h) hname
  | cons param rest =>
    have hfront : comma ∉ param.front.1 := fun hmem => (blank_octet _ (param.front.2 _ hmem)).2.2.2.1 rfl
    have hne : comma ≠ semicolon := by decide
    obtain ⟨rest', items, u, a, b, ⟨v, hv⟩, hfirst⟩ :=
      @openvocs.http.exists_comma param rest (by simpa [text_cons, hname, hfront, hne] using h)
    refine ⟨⟨name, param :: rest'⟩, items, name.1 ++ (param.front.1 ++ semicolon :: u), a, b, ⟨v, ?_⟩,
      hfirst.last_eq, ?_, hfirst.split, ?_⟩
    · simp [text_cons, ← hv]
    · simp [text_cons, hfirst.text_eq]
    have hbehind := hfirst.clear
    rw [mem_append, not_or] at hbehind
    simp [hname, hfront, hne, hbehind]

theorem parameters_accepted_quoted (hlast : last_value param rest = .quoted items) (hmissing : 0 < missing) :
    parameters_accepted missing param rest = false := by
  induction rest generalizing param with
  | nil =>
    rw [last_value] at hlast
    rw [parameters_accepted, hlast, ParameterValue.accepted, decide_eq_false (Nat.ne_of_gt hmissing),
      Bool.false_and, Bool.and_false]
  | cons next rest ih =>
    rw [last_value] at hlast
    rw [parameters_accepted, ih hlast, Bool.and_false]

theorem Coding.accepted_quoted (hlast : c.last = .quoted items) (hmissing : 0 < missing) :
    c.accepted missing = false := by
  obtain ⟨name, parameters⟩ := c
  cases parameters with
  | nil => cases hlast
  | cons param rest =>
    have hquoted : parameters_accepted missing param rest = false := parameters_accepted_quoted hlast hmissing
    simp [accepted, hquoted]

theorem coding_at_blank {last : Nat} {next : Option Nat} (h : is_whitespace (m p) = true) :
    coding_at m p last next = none := by
  have htoken (size : Nat) : is_token_string m p size = false := by
    cases size with
    | zero => rfl
    | succ size =>
      rw [is_token_string, memory.read, all_cons, (blank_octet _ h).1, Bool.false_and, Bool.and_false]
  have hnot (length : Nat) : validate_tranfer_encoding_grammar m p length = false := by
    rw [validate_tranfer_encoding_grammar]
    split
    next => rfl
    next =>
      split
      next => exact htoken length
      next =>
        split
        next => rfl
        next =>
          split
          next => rfl
          next => rw [htoken, Bool.false_and]
  rw [coding_at, hnot]
  simp

theorem coding_at_eq {next : Option Nat} (h : Holds m p c.text) (hmissing : missing ≤ c.last.text.length) :
    coding_at m p (p + (c.text.length - missing)) next =
      if c.accepted missing then some (⟨p, c.text.length - missing⟩, next) else none := by
  have hvalidate := validate_eq h hmissing
  rw [coding_at, minus_of_le (Nat.le_add_right p _), Nat.add_sub_cancel_left, hvalidate]
  by_cases hzero : c.text.length - missing = 0
  · rw [hzero] at hvalidate
    rw [if_pos (by omega), ← hvalidate]
    rfl
  rw [if_neg (by omega)]
  cases c.accepted missing <;> rfl

theorem coding_at_comma (h : Holds m p c.text) (hcomma : comma ∈ c.text) (hsize : c.text.length ≤ size) :
    ∃ found, find m comma size p = some found ∧ ∀ next, coding_at m p (back_over m (found - 1)) next = none := by
  obtain ⟨c', items, u, a, b, hprefix, hfirst⟩ := Coding.exists_comma hcomma
  have hheld := h.shorter hprefix
  have htext := hfirst.text_eq
  have hle := hprefix.length_le
  have hlength := congrArg List.length htext
  have hquoted_length := congrArg List.length hfirst.split
  rw [length_append] at hlength
  rw [length_append, length_cons] at hquoted_length
  have hfind : find m comma size p = some (p + (u ++ a).length) := by
    rw [htext, hfirst.split, ← append_assoc] at hheld
    refine find_eq hheld hfirst.clear ?_
    rw [length_append]
    omega
  refine ⟨_, hfind, fun next => ?_⟩
  have hquoted : Holds m (p + u.length) (quoted_text items) := (holds_append.mp (htext ▸ hheld)).2
  have hpos : 0 < a.length := by
    cases a with
    | nil => exact absurd (List.cons.inj hfirst.split).1 (by decide)
    | cons x a => exact Nat.succ_pos _
  have hsolid : is_whitespace (m (p + u.length)) = false := by
    rw [hquoted.1]
    decide
  rw [length_append]
  obtain ⟨hge, hlt⟩ := @back_over_bounds m (p + (u.length + a.length) - 1) _ hsolid (by omega)
  have hlast : c'.last.text = quoted_text items := by rw [hfirst.last_eq, ParameterValue.text]
  -- the octets from where the way back ends
  obtain ⟨missing, hmissing⟩ := Nat.exists_eq_add_of_le
    (by omega : back_over m (p + (u.length + a.length) - 1) ≤ p + c'.text.length)
  have hend : back_over m (p + (u.length + a.length) - 1) = p + (c'.text.length - missing) := by omega
  rw [hend, coding_at_eq hheld (by rw [hlast]; omega), Coding.accepted_quoted hfirst.last_eq (by omega)]
  rfl

theorem Coding.last_pos (c : Coding) : 1 ≤ c.last.text.length := by
  cases hlast : c.last with
  | token t => exact length_pos_iff.mpr t.2.1
  | quoted items => exact Nat.succ_pos _

theorem back_over_behind {after : Blanks} (h : Holds m p (c.text ++ (after.1 ++ [cr]))) :
    back_over m (p + c.text.length) = p + (c.text.length - (!after.1.isEmpty).toNat) := by
  obtain ⟨htext, hbehind⟩ := holds_append.mp h
  obtain ⟨hpos, -, hsolid⟩ := Coding.ends htext
  obtain ⟨after, hafter⟩ := after
  cases after with
  | nil =>
    have hcr : is_whitespace (m (p + c.text.length)) = false := by
      rw [hbehind.1]
      decide
    exact @back_over_eq m _ 0 hcr (fun i hi => absurd hi (Nat.not_lt_zero i))
  | cons x after =>
    have hend : p + c.text.length = p + (c.text.length - 1) + 1 := by omega
    rw [hend]
    refine back_over_eq hsolid (fun i hi => ?_)
    obtain rfl : i = 0 := by omega
    rw [Nat.add_zero, ← hend, hbehind.1]
    exact hafter x mem_cons_self

theorem list_element_last {cut : Bool} (h : Holds m p c.text)
    (hback : back_over m (p + c.text.length) = p + (c.text.length - cut.toNat)) :
    list_element m p c.text.length =
      if comma ∉ c.text ∧ c.accepted cut.toNat = true then some (⟨p, c.text.length - cut.toNat⟩, none) else none := by
  obtain ⟨hpos, -, -⟩ := Coding.ends h
  rw [list_element, if_neg (Nat.ne_of_gt hpos)]
  by_cases hcomma : comma ∈ c.text
  · rw [if_neg (fun hand => hand.1 hcomma)]
    obtain ⟨found, hfind, hnone⟩ := coding_at_comma h hcomma (Nat.le_refl _)
    simp only [hfind, hnone, ite_self]
  have hnone := find_none h hcomma (Nat.le_refl _)
  have hle : cut.toNat ≤ c.last.text.length := Nat.le_trans cut.toNat_le c.last_pos
  simp [hnone, hback, coding_at_eq h hle, hcomma]

theorem list_element_next {after : Blanks} (h : Holds m p (c.text ++ (after.1 ++ comma :: b)))
    (hsize : c.text.length + after.1.length + 1 < size) :
    list_element m p size =
      if comma ∉ c.text ∧ c.accepted 1 = true then
        some (⟨p, c.text.length - 1⟩, some (p + c.text.length + after.1.length + 1))
      else none := by
  obtain ⟨htext, hbehind⟩ := holds_append.mp h
  obtain ⟨hafter, -⟩ := holds_append.mp hbehind
  obtain ⟨hpos, -, hsolid⟩ := Coding.ends htext
  rw [list_element, if_neg (by omega)]
  by_cases hcomma : comma ∈ c.text
  · rw [if_neg (fun hand => hand.1 hcomma)]
    obtain ⟨found, hfind, hnone⟩ := @coding_at_comma _ _ size _ htext hcomma (by omega)
    simp only [hfind, hnone, ite_self]
  have hnot : comma ∉ c.text ++ after.1 := by
    rw [mem_append, not_or]
    exact ⟨hcomma, fun hmem => (blank_octet _ (after.2 _ hmem)).2.2.2.1 rfl⟩
  have hfind : find m comma size p = some (p + c.text.length + after.1.length) := by
    rw [← append_assoc] at h
    rw [find_eq h hnot (by rw [length_append]; omega), length_append, Nat.add_assoc]
  have hend : p + c.text.length = p + (c.text.length - 1) + 1 := by omega
  rw [hend] at hafter
  have hback : back_over m (p + c.text.length + after.1.length - 1) = p + (c.text.length - 1) := by
    rw [show p + c.text.length + after.1.length - 1 = p + (c.text.length - 1) + after.1.length by omega]
    exact back_over_eq hsolid (blank_at hafter after.2)
  simp [hfind, if_neg (by omega : ¬ p + c.text.length + after.1.length = p),
    if_neg (by omega : ¬ p + c.text.length + after.1.length - p + 1 = size), hback,
    coding_at_eq htext c.last_pos, hcomma]

theorem list_element_blank (h : is_whitespace (m p) = true) : list_element m p size = none := by
  rw [list_element]
  split
  next => rfl
  next =>
    split
    next => exact coding_at_blank h
    next => simp only [coding_at_blank h, ite_self]

/-- A coding with the OWS around it. -/
structure Item where
  before : Blanks
  coding : Coding
  after : Blanks

/-- The value of a header, which ends with its last coding. -/
def value_text : List Item → List Byte
  | [] => []
  | [i] => i.before.1 ++ i.coding.text
  | i :: items => i.before.1 ++ (i.coding.text ++ (i.after.1 ++ comma :: value_text items))

/-- The OWS behind the value. -/
def value_behind : List Item → List Byte
  | [] => []
  | [i] => i.after.1
  | _ :: items => value_behind items

/-- The codings of a value, each with whether a comma or OWS follows it. -/
def marked : List Item → List (Item × Bool)
  | [] => []
  | [i] => [(i, !i.after.1.isEmpty)]
  | i :: items => (i, true) :: marked items

/-- An item that is read, with or without its last octet. -/
def Item.accepted (i : Item) (cut : Bool) : Bool :=
  i.before.1.length ≤ 1 && comma ∉ i.coding.text && i.coding.accepted cut.toNat

/-- What is read of it. -/
def Item.kept (i : Item) (cut : Bool) : List Byte := i.coding.text.take (i.coding.text.length - cut.toNat)

def Item.pointer (i : Item) (cut : Bool) (p : Nat) : Pointer :=
  ⟨p + i.before.1.length, i.coding.text.length - cut.toNat⟩

theorem Item.pointer_read {i : Item} {cut : Bool} (h : Holds m p (i.before.1 ++ i.coding.text)) :
    (i.pointer cut p).read m = i.kept cut := by
  obtain ⟨-, htext⟩ := holds_append.mp h
  have hkept : Holds m (p + i.before.1.length) (i.kept cut) := htext.shorter ( take_prefix _ _)
  have hlength : (i.kept cut).length = i.coding.text.length - cut.toNat := by
    rw [kept, length_take, Nat.min_eq_left (Nat.sub_le _ _)]
  rw [Pointer.read, pointer, ← hlength]
  exact hkept.read

theorem transfer_element_eq {i : Item} {next : Option Nat} {cut : Bool}
    (h : Holds m p (i.before.1 ++ i.coding.text)) (hsize : i.before.1.length < size)
    (helement : list_element m (p + i.before.1.length) (size - i.before.1.length) =
      if comma ∉ i.coding.text ∧ i.coding.accepted cut.toNat = true then some (i.pointer cut p, next) else none) :
    transfer_element m p size = if i.accepted cut then some (i.pointer cut p, next) else none := by
  obtain ⟨hbefore, htext⟩ := holds_append.mp h
  have hzero : size ≠ 0 := by omega
  have haccepted (hle : i.before.1.length ≤ 1) :
      (comma ∉ i.coding.text ∧ i.coding.accepted cut.toNat = true) = (i.accepted cut = true) := by
    simp [Item.accepted, hle]
  rw [transfer_element, if_neg hzero]
  match hlist : i.before.1, i.before.2 with
  | [], _ =>
    rw [hlist] at htext helement haccepted
    rw [length_nil, Nat.add_zero] at htext
    rw [if_neg (by rw [(Coding.ends htext).2.1]; exact Bool.false_ne_true)]
    simpa only [length_nil, Nat.add_zero, Nat.sub_zero, haccepted (Nat.zero_le 1)] using helement
  | [x], hblank =>
    rw [hlist] at hbefore helement haccepted
    rw [if_pos (by rw [hbefore.1]; exact hblank x mem_cons_self)]
    simpa only [length_singleton, haccepted (Nat.le_refl 1)] using helement
  | x :: y :: w, hblank =>
    rw [hlist] at hbefore
    have hsecond : is_whitespace (m (p + 1)) = true := by
      rw [hbefore.2.1]
      exact hblank y (by simp)
    have hnot : i.accepted cut = false := by simp [Item.accepted, hlist]
    rw [if_pos (by rw [hbefore.1]; exact hblank x mem_cons_self), list_element_blank hsecond, hnot]
    rfl

theorem Coding.text_pos (c : Coding) : 0 < c.text.length := by
  rw [Coding.text, length_append]
  exact Nat.add_pos_left (length_pos_iff.mpr c.name.2.1) _

theorem transfer_element_last {i : Item} (h : Holds m p (i.before.1 ++ (i.coding.text ++ (i.after.1 ++ [cr])))) :
    transfer_element m p (i.before.1.length + i.coding.text.length) =
      if i.accepted (!i.after.1.isEmpty) then some (i.pointer (!i.after.1.isEmpty) p, none) else none := by
  obtain ⟨hbefore, hbehind⟩ := holds_append.mp h
  obtain ⟨htext, -⟩ := holds_append.mp hbehind
  refine transfer_element_eq (holds_append.mpr ⟨hbefore, htext⟩)
    (Nat.lt_add_of_pos_right i.coding.text_pos) ?_
  rw [Nat.add_sub_cancel_left]
  exact list_element_last htext (back_over_behind hbehind)

theorem transfer_element_next {i : Item}
    (h : Holds m p (i.before.1 ++ (i.coding.text ++ (i.after.1 ++ comma :: b))))
    (hsize : i.before.1.length + i.coding.text.length + i.after.1.length + 1 < size) :
    transfer_element m p size = if i.accepted true then
      some (i.pointer true p, some (p + i.before.1.length + i.coding.text.length + i.after.1.length + 1))
    else none := by
  obtain ⟨hbefore, hbehind⟩ := holds_append.mp h
  obtain ⟨htext, -⟩ := holds_append.mp hbehind
  refine transfer_element_eq (holds_append.mpr ⟨hbefore, htext⟩) (by omega) ?_
  exact list_element_next hbehind (by omega)

theorem Parsed.map_prepend {α β : Type} (f : α → β) (front : List α) (r : Parsed (List α)) :
    (r.prepend front).map (List.map f) = (r.map (List.map f)).prepend (front.map f) := by
  cases r with
  | success behind => simp [prepend, map]
  | error | progress | oob => rfl

/-- What is read of codings into an array with some room. -/
def taken : Nat → List (Item × Bool) → Parsed (List (List Byte))
  | _, [] => .success []
  | 0, _ :: _ => .oob
  | room + 1, (i, cut) :: codings =>
    if i.accepted cut then (taken room codings).prepend [i.kept cut] else .error

theorem value_text_pos {items : List Item} (h : items ≠ []) : 0 < (value_text items).length := by
  match items with
  | [] => exact absurd rfl h
  | [i] =>
    rw [value_text, length_append]
    exact Nat.add_pos_right _ i.coding.text_pos
  | i :: j :: items =>
    rw [value_text, length_append, length_append]
    · exact Nat.add_pos_right _ (Nat.add_pos_left i.coding.text_pos _)
    · exact cons_ne_nil j items

theorem transfer_elements_eq {items : List Item} {room : Nat} (hne : items ≠ [])
    (h : Holds m p (value_text items ++ (value_behind items ++ [cr]))) :
    (transfer_elements m (p + (value_text items).length) room p).map (List.map (Pointer.read m)) =
      taken room (marked items) := by
  induction items generalizing p room with
  | nil => exact absurd rfl hne
  | cons i items ih =>
    cases room with
    | zero => cases items <;> rfl
    | succ room =>
      have hitem : Holds m p (i.before.1 ++ i.coding.text) := by
        cases items with
        | nil => exact (holds_append.mp h).1
        | cons j items =>
          refine h.shorter ⟨i.after.1 ++ comma :: (value_text (j :: items) ++ (value_behind (j :: items) ++ [cr])), ?_⟩
          simp [value_text, value_behind]
      cases items with
      | nil =>
        simp only [value_text, value_behind, marked, append_assoc] at h ⊢
        rw [transfer_elements, Nat.add_sub_cancel_left, length_append, transfer_element_last h, taken]
        by_cases haccepted : i.accepted (!i.after.1.isEmpty) = true
        · rw [if_pos haccepted, if_pos haccepted]
          simp [Parsed.map, map_singleton, Item.pointer_read hitem, taken, Parsed.prepend]
        rw [if_neg haccepted, if_neg haccepted]
        rfl
      | cons j items =>
        have hpos := value_text_pos (cons_ne_nil j items)
        simp only [value_text, value_behind, marked, append_assoc, List.cons_append] at h ⊢
        have hstop : p + (i.before.1 ++ (i.coding.text ++ (i.after.1 ++ comma :: value_text (j :: items)))).length =
            p + i.before.1.length + i.coding.text.length + i.after.1.length + 1 +
              (value_text (j :: items)).length := by
          simp only [length_append, length_cons]
          omega
        rw [hstop, transfer_elements, transfer_element_next h (by omega), taken]
        obtain ⟨-, hbehind⟩ := holds_append.mp h
        obtain ⟨-, hbehind'⟩ := holds_append.mp hbehind
        obtain ⟨-, -, hnext⟩ := holds_append.mp hbehind'
        by_cases haccepted : i.accepted true = true
        · rw [if_pos haccepted, if_pos haccepted]
          simp only [Parsed.map_prepend, ih (cons_ne_nil j items) hnext, map_singleton, Item.pointer_read hitem]
        rw [if_neg haccepted, if_neg haccepted]
        rfl

/-- What one header has: the octets of its value, OWS, and the end of its line. -/
structure Field where
  items : List Item
  nonempty : items ≠ []

/-- A header with the codings of a field. -/
structure Field.At (m : Memory) (header : Header) (field : Field) : Prop where
  start : header.value.start ≠ 0
  length : header.value.length = (value_text field.items).length
  holds : Holds m header.value.start (value_text field.items ++ (value_behind field.items ++ [cr]))

/-- The codings of the fields, each with whether a comma or OWS follows it. -/
def all_marked (fields : List Field) : List (Item × Bool) := fields.flatMap fun field => marked field.items

/-- The Transfer-Encoding headers of a message have the fields, in their order. -/
def Carries (m : Memory) (headers : List Header) (fields : List Field) : Prop :=
  List.Forall₂ (Field.At m) (headers_named m headers key_transfer_encoding) fields

variable {room : Nat} {codings more : List (Item × Bool)} {texts : List (List Byte)}

theorem taken_eq : taken room codings = if ∀ x ∈ codings.take room, x.1.accepted x.2 = true then
      if codings.length ≤ room then .success (codings.map fun x => x.1.kept x.2) else .oob
    else .error := by
  induction codings generalizing room with
  | nil => simp [taken]
  | cons x codings ih =>
    cases room with
    | zero => simp [taken]
    | succ room =>
      rw [taken, ih, take_succ_cons, length_cons, map_cons]
      simp only [forall_mem_cons, Nat.add_le_add_iff_right]
      by_cases haccepted : x.1.accepted x.2 = true
      · simp only [haccepted, true_and, if_true]
        split
        next =>
          split
          next => rfl
          next => rfl
        next => rfl
      · rw [if_neg haccepted, if_neg (fun hand => haccepted hand.1)]

theorem taken_append : taken room (codings ++ more) = match taken room codings with
    | .success texts => (taken (room - texts.length) more).prepend texts
    | other => other := by
  induction codings generalizing room with
  | nil =>
    simp only [taken, nil_append, length_nil, Nat.sub_zero]
    cases taken room more <;> rfl
  | cons x codings ih =>
    cases room with
    | zero => rfl
    | succ room =>
      rw [List.cons_append, taken, taken]
      split
      next =>
        rw [ih]
        cases taken room codings with
        | success behind =>
          simp only [Parsed.prepend, singleton_append, length_cons, Nat.add_sub_add_right]
          cases taken (room - behind.length) more <;> rfl
        | error | progress | oob => rfl
      next => rfl

theorem transfer_headers_eq {headers : List Header} {fields : List Field}
    (h : List.Forall₂ (Field.At m) headers fields) :
    (transfer_headers m room headers).map (List.map (Pointer.read m)) = taken room (all_marked fields) := by
  induction h generalizing room with
  | nil => cases room <;> rfl
  | @cons header field headers fields hfield hfields ih =>
    have helements := @transfer_elements_eq m _ _ room field.nonempty hfield.holds
    rw [transfer_headers, all_marked, flatMap_cons, taken_append, hfield.length, ← helements]
    cases transfer_elements m (header.value.start + (value_text field.items).length) room header.value.start with
    | success pointers =>
      simp only [Parsed.map_prepend, ih]
      simp only [Parsed.map, length_map]
      rfl
    | error | progress | oob => rfl

end openvocs.http
