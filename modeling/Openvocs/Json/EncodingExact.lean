import Openvocs.Json.Encoding
import Openvocs.Json.Text

open List Option

namespace openvocs.json.encoding

open writer

variable {ν : Type} (double : Double ν)

mutual

/-- What is written for a value. An empty array is cut if there is room for its first octet
    only. -/
def layout (order : Option KeyOrder) (config : StringifyConfig) (depth : Nat) : Value ν → Layout
  | .null => .octets (calculate_item config.literal null_word)
  | .true_ => .octets (calculate_item config.literal true_word)
  | .false_ => .octets (calculate_item config.literal false_word)
  | .number value => .octets (calculate_item config.number (number_fill_string double value))
  | .string content => ⟨calculate_item config.string content, string_is_valid content, []⟩
  | .array [] => ⟨2, true, [1]⟩
  | .array (item :: items) =>
    (Layout.octets (calculate_indent config.array depth + (chars config.array.intro).length)).and_then
      ((items_layout order config (depth + 1) (item :: items)).and_then
        (.octets ((chars config.array.out).length +
          (calculate_indent config.array depth + (chars config.array.outro).length))))
  | .object [] => .octets 2
  | .object (member :: members) =>
    (Layout.octets (calculate_indent config.object depth + (chars config.object.intro).length)).and_then
      ((members_layout config.object (depth + 1)
        (ordered order (member_layouts order config (depth + 1) (member :: members)))).and_then
        (.octets ((chars config.object.out).length +
          (calculate_indent config.object depth + (chars config.object.outro).length))))

/-- What is written for the items of an array. -/
def items_layout (order : Option KeyOrder) (config : StringifyConfig) (depth : Nat) : List (Value ν) → Layout
  | [] => .octets 0
  | item :: items =>
    (Layout.octets (if item.is_filled then 0 else calculate_indent config.array depth)).and_then
      ((layout order config depth item).and_then
        ((Layout.octets (if items.isEmpty then 0 else (chars config.array.separator).length)).and_then
          (items_layout order config depth items)))

/-- The members of an object, each with what is written for its value. There has to be room
    for two octets in front of it, so that no empty array is cut. -/
def member_layouts (order : Option KeyOrder) (config : StringifyConfig) (depth : Nat) :
    List (Key × Value ν) → List (Key × Layout)
  | [] => []
  | (key, value) :: members =>
    (key, ((Layout.octets (if config.object.depth && value.is_filled then 1 else 0)).and_then
      (layout order config depth value)).at_least 2) :: member_layouts order config depth members

/-- What is written for the members of an object, without a separator at the end. -/
def members_layout (config : ValueConfig) (depth : Nat) : List (Key × Option Layout) → Layout
  | [] => .octets 0
  | (_, none) :: _ => ⟨0, false, []⟩
  | (key, some l) :: members =>
    (Layout.octets (calculate_indent config depth + (key.length + 2) + (chars config.delimiter).length)).and_then
      (l.and_then (if members.isEmpty then .octets 0
        else (Layout.octets (chars config.separator).length).and_then (members_layout config depth members)))

end

section steps

variable {f g : Step} {l m : Layout}

theorem reach_some_encoded (f : Step) (b : Buffer) : reach (some_encoded f b) = reach (f b) := by
  rw [some_encoded]
  cases f b with
  | error b' => rfl
  | ok b' =>
    rw [Except.bind]
    split <;> rfl

theorem writes_some_encoded (hf : Writes f l) (hl : 0 < l.length) : Writes (some_encoded f) l where
  mono b := (hf.mono b).trans_eq (reach_some_encoded f b).symm
  fits b hb hvalid := by
    obtain ⟨octets, hoctets, hok⟩ := hf.fits b hb hvalid
    refine ⟨octets, hoctets, ?_⟩
    rw [some_encoded, hok, Except.bind, if_neg]
    rw [put_text, length_append]
    omega
  cut b hb := (hf.cut b hb).trans_eq (reach_some_encoded f b).symm
  refused b hb hfit := by
    obtain ⟨b', herror, hreach⟩ := hf.refused b hb hfit
    exact ⟨b', by rw [some_encoded, herror, Except.bind], hreach⟩

theorem writes_if_not_null (content : Option (List Byte)) :
    Writes (write_if_not_null content) (.octets (chars content).length) := by
  cases content with
  | none => exact writes_skip
  | some octets => exact writes_write octets

theorem writes_indents (indent : List Byte) (n : Nat) (hg : Writes g m) (hm : 1 ≤ m.length)
    (hcuts : ∀ x ∈ m.cuts, 1 ≤ x) :
    Writes (and_then (write_indents indent n) g) ((Layout.octets (n * indent.length)).and_then m) := by
  induction n with
  | zero =>
    rw [Nat.zero_mul, Layout.zero_and_then]
    exact hg
  | succ n ih =>
    have hlayout : (Layout.octets ((n + 1) * indent.length)).and_then m =
        (Layout.octets indent.length).and_then ((Layout.octets (n * indent.length)).and_then m) := by
      rw [← Layout.and_then_assoc, Layout.octets_and_then, Nat.succ_mul, Nat.add_comm]
    rw [hlayout, write_indents, need_and_then, and_then_assoc, need_force (Nat.le_succ _)]
    refine ((writes_write indent).and_then ih).need_of_cuts ?_ ?_
    · rw [Layout.length_and_then, Layout.length_and_then, Layout.length_octets]
      omega
    intro x hx
    rw [Layout.mem_cuts_and_then] at hx
    obtain hx | ⟨-, y, hy, rfl⟩ := hx
    · cases hx
    rw [Layout.mem_cuts_and_then] at hy
    obtain hy | ⟨-, z, hz, rfl⟩ := hy
    · cases hy
    have hpos := hcuts z hz
    rw [Layout.length_octets, Layout.length_octets]
    omega

variable (config : ValueConfig)

theorem writes_indent (depth : Nat) (hg : Writes g m) (hm : 1 ≤ m.length)
    (hcuts : ∀ x ∈ m.cuts, 1 ≤ x) :
    Writes (and_then (write_indent config depth) g) ((Layout.octets (calculate_indent config depth)).and_then m) := by
  rw [write_indent, calculate_indent]
  cases hdepth : config.depth with
  | false =>
    simp only [Bool.false_eq_true, if_false, skip_and_then, Layout.zero_and_then]
    exact hg
  | true =>
    cases hindent : config.indent with
    | none =>
      simp only [if_true, chars, getD_none, length_nil, Nat.mul_zero, skip_and_then, Layout.zero_and_then]
      exact hg
    | some indent =>
      simp only [if_true, chars_some]
      rw [need_and_then]
      refine (writes_indents indent depth hg hm hcuts).need_of_cuts ?_ ?_
      · rw [Layout.length_and_then, Layout.length_octets]
        exact Nat.le_add_right ..
      intro x hx
      rw [Layout.mem_cuts_and_then] at hx
      obtain hx | ⟨-, y, hy, rfl⟩ := hx
      · cases hx
      · exact Nat.le_add_left ..

theorem writes_intro {config : ValueConfig} (depth : Nat) (h : config.intro.isSome = true)
    (hpos : 0 < (chars config.intro).length) :
    Writes (write_intro config depth) (.octets (calculate_indent config depth + (chars config.intro).length)) := by
  rw [write_intro, if_pos h, ← Layout.octets_and_then]
  exact writes_indent config depth (writes_if_not_null config.intro) hpos (by simp)

theorem writes_outro {config : ValueConfig} (depth : Nat) (h : config.intro.isSome = true)
    (houtro : config.outro.isSome = true) (hpos : 0 < (chars config.outro).length) :
    Writes (write_outro config depth)
      (.octets ((chars config.out).length + (calculate_indent config depth + (chars config.outro).length))) := by
  rw [write_outro, if_pos (by rw [h, houtro]; rfl), ← Layout.octets_and_then, ← Layout.octets_and_then]
  exact (writes_if_not_null config.out).and_then
    (writes_indent config depth (writes_if_not_null config.outro) hpos (by simp))

theorem writes_item (content : List Byte) :
    Writes (item_encode config content) (.octets (calculate_item config content)) := by
  have hlength : calculate_item config content =
      (chars config.intro).length + (content.length + (chars config.outro).length) := by
    rw [calculate_item]
    omega
  rw [hlength, ← Layout.octets_and_then, ← Layout.octets_and_then]
  exact (writes_if_not_null config.intro).and_then ((writes_write content).and_then (writes_if_not_null config.outro))

theorem content_le (content : List Byte) : content.length ≤ calculate_item config content := by
  rw [calculate_item]
  omega

theorem writes_literal {word : List Byte} (h : 4 ≤ word.length) :
    Writes (literal_encode config word) (.octets (calculate_item config word)) :=
  (writes_item config word).need_of_cuts (h.trans (content_le config word)) (by simp)

theorem writes_number {content : List Byte} (h : content ≠ []) :
    Writes (number_encode config content) (.octets (calculate_item config content)) := by
  rw [number_encode, if_neg h]
  exact ((writes_item config content).need_of_cuts (content_le config content) (by simp)).need_of_cuts
    ((Nat.succ_le_of_lt (length_pos_iff.mpr h)).trans (content_le config content)) (by simp)

theorem writes_string {config : ValueConfig} (content : List Byte)
    (h : content.length + 2 ≤ calculate_item config content) :
    Writes (string_encode config content) ⟨calculate_item config content, string_is_valid content, []⟩ := by
  rw [string_encode]
  cases hvalid : string_is_valid content with
  | false =>
    rw [if_neg Bool.false_ne_true]
    exact (writes_refuse _).need_of_cuts (by show 1 ≤ calculate_item config content; omega) (by simp)
  | true =>
    rw [if_pos rfl]
    refine ((writes_item config content).need_of_cuts h (by simp)).need_of_cuts ?_ (by simp)
    rw [Layout.length_octets]
    omega

theorem writes_entry {config : ValueConfig} (depth : Nat) (key : Key) (is_filled : Bool) (hf : Writes f l)
    (hl : 0 < l.length) (hseparator : 0 < (chars config.separator).length) :
    Writes (object_write_entry config depth key is_filled f)
      ((Layout.octets (calculate_indent config depth + (key.length + 2) + (chars config.delimiter).length)).and_then
        ((((Layout.octets (if config.depth && is_filled then 1 else 0)).and_then l).at_least 2).and_then
          (.octets (chars config.separator).length))) := by
  have hquoted : (quote :: key ++ [quote]).length = key.length + 2 := by simp
  have hline : Writes (need 2 (and_then (if config.depth && is_filled then force [10] else skip)
      (and_then (some_encoded f) (write_if_not_null config.separator))))
      ((((Layout.octets (if config.depth && is_filled then 1 else 0)).and_then l).at_least 2).and_then
        (.octets (chars config.separator).length)) := by
    have hvalue := (writes_some_encoded hf hl).and_then (writes_if_not_null config.separator)
    rw [← Layout.at_least_and_then, Layout.and_then_assoc]
    by_cases hfilled : (config.depth && is_filled) = true
    · rw [if_pos hfilled, if_pos hfilled, need_force (by simp)]
      refine ((writes_write [10]).and_then hvalue).need ?_
      rw [Layout.length_and_then, Layout.length_octets]
      simp only [length_singleton, Layout.length_and_then]
      omega
    rw [if_neg hfilled, if_neg hfilled, Layout.zero_and_then, skip_and_then]
    refine hvalue.need ?_
    rw [Layout.length_and_then, Layout.length_octets]
    omega
  have hkey := (writes_write (quote :: key ++ [quote])).and_then ((writes_if_not_null config.delimiter).and_then hline)
  rw [← need_write, hquoted, ← need_force (by rw [hquoted])] at hkey
  have hentry := writes_indent config depth hkey
    (by
      rw [Layout.length_and_then, Layout.length_octets]
      omega)
    (by
      intro x hx
      rw [Layout.mem_cuts_and_then] at hx
      obtain hx | ⟨-, y, hy, rfl⟩ := hx
      · cases hx
      rw [Layout.length_octets]
      omega)
  rw [object_write_entry]
  convert hentry using 1
  rw [← Layout.octets_and_then (calculate_indent config depth + (key.length + 2)),
    ← Layout.octets_and_then (calculate_indent config depth) (key.length + 2)]
  simp only [Layout.and_then_assoc]

end steps

section order

variable {α β : Type}

theorem ordered_map (order : Option KeyOrder) (f : α → β) (entries : List (Key × α)) :
    ordered order (entries.map fun entry => (entry.1, f entry.2)) =
      (ordered order entries).map fun entry => (entry.1, entry.2.map f) := by
  cases order with
  | none => simp [ordered]
  | some order =>
    have hlookup (key : Key) :
        (entries.map fun entry => (entry.1, f entry.2)).lookup key = (entries.lookup key).map f := by
      induction entries with
      | nil => rfl
      | cons entry entries ih =>
        rw [map_cons, lookup_cons, lookup_cons]
        split
        · rfl
        · exact ih
    have hkeys : (entries.map fun entry => (entry.1, f entry.2)).map Prod.fst = entries.map Prod.fst := by
      simp [Function.comp_def]
    simp [ordered, hkeys, hlookup]

theorem placed_perm (order : KeyOrder) (keys list : List Key) :
    (keys.foldl (fun list key => order.place key list) list).Perm (keys ++ list) := by
  induction keys generalizing list with
  | nil => exact List.Perm.refl _
  | cons key keys ih =>
    exact (ih (order.place key list)).trans (((order.places key list).append_left keys).trans perm_middle)

theorem lookup_of_mem {entries : List (Key × α)} (h : (entries.map Prod.fst).Nodup) {entry : Key × α}
    (hentry : entry ∈ entries) : entries.lookup entry.1 = some entry.2 := by
  induction entries with
  | nil => cases hentry
  | cons first entries ih =>
    obtain ⟨key, value⟩ := first
    rw [map_cons, nodup_cons] at h
    obtain rfl | hentry := mem_cons.mp hentry
    · exact lookup_cons_self
    have hmem : entry.1 ∈ entries.map Prod.fst := List.mem_map_of_mem hentry
    have hne : entry.1 ≠ key := fun heq => h.1 (heq ▸ hmem)
    rw [lookup_cons, beq_eq_false_iff_ne.mpr hne]
    exact ih h.2 hentry

theorem ordered_perm (order : Option KeyOrder) {entries : List (Key × α)} (h : (entries.map Prod.fst).Nodup) :
    (ordered order entries).Perm (entries.map fun entry => (entry.1, some entry.2)) := by
  cases order with
  | none => exact List.Perm.refl _
  | some order =>
    have hplaced := (placed_perm order (entries.map Prod.fst) []).map fun key => (key, entries.lookup key)
    rw [List.append_nil, List.map_map] at hplaced
    refine hplaced.trans (List.Perm.of_eq ?_)
    apply map_congr_left
    intro entry hentry
    rw [Function.comp_apply, lookup_of_mem h hentry]

end order

/-- Every object has each key once. -/
inductive Keyed : Value ν → Prop
  | null : Keyed .null
  | true_ : Keyed .true_
  | false_ : Keyed .false_
  | number (value : ν) : Keyed (.number value)
  | string (content : List Byte) : Keyed (.string content)
  | array (items : List (Value ν)) : (∀ item ∈ items, Keyed item) → Keyed (.array items)
  | object (members : List (Key × Value ν)) : (members.map Prod.fst).Nodup →
      (∀ member ∈ members, Keyed member.2) → Keyed (.object members)

theorem member_layouts_eq (order : Option KeyOrder) (config : StringifyConfig) (depth : Nat)
    (members : List (Key × Value ν)) :
    member_layouts double order config depth members = members.map fun m =>
      (m.1, ((Layout.octets (if config.object.depth && m.2.is_filled then 1 else 0)).and_then
        (layout double order config depth m.2)).at_least 2) := by
  induction members with
  | nil => rfl
  | cons member members ih =>
    obtain ⟨key, value⟩ := member
    rw [member_layouts, ih, map_cons]

theorem member_entries_eq (order : Option KeyOrder) (config : StringifyConfig) (depth : Nat)
    (members : List (Key × Value ν)) :
    member_entries double order config depth members =
      members.map fun m => (m.1, (m.2.is_filled, value_encode double order config depth m.2)) := by
  induction members with
  | nil => rfl
  | cons member members ih =>
    obtain ⟨key, value⟩ := member
    rw [member_entries, ih, map_cons]

section values

variable {double} {order : Option KeyOrder} {config : StringifyConfig}

/-- What is written for a member. -/
def member_layout (double : Double ν) (order : Option KeyOrder) (config : StringifyConfig) (depth : Nat)
    (value : Value ν) : Layout :=
  ((Layout.octets (if config.object.depth && value.is_filled then 1 else 0)).and_then
    (layout double order config depth value)).at_least 2

theorem writes_ordered (hseparator : 0 < (chars config.object.separator).length) (depth : Nat)
    {rows : List (Key × Option (Value ν))} (hrows : rows ≠ [])
    (h : ∀ row ∈ rows, ∃ value, row.2 = some value ∧ 0 < (layout double order config depth value).length ∧
      Writes (value_encode double order config depth value) (layout double order config depth value)) :
    Writes (object_write_ordered config.object depth
        (rows.map fun row =>
          (row.1, row.2.map fun value => (value.is_filled, value_encode double order config depth value))))
      ((members_layout double config.object depth
        (rows.map fun row => (row.1, row.2.map (member_layout double order config depth)))).and_then
          (.octets (chars config.object.separator).length)) := by
  induction rows with
  | nil => exact absurd rfl hrows
  | cons row rows ih =>
    obtain ⟨key, found⟩ := row
    rw [forall_mem_cons] at h
    obtain ⟨⟨value, rfl, hpos, hwrites⟩, hrest⟩ := h
    have hentry := @writes_entry _ _ config.object depth key value.is_filled hwrites hpos hseparator
    rw [map_cons, map_cons]
    simp only [map_some, object_write_ordered, members_layout]
    cases rows with
    | nil =>
      have hwritten := hentry.and_then writes_skip
      rw [Layout.and_then_zero] at hwritten
      simp only [map_nil, isEmpty_nil, if_true, object_write_ordered, Layout.and_then_zero, member_layout]
      rw [Layout.and_then_assoc]
      exact hwritten
    | cons next rows =>
      have hwritten := hentry.and_then (ih (cons_ne_nil next rows) hrest)
      simp only [map_cons, isEmpty_cons, Bool.false_eq_true, if_false, member_layout, Layout.and_then_assoc]
        at hwritten ⊢
      exact hwritten

theorem layout_pos (plain : Plain config) (hnumber : ∀ value, number_fill_string double value ≠ []) (depth : Nat)
    (value : Value ν) : 0 < (layout double order config depth value).length := by
  cases value with
  | null | true_ | false_ => exact Nat.lt_of_lt_of_le (by decide) (content_le _ _)
  | number value =>
    exact Nat.lt_of_lt_of_le (length_pos_iff.mpr (hnumber value)) (content_le _ _)
  | string content =>
    simp only [layout, calculate_item, plain.string, chars_some, length_singleton]
    omega
  | array items =>
    cases items with
    | nil => simp [layout]
    | cons item items =>
      have hintro := plain.array_intro_some.2
      simp only [layout, Layout.length_and_then, Layout.length_octets]
      omega
  | object members =>
    cases members with
    | nil => simp [layout]
    | cons member members =>
      have hintro := plain.object_intro_some.2
      simp only [layout, Layout.length_and_then, Layout.length_octets]
      omega

theorem layout_cuts_pos (plain : Plain config) (depth : Nat) (value : Value ν) :
    ∀ x ∈ (layout double order config depth value).cuts, 1 ≤ x := by
  intro x hx
  cases value with
  | null | true_ | false_ | number value | string content => simp [layout] at hx
  | array items =>
    cases items with
    | nil =>
      simp only [layout, mem_singleton] at hx
      omega
    | cons item items =>
      have hintro := plain.array_intro_some.2
      rw [layout, Layout.mem_cuts_and_then] at hx
      obtain hx | ⟨-, y, -, rfl⟩ := hx
      · cases hx
      rw [Layout.length_octets]
      omega
  | object members =>
    cases members with
    | nil => simp [layout] at hx
    | cons member members =>
      have hintro := plain.object_intro_some.2
      rw [layout, Layout.mem_cuts_and_then] at hx
      obtain hx | ⟨-, y, -, rfl⟩ := hx
      · cases hx
      rw [Layout.length_octets]
      omega

theorem writes_items (plain : Plain config) (hnumber : ∀ value, number_fill_string double value ≠ []) (depth : Nat)
    {items : List (Value ν)}
    (h : ∀ item ∈ items, Writes (value_encode double order config depth item) (layout double order config depth item)) :
    Writes (items_encode double order config depth items) (items_layout double order config depth items) := by
  induction items with
  | nil => exact writes_skip
  | cons item items ih =>
    rw [forall_mem_cons] at h
    have hpos : 0 < (layout double order config depth item).length := layout_pos plain hnumber depth item
    have hitem := writes_some_encoded h.1 hpos
    have hseparator : Writes (if items.isEmpty then skip else write_if_not_null config.array.separator)
        (.octets (if items.isEmpty then 0 else (chars config.array.separator).length)) := by
      cases items with
      | nil => exact writes_skip
      | cons next items => exact writes_if_not_null config.array.separator
    have hrest := hitem.and_then (hseparator.and_then (ih h.2))
    rw [items_encode, items_layout]
    by_cases hfilled : item.is_filled = true
    · rw [if_pos hfilled, if_pos hfilled, Layout.zero_and_then, skip_and_then]
      exact hrest
    rw [if_neg hfilled, if_neg hfilled]
    refine writes_indent config.array depth hrest ?_ ?_
    · rw [Layout.length_and_then]
      omega
    intro x hx
    rw [Layout.mem_cuts_and_then] at hx
    obtain hx | ⟨-, y, -, rfl⟩ := hx
    · exact layout_cuts_pos plain depth item x hx
    · omega

theorem writes_value (plain : Plain config) (hnumber : ∀ value, number_fill_string double value ≠ [])
    {value : Value ν} (h : Keyed value) (depth : Nat) :
    Writes (value_encode double order config depth value) (layout double order config depth value) := by
  induction h generalizing depth with
  | null | true_ | false_ =>
    rw [value_encode, layout]
    exact writes_literal _ (by decide)
  | number value =>
    rw [value_encode, layout]
    exact writes_number _ (hnumber value)
  | string content =>
    rw [value_encode, layout]
    apply writes_string
    simp only [calculate_item, plain.string, chars_some, length_singleton]
    omega
  | array items hitems ih =>
    cases items with
    | nil =>
      rw [value_encode, layout]
      exact writes_force rfl
    | cons item items =>
      obtain ⟨hintro, hpos⟩ := plain.array_intro_some
      have houtro := writes_outro depth hintro (by simp [plain.array_outro]) (by simp [plain.array_outro])
      have hwritten := (writes_intro depth hintro hpos).and_then
        ((writes_items plain hnumber (depth + 1) fun item hitem => ih item hitem (depth + 1)).and_then houtro)
      rw [value_encode, layout]
      refine hwritten.need_of_cuts ?_ ?_
      · rw [Layout.length_and_then, Layout.length_octets]
        omega
      intro x hx
      rw [Layout.mem_cuts_and_then] at hx
      obtain hx | ⟨-, y, -, rfl⟩ := hx
      · cases hx
      rw [Layout.length_octets]
      omega
  | object members hkeys hmembers ih =>
    cases members with
    | nil =>
      rw [value_encode, layout]
      have hforce : need 2 (force [open_object, close_object]) = need 2 (write [open_object, close_object]) := by
        simpa using @need_force 2 [open_object, close_object] Nat.le.refl skip
      have hboth : Writes (need 2 (force [open_object, close_object])) (.octets 2) := by
        rw [hforce]
        exact (writes_write [open_object, close_object]).need_of_cuts Nat.le.refl (by simp)
      exact hboth.need_of_cuts (by simp) (by simp)
    | cons member members =>
      obtain ⟨hintro, hpos⟩ := plain.object_intro_some
      obtain ⟨ws, hseparator, -, hshort⟩ := plain.object_separator
      have hperm := ordered_perm order hkeys
      have hrows : ordered order (member :: members) ≠ [] := by
        intro hnil
        rw [hnil] at hperm
        exact absurd hperm.length_eq (by simp)
      have hmembers := @writes_ordered _ double order config (by simp [hseparator]) (depth + 1) _ hrows (by
        intro row hrow
        obtain ⟨m, hm, rfl⟩ := List.mem_map.mp (hperm.mem_iff.mp hrow)
        exact ⟨m.2, rfl, layout_pos plain hnumber (depth + 1) m.2, ih m hm (depth + 1)⟩)
      rw [← ordered_map order fun value => (value.is_filled, value_encode double order config (depth + 1) value),
        ← ordered_map order (member_layout double order config (depth + 1))] at hmembers
      have houtro := writes_outro depth hintro (by simp [plain.object_outro]) (by simp [plain.object_outro])
      have hlast := hmembers.back houtro (by
        simp only [hseparator, plain.object_outro, chars_some, length_cons, length_nil]
        omega)
      have hwritten := (writes_intro depth hintro hpos).and_then hlast
      rw [value_encode, layout, member_entries_eq, member_layouts_eq]
      refine hwritten.need_of_cuts ?_ ?_
      · rw [Layout.length_and_then, Layout.length_octets]
        omega
      intro x hx
      rw [Layout.mem_cuts_and_then] at hx
      obtain hx | ⟨-, y, -, rfl⟩ := hx
      · cases hx
      rw [Layout.length_octets]
      omega

end values

mutual

/-- All strings of a value are accepted by `ov_json_string_is_valid`. -/
def strings_valid : Value ν → Bool
  | .null | .true_ | .false_ | .number _ => true
  | .string content => string_is_valid content
  | .array items => items_valid items
  | .object members => members_valid members

def items_valid : List (Value ν) → Bool
  | [] => true
  | item :: items => strings_valid item && items_valid items

def members_valid : List (Key × Value ν) → Bool
  | [] => true
  | (_, value) :: members => strings_valid value && members_valid members

end

section lengths

variable {double} {order : Option KeyOrder} {config : StringifyConfig}

theorem items_layout_eq {depth : Nat} {items : List (Value ν)}
    (h : ∀ item ∈ items, (layout double order config depth item).length = calculate_value double config depth item ∧
      (layout double order config depth item).valid = strings_valid item) :
    (items_layout double order config depth items).length = calculate_items double config depth items ∧
      (items_layout double order config depth items).valid = items_valid items := by
  induction items with
  | nil => exact ⟨rfl, rfl⟩
  | cons item items ih =>
    rw [forall_mem_cons] at h
    obtain ⟨hlength, hvalid⟩ := ih h.2
    simp only [items_layout, calculate_items, items_valid, Layout.length_and_then, Layout.length_octets,
      Layout.valid_and_then, Layout.valid_octets, Bool.true_and, hlength, hvalid, h.1.1, h.1.2, and_true]
    omega

/-- The length of a member with the separator behind it. -/
def row_length (config : ValueConfig) (depth : Nat) (row : Key × Option Layout) : Nat :=
  calculate_indent config depth + (row.1.length + 2) + (chars config.delimiter).length +
    (row.2.map Layout.length).getD 0 + (chars config.separator).length

theorem members_layout_eq (double : Double ν) {depth : Nat} {rows : List (Key × Option Layout)} (hrows : rows ≠ [])
    (h : ∀ row ∈ rows, row.2.isSome) :
    (members_layout double config.object depth rows).length + (chars config.object.separator).length =
        (rows.map (row_length config.object depth)).sum ∧
      (members_layout double config.object depth rows).valid =
        rows.all fun row => (row.2.map Layout.valid).getD false := by
  induction rows with
  | nil => exact absurd rfl hrows
  | cons row rows ih =>
    obtain ⟨key, found⟩ := row
    rw [forall_mem_cons] at h
    obtain ⟨l, rfl⟩ := isSome_iff_exists.mp h.1
    rw [members_layout]
    cases rows with
    | nil => simp [row_length]
    | cons next rows =>
      obtain ⟨hlength, hvalid⟩ := ih (cons_ne_nil next rows) h.2
      rw [map_cons, List.sum_cons, ← hlength, all_cons, ← hvalid]
      simp only [isEmpty_cons, Bool.false_eq_true, if_false, Layout.length_and_then, Layout.length_octets,
        Layout.valid_and_then, Layout.valid_octets, Bool.true_and, row_length, map_some, getD_some,
        and_true]
      omega

theorem calculate_rows {depth : Nat} {members : List (Key × Value ν)}
    (h : ∀ m ∈ members, (layout double order config depth m.2).length = calculate_value double config depth m.2 ∧
      (layout double order config depth m.2).valid = strings_valid m.2) :
    ((members.map fun m => (m.1, some (member_layout double order config depth m.2))).map
        (row_length config.object depth)).sum = calculate_members double config depth members ∧
      (members.map fun m => (m.1, some (member_layout double order config depth m.2))).all
        (fun row => (row.2.map Layout.valid).getD false) = members_valid members := by
  induction members with
  | nil => exact ⟨rfl, rfl⟩
  | cons member members ih =>
    obtain ⟨key, value⟩ := member
    rw [forall_mem_cons] at h
    obtain ⟨hlength, hvalid⟩ := ih h.2
    rw [map_cons, map_cons, List.sum_cons, hlength, all_cons, hvalid]
    simp only [row_length, member_layout, calculate_members, members_valid, map_some, getD_some,
      Layout.length_at_least, Layout.valid_at_least, Layout.length_and_then, Layout.length_octets,
      Layout.valid_and_then, Layout.valid_octets, Bool.true_and, h.1.1, h.1.2, and_true]
    omega

theorem layout_eq {value : Value ν} (h : Keyed value) (depth : Nat) :
    (layout double order config depth value).length = calculate_value double config depth value ∧
      (layout double order config depth value).valid = strings_valid value := by
  induction h generalizing depth with
  | null | true_ | false_ => exact ⟨rfl, rfl⟩
  | number value => exact ⟨rfl, rfl⟩
  | string content => exact ⟨rfl, rfl⟩
  | array items hitems ih =>
    cases items with
    | nil => exact ⟨rfl, rfl⟩
    | cons item items =>
      obtain ⟨hlength, hvalid⟩ := items_layout_eq fun other hother => ih other hother (depth + 1)
      simp only [layout, calculate_value, strings_valid, Layout.length_and_then, Layout.length_octets,
        Layout.valid_and_then, Layout.valid_octets, Bool.true_and, Bool.and_true, hlength, hvalid, and_true]
      omega
  | object members hkeys hmembers ih =>
    cases members with
    | nil => exact ⟨rfl, rfl⟩
    | cons member members =>
      have hkeys' : ((member_layouts double order config (depth + 1) (member :: members)).map Prod.fst).Nodup := by
        rw [member_layouts_eq, List.map_map]
        exact hkeys
      have hperm := ordered_perm order hkeys'
      rw [member_layouts_eq, List.map_map] at hperm
      have hrows : ordered order (member_layouts double order config (depth + 1) (member :: members)) ≠ [] := by
        intro hnil
        rw [member_layouts_eq] at hnil
        rw [hnil] at hperm
        exact absurd hperm.length_eq (by simp)
      rw [← member_layouts_eq] at hperm
      obtain ⟨hlength, hvalid⟩ := @members_layout_eq _ config double (depth + 1) _ hrows (by
        intro row hrow
        obtain ⟨m, -, rfl⟩ := List.mem_map.mp (hperm.mem_iff.mp hrow)
        rfl)
      obtain ⟨hsum, hall⟩ := calculate_rows fun m hm => ih m hm (depth + 1)
      rw [(hperm.map _).sum_nat] at hlength
      rw [hperm.all_eq] at hvalid
      have hlength := hlength.trans hsum
      simp only [layout, calculate_value, strings_valid, Layout.length_and_then, Layout.length_octets,
        Layout.valid_and_then, Layout.valid_octets, Bool.true_and, Bool.and_true, hvalid.trans hall, and_true]
      omega

end lengths

theorem print_integer_ne_nil (n : Int) : print_integer n ≠ [] := by
  rw [print_integer]
  split
  · simp
  · exact (cstring.isNumber_decimal n.natAbs).1

theorem calculate_plain {config : StringifyConfig} (plain : Plain config) (double : Double ν) (value : Value ν) :
    parser_calculate double config value = some (calculate_value double config 0 value) := by
  obtain ⟨_, harray, -⟩ := plain.array_intro
  obtain ⟨_, harrayseparator, -⟩ := plain.array_separator
  obtain ⟨_, hobject, -⟩ := plain.object_intro
  obtain ⟨_, hobjectseparator, -⟩ := plain.object_separator
  have hvalid : stringify_config_validate config = true := by
    simp [stringify_config_validate, plain.string, plain.array_outro, plain.object_outro, plain.object_delimiter,
      harray, harrayseparator, hobject, hobjectseparator]
  simp [parser_calculate, hvalid, plain.intro, plain.outro, chars]

/-- The encoder returns the length that was calculated and writes as many octets if the buffer
    is large enough, and else fails within the buffer, if and only if the buffer does not end
    within an empty array that is not the value of a member, and all strings are valid where
    the buffer is large enough. -/
theorem encoding_exact_iff (double : Double ν) (hgeneral : ∀ number, double.general number ≠ [])
    {config : StringifyConfig} (hconfig : config = config_stringify_minimal ∨ config = config_stringify_default)
    (order : Option KeyOrder) {value : Value ν} (h : Keyed value) (size : Nat) :
    ∃ length, parser_calculate double config value = some length ∧
      (writer.Exact (parser_encode double order config value size) length size ↔
        size ∉ (layout double order config 0 value).cuts ∧ (length ≤ size → strings_valid value = true)) := by
  have plain : Plain config := by
    rcases hconfig with rfl | rfl
    · exact plain_minimal
    · exact plain_default
  have hnumber (number : ν) : number_fill_string double number ≠ [] := by
    rw [number_fill_string]
    split
    · exact print_integer_ne_nil _
    · exact hgeneral number
  obtain ⟨hlength, hvalid⟩ := @layout_eq _ double order config _ h 0
  have hwritten : Writes (parser_encode double order config value size) (layout double order config 0 value) := by
    rw [parser_encode, plain.intro, plain.outro]
    simp only [skip_and_then, and_then_skip]
    exact (writes_value plain hnumber h 0).need_of_cuts (layout_pos plain hnumber 0 value)
      (layout_cuts_pos plain 0 value)
  refine ⟨_, calculate_plain plain double value, ?_⟩
  rw [← hlength, hwritten.exact_iff, hvalid]

def whole_numbers : Double Int where
  integer := some
  general := fun _ => [48]
  strtod := fun _ => none

/-- An empty array behind a number, in a buffer that is one octet too short. -/
theorem short_buffer_exact : ∃ length,
    parser_calculate whole_numbers config_stringify_minimal (.array [.number 7, .array []]) = some length ∧
      (writer.Exact
          (parser_encode whole_numbers none config_stringify_minimal (.array [.number 7, .array []]) 5) length 5 ↔
        5 ∉ (layout whole_numbers none config_stringify_minimal 0 (.array [.number 7, .array []])).cuts ∧
          (length ≤ 5 → strings_valid (.array [.number (7 : Int), .array []]) = true)) := by
  refine encoding_exact_iff whole_numbers (fun _ => by simp [whole_numbers]) (.inl rfl) none (.array _ ?_) 5
  intro item hitem
  obtain rfl | rfl : item = .number 7 ∨ item = .array [] := by simpa using hitem
  · exact .number 7
  · exact .array _ (by simp)

/-- An empty array is written to a buffer of one octet. -/
theorem empty_array_written_beyond :
    parser_calculate whole_numbers config_stringify_minimal (.array []) = some 2 ∧
      (∃ b,
        parser_encode whole_numbers none config_stringify_minimal (.array []) 1 (.of_size 1) = .ok b ∧ b.reach = 2) ∧
      ¬ writer.Exact (parser_encode whole_numbers none config_stringify_minimal (.array []) 1) 2 1 := by
  refine ⟨rfl, ⟨_, rfl, rfl⟩, ?_⟩
  rintro ⟨b, herror, -⟩
  cases herror

end openvocs.json.encoding
