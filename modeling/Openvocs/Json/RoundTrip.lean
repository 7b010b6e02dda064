import Openvocs.Json.Reading

open List Option

namespace openvocs.json

open cstring

variable {ν : Type} {double : Double ν}

/-- An array or an object. -/
def Value.is_container : Value ν → Bool
  | .array _ => true
  | .object _ => true
  | _ => false

/-- The searches get a value right: no quote in a string or key is taken for the closing one, and
within each array the square brackets are balanced and within each object the curly ones, those in
strings and keys included. -/
inductive Value.Fits : Value ν → Prop
  | null : Fits .null
  | true_ : Fits .true_
  | false_ : Fits .false_
  | number (value : ν) : Fits (.number value)
  | string (content : List Byte) : Closes content → Fits (.string content)
  | array (items : List (Value ν)) :
      Balanced open_array close_array (items_marks (fun c => c = open_array || c = close_array) items) →
      (∀ item ∈ items, Fits item) → Fits (.array items)
  | object (members : List (List Byte × Value ν)) :
      Balanced open_object close_object (members_marks (fun c => c = open_object || c = close_object) members) →
      (∀ m ∈ members, Closes m.1) → (∀ m ∈ members, Fits m.2) → Fits (.object members)

theorem bracket_of_array_mark : ∀ c : Byte, (decide (c = open_array) || decide (c = close_array)) = true →
    is_bracket c = true := by
  intro c hc
  simp only [Bool.or_eq_true, decide_eq_true_eq] at hc
  obtain rfl | rfl := hc <;> rfl

theorem bracket_of_object_mark : ∀ c : Byte, (decide (c = open_object) || decide (c = close_object)) = true →
    is_bracket c = true := by
  intro c hc
  simp only [Bool.or_eq_true, decide_eq_true_eq] at hc
  obtain rfl | rfl := hc <;> rfl

theorem filter_between {p : Byte → Bool} {opening closing : Byte} {content inner : List Byte}
    (h : (opening :: (content ++ [closing])).filter p = [opening].filter p ++ inner ++ [closing].filter p) :
    content.filter p = inner := by
  rw [← singleton_append, filter_append, filter_append, append_assoc] at h
  exact append_cancel_right (append_cancel_left h)

section brackets

variable {config : StringifyConfig} (plain : Plain config) (depth : Nat)
include plain

theorem filter_body {p : Byte → Bool} (hp : ∀ c, p c = true → is_bracket c = true) {value : Value ν}
    (h : value.Built (Exact double)) : (body double config depth value).filter p = marks p value := by
  obtain ⟨ws, hws, htext⟩ := text_eq_body double plain value depth
  rw [← filter_text hp plain h depth, htext, filter_append, filter_blank hp hws, nil_append]

theorem array_balanced_iff {items : List (Value ν)} (h : (Value.array items).Built (Exact double))
    {content : List Byte} (hbody : body double config depth (.array items) = open_array :: (content ++ [close_array])) :
    depth_after open_array close_array 0 content = some 0 ↔
      Balanced open_array close_array (items_marks (fun c => c = open_array || c = close_array) items) := by
  have hmarks := filter_body plain depth bracket_of_array_mark h
  rw [hbody, marks] at hmarks
  rw [← depth_after_filter, filter_between hmarks]
  rfl

theorem object_balanced_iff {members : List (List Byte × Value ν)} (h : (Value.object members).Built (Exact double))
    {content : List Byte}
    (hbody : body double config depth (.object members) = open_object :: (content ++ [close_object])) :
    depth_after open_object close_object 0 content = some 0 ↔
      Balanced open_object close_object (members_marks (fun c => c = open_object || c = close_object) members) := by
  have hmarks := filter_body plain depth bracket_of_object_mark h
  rw [hbody, marks, members_marks_eq] at hmarks
  rw [← depth_after_filter, filter_between hmarks]
  rfl

theorem length_body_item {items : List (Value ν)} {item : Value ν} (hitem : item ∈ items) :
    (body double config (depth + 1) item).length + 2 ≤ (body double config depth (.array items)).length := by
  have hrow : ∀ items : List (Value ν), item ∈ items →
      (body double config (depth + 1) item).length ≤ (items_text double config (depth + 1) items).length := by
    intro items hmem
    induction items with
    | nil => cases hmem
    | cons first items ih =>
      obtain ⟨ws, -, htext⟩ := items_text_cons double plain first items (depth + 1)
      rw [htext]
      rcases mem_cons.mp hmem with rfl | hmem
      · simp only [length_append]
        omega
      have hrest := ih hmem
      cases items with
      | nil => cases hmem
      | cons next items =>
        simp only [isEmpty_cons, Bool.false_eq_true, if_false, length_append]
        omega
  obtain ⟨content, hbody, hcontent⟩ := @array_body ν double config plain depth items
  rcases hcontent with ⟨rfl, -⟩ | ⟨first, rest, ws, ws', rfl, -, -, rfl⟩
  · cases hitem
  rw [hbody]
  simp only [length_append, length_cons, length_nil]
  rcases mem_cons.mp hitem with rfl | hitem
  · omega
  have hle := hrow rest hitem
  cases rest with
  | nil => cases hitem
  | cons next rest =>
    simp only [isEmpty_cons, Bool.false_eq_true, if_false, length_append]
    omega

theorem length_body_member {members : List (List Byte × Value ν)} {m : List Byte × Value ν} (hm : m ∈ members) :
    (body double config (depth + 1) m.2).length + 2 ≤ (body double config depth (.object members)).length := by
  have hrow : ∀ l : List (List Byte × Value ν), m ∈ l → (body double config (depth + 1) m.2).length ≤
      (members_text config.object (depth + 1) (l.map fun m => (m.1, member_text double config (depth + 1) m.2))).length := by
    intro l hmem
    induction l with
    | nil => cases hmem
    | cons first l ih =>
      rw [map_cons, members_text]
      rcases mem_cons.mp hmem with rfl | hmem
      · obtain ⟨ws, -, htext⟩ := member_text_eq double plain m.2 (depth + 1)
        simp only [htext, length_append]
        omega
      have hrest := ih hmem
      cases l with
      | nil => cases hmem
      | cons next l =>
        simp only [map_cons, isEmpty_cons, Bool.false_eq_true, if_false, length_append] at hrest ⊢
        omega
  have hle := hrow _ ((collocate_object_keys_perm members).mem_iff.mpr hm)
  obtain ⟨content, hbody, hcontent⟩ := @object_body ν double config plain depth members
  rcases hcontent with ⟨rfl, -⟩ | ⟨ws, ws', -, -, -, rfl⟩
  · cases hm
  rw [hbody]
  simp only [length_append, length_cons, length_nil]
  omega

end brackets

section fits

variable {config : StringifyConfig} (plain : Plain config)
include plain

theorem decode_scalar {value : Value ν} (h : value.Built (Exact double)) (hscalar : value.is_container = false)
    (hstring : ∀ content, value = .string content → Closes content) (depth fuel : Nat) :
    Reads (decode double (fuel + 1)) (body double config depth value) (canon value) := by
  intro c rest size hc hsize
  obtain ⟨first, tail, hfirst, hblank⟩ := body_cons plain h depth
  rw [decode, hfirst, List.cons_append, value_decode_token hblank (by simp [hfirst] at hsize; omega),
    ← List.cons_append, ← hfirst]
  cases h with
  | null | true_ | false_ =>
    simp only [body, text, item_text, plain.literal, chars, getD_none, nil_append, List.append_nil] at hsize ⊢
    exact word_decode_eq _ _ (by decide) (by omega)
  | number value hvalue =>
    obtain ⟨n, hn, hstrtod⟩ := hvalue.fill_string
    obtain ⟨d, s, hs, hd⟩ := print_integer_cons n
    simp only [body, text, item_text, plain.number, chars, getD_none, nil_append, List.append_nil, hn] at hsize ⊢
    have hnumber := number_decode_eq hstrtod hc rest hsize
    have hbegins : ∀ d : Byte, begins_number d = true → d ≠ open_object ∧ d ≠ open_array ∧ d ≠ quote ∧
        d ≠ 110 ∧ d ≠ 102 ∧ d ≠ 116 :=
      fun _ hd => ⟨Byte.ne_of_class hd rfl, Byte.ne_of_class hd rfl, Byte.ne_of_class hd rfl, Byte.ne_of_class hd rfl, Byte.ne_of_class hd rfl,
        Byte.ne_of_class hd rfl⟩
    obtain ⟨h1, h2, h3, h4, h5, h6⟩ := hbegins d hd
    rw [hs, List.cons_append] at hnumber ⊢
    rw [token_decode, if_neg h1, if_neg h2, if_neg h3, if_neg h4, if_neg h5, if_neg h6, if_pos hd, hnumber]
    rfl
  | string content hcontent =>
    simp only [body, text, item_text, plain.string, chars_some, length_append, length_cons, length_nil] at hsize ⊢
    have hfound := @string_decode_eq ν content (c :: rest) hcontent (hstring content rfl) size (by omega)
    simp only [List.cons_append, nil_append, append_assoc] at hfound ⊢
    rw [token_decode, if_neg (by decide), if_neg (by decide), if_pos rfl, hfound]
    simp only [canon, some.injEq, Prod.mk.injEq, true_and]
    omega
  | array items hitems => cases hscalar
  | object members hkeys haccepted hmembers => cases hscalar

theorem decode_string_none {content : List Byte} (h : Accepted content) (hcloses : ¬ Closes content)
    (depth fuel : Nat) :
    Refuses (decode double (fuel + 1)) (body double config depth (.string content : Value ν)) := by
  intro c rest size hc hsize
  simp only [body, text, item_text, plain.string, chars_some, length_append, length_cons,
    length_nil, List.cons_append, nil_append, append_assoc] at hsize ⊢
  have hfound := @string_decode_none ν content (c :: rest) h hcloses size (by omega)
  rw [List.cons_append] at hfound
  rw [decode, value_decode_token (by decide) (by omega), token_decode, if_neg (by decide), if_neg (by decide),
    if_pos rfl, hfound]

omit plain in
theorem mapM_eq_some_map {α β : Type} {f : α → Option β} {g : α → β} {l : List α} (h : ∀ a ∈ l, f a = some (g a)) :
    l.mapM f = some (l.map g) := by
  induction l with
  | nil => rfl
  | cons a l ih =>
    rw [mapM_cons_some (h a (by simp)), ih fun b hb => h b (mem_cons_of_mem _ hb)]
    rfl

theorem decode_container {value : Value ν} (h : value.Built (Exact double)) (hfits : value.Fits)
    (hcontainer : value.is_container = true) (depth : Nat) {fuel : Nat}
    (hfuel : (body double config depth value).length ≤ fuel) (rest : List Byte) {size : Int}
    (hsize : (body double config depth value).length ≤ size) :
    decode double fuel (body double config depth value ++ rest) size =
      some (canon value, (body double config depth value).length) := by
  induction h generalizing depth fuel rest size with
  | null | true_ | false_ => cases hcontainer
  | number value hvalue => cases hcontainer
  | string content hcontent => cases hcontainer
  | array items hitems ih =>
    cases hfits with
    | array _ hbalanced hall =>
      obtain ⟨content, hbody, -⟩ := @array_body ν double config plain depth items
      have hlength : (body double config depth (.array items)).length = content.length + 2 := by simp [hbody]
      obtain ⟨fuel, rfl⟩ : ∃ k, fuel = k + 2 := ⟨fuel - 2, by omega⟩
      have htries : ∀ i ∈ items,
          Tries (decode double (fuel + 1)) (body double config (depth + 1) i) (some (canon i)) := by
        intro i hi
        have hshort := @length_body_item ν double config plain depth items i hi
        by_cases hinner : i.is_container = true
        · intro c tail inner hc hinnersize
          exact ih i hi (hall i hi) hinner (depth + 1) (by omega) (c :: tail) (by omega)
        refine decode_scalar plain (hitems i hi) (by simpa using hinner) ?_ (depth + 1) fuel
        rintro text rfl
        cases hall _ hi
        assumption
      have hread := array_decode_eq plain depth (fun i => some (canon i)) hitems htries rest hsize (by
        intro other hother
        have hsame : content = other := by simpa [hbody] using hother
        subst hsame
        exact find_close_eq (by decide) ((array_balanced_iff plain depth (.array items hitems) hbody).mpr hbalanced)
          (by omega))
      rw [decode, hbody, List.cons_append, value_decode_token (by decide) (by omega), token_decode,
        if_neg (by decide), if_pos rfl, ← List.cons_append, ← hbody, hread, mapM_eq_some_map (fun i _ => rfl)]
      simp [canon, canon_items_eq]
  | object members hkeys haccepted hmembers ih =>
    cases hfits with
    | object _ hbalanced hcloses hall =>
      obtain ⟨content, hbody, -⟩ := @object_body ν double config plain depth members
      have hlength : (body double config depth (.object members)).length = content.length + 2 := by simp [hbody]
      obtain ⟨fuel, rfl⟩ : ∃ k, fuel = k + 2 := ⟨fuel - 2, by omega⟩
      have htries : ∀ m ∈ members,
          Tries (decode double (fuel + 1)) (body double config (depth + 1) m.2) (some (canon m.2)) := by
        intro m hm
        have hshort := @length_body_member ν double config plain depth members m hm
        by_cases hinner : m.2.is_container = true
        · intro c tail inner hc hinnersize
          exact ih m hm (hall m hm) hinner (depth + 1) (by omega) (c :: tail) (by omega)
        refine decode_scalar plain (hmembers m hm) (by simpa using hinner) ?_ (depth + 1) fuel
        intro text htext
        have hinner := hall m hm
        rw [htext] at hinner
        cases hinner
        assumption
      have hread := object_decode_eq plain depth (fun v => some (canon v)) hkeys haccepted hmembers htries rest hsize (by
        intro other hother
        have hsame : content = other := by simpa [hbody] using hother
        subst hsame
        exact find_close_eq (by decide)
          ((object_balanced_iff plain depth (.object members hkeys haccepted hmembers) hbody).mpr hbalanced) (by omega))
      have hmap : (collocate_object_keys members).mapM (read_member fun v => some (canon v)) =
          some ((collocate_object_keys members).map fun m => (m.1, canon m.2)) := by
        apply mapM_eq_some_map
        intro m hm
        simp [read_member, hcloses m ((collocate_object_keys_perm members).subset hm)]
      rw [decode, hbody, List.cons_append, value_decode_token (by decide) (by omega), token_decode, if_pos rfl,
        ← List.cons_append, ← hbody, hread, hmap]
      simp [canon, canon_members_eq, collocate_object_keys_map (fun _ v => canon v)]

omit plain in
theorem isSome_of_mapM {α β : Type} {f : α → Option β} {l : List α} {r : List β} (h : l.mapM f = some r) :
    ∀ a ∈ l, ∃ b, f a = some b := by
  induction l generalizing r with
  | nil => simp
  | cons a l ih =>
    cases ha : f a with
    | none =>
      rw [mapM_cons_none ha] at h
      cases h
    | some b =>
      rw [mapM_cons_some ha] at h
      obtain ⟨r', hr', -⟩ := map_eq_some_iff.mp h
      intro x hx
      rcases mem_cons.mp hx with rfl | hx
      · exact ⟨b, ha⟩
      · exact ih hr' x hx

omit plain in
/-- What a value inside another one is read as: a string only if its end is found. -/
def reading : Value ν → Option (Value ν)
  | .string content => if Closes content then some (.string content) else none
  | value => some (canon value)

theorem tries_reading {value : Value ν} (h : value.Built (Exact double))
    (hfits : value.is_container = true → value.Fits) (depth : Nat) {fuel : Nat}
    (hfuel : (body double config depth value).length ≤ fuel + 1) :
    Tries (decode double (fuel + 1)) (body double config depth value) (reading value) := by
  by_cases hcontainer : value.is_container = true
  · have hreading : reading value = some (canon value) := by
      cases value <;> simp_all [Value.is_container, reading]
    rw [hreading]
    intro c rest size hc hsize
    exact decode_container plain h (hfits hcontainer) hcontainer depth hfuel (c :: rest) (by omega)
  cases h with
  | string content hcontent =>
    rw [reading]
    split
    · rename_i hcloses
      refine decode_scalar plain (.string content hcontent) rfl ?_ depth fuel
      rintro _ ⟨⟩
      exact hcloses
    rename_i hcloses
    exact decode_string_none plain hcontent hcloses depth fuel
  | null => exact decode_scalar plain .null rfl (by simp) depth fuel
  | true_ => exact decode_scalar plain .true_ rfl (by simp) depth fuel
  | false_ => exact decode_scalar plain .false_ rfl (by simp) depth fuel
  | number value hvalue => exact decode_scalar plain (.number value hvalue) rfl (by simp) depth fuel
  | array items hitems => exact absurd rfl hcontainer
  | object members hkeys haccepted hmembers => exact absurd rfl hcontainer

omit plain in
theorem fits_of_reading {value found : Value ν} (hfits : value.is_container = true → value.Fits)
    (h : reading value = some found) : value.Fits := by
  cases value with
  | null => exact .null
  | true_ => exact .true_
  | false_ => exact .false_
  | number value => exact .number value
  | string content =>
    simp only [reading] at h
    split at h
    · rename_i hcloses
      exact .string content hcloses
    · cases h
  | array items => exact hfits rfl
  | object members => exact hfits rfl

omit plain in
theorem find_close_of_array_decode {inner : Decode ν} {content rest : List Byte} {size : Int} {value : Value ν}
    (hsize : 1 < size)
    (h : array_decode inner (open_array :: (content ++ [close_array]) ++ rest) size = some (value, content.length + 2)) :
    find_close open_array close_array 0 (size - 1) (content ++ close_array :: rest) = some content.length := by
  have hstart : (open_array :: (content ++ [close_array])) ++ rest = [open_array] ++ (content ++ close_array :: rest) := by
    simp
  rw [hstart, array_decode, singleton_append, match_array, match_brackets_cons (by decide) _ hsize] at h
  cases hfind : find_close open_array close_array 0 (size - 1) (content ++ close_array :: rest) with
  | none => simp [hfind] at h
  | some length =>
    rw [hfind] at h
    simp only [map_some] at h
    split at h
    · cases h
    have hoffset : offset (open_array :: (content ++ close_array :: rest)) (content ++ close_array :: rest) = 1 :=
      offset_append [open_array] _
    simp only [hoffset, some.injEq, Prod.mk.injEq] at h
    congr 1
    omega

omit plain in
theorem find_close_of_object_decode {inner : Decode ν} {content rest : List Byte} {size : Int} {value : Value ν}
    (hsize : 1 < size)
    (h : object_decode inner (open_object :: (content ++ [close_object]) ++ rest) size =
      some (value, content.length + 2)) :
    find_close open_object close_object 0 (size - 1) (content ++ close_object :: rest) = some content.length := by
  have hstart : (open_object :: (content ++ [close_object])) ++ rest =
      [open_object] ++ (content ++ close_object :: rest) := by simp
  rw [hstart, object_decode, singleton_append, match_object, match_brackets_cons (by decide) _ hsize] at h
  cases hfind : find_close open_object close_object 0 (size - 1) (content ++ close_object :: rest) with
  | none => simp [hfind] at h
  | some length =>
    rw [hfind] at h
    simp only [map_some] at h
    split at h
    · cases h
    have hoffset : offset (open_object :: (content ++ close_object :: rest)) (content ++ close_object :: rest) = 1 :=
      offset_append [open_object] _
    simp only [hoffset, some.injEq, Prod.mk.injEq] at h
    congr 1
    omega

theorem fits_of_decode_array {items : List (Value ν)} (hitems : ∀ i ∈ items, i.Built (Exact double))
    (hfits : ∀ i ∈ items, i.is_container = true → i.Fits) (depth : Nat) {fuel : Nat}
    (hfuel : (body double config depth (.array items)).length ≤ fuel) (rest : List Byte) {found : Value ν}
    (h : decode double fuel (body double config depth (.array items) ++ rest)
      (body double config depth (.array items)).length =
        some (found, (body double config depth (.array items)).length)) :
    (Value.array items).Fits := by
  obtain ⟨content, hbody, -⟩ := @array_body ν double config plain depth items
  have hlength : (body double config depth (.array items)).length = content.length + 2 := by simp [hbody]
  obtain ⟨fuel, rfl⟩ : ∃ k, fuel = k + 2 := ⟨fuel - 2, by omega⟩
  have htoken : array_decode (decode double (fuel + 1)) (body double config depth (.array items) ++ rest)
      (body double config depth (.array items)).length =
        some (found, (body double config depth (.array items)).length) := by
    rw [decode, hbody, List.cons_append, value_decode_token (by decide) (by simp; omega), token_decode,
      if_neg (by decide), if_pos rfl] at h
    rw [hbody, List.cons_append]
    exact h
  have hclose : find_close open_array close_array 0 ((body double config depth (.array items)).length - 1)
      (content ++ close_array :: rest) = some content.length := by
    apply find_close_of_array_decode (by omega)
    rw [← hbody, ← hlength]
    exact htoken
  have htries : ∀ i ∈ items, Tries (decode double (fuel + 1)) (body double config (depth + 1) i) (reading i) := by
    intro i hi
    have hshort := @length_body_item ν double config plain depth items i hi
    exact tries_reading plain (hitems i hi) (hfits i hi) (depth + 1) (by omega)
  have hread := array_decode_eq plain depth reading hitems htries rest (Int.le_refl _) (by
    intro other hother
    have hsame : content = other := by simpa [hbody] using hother
    subst hsame
    exact hclose)
  rw [htoken] at hread
  obtain ⟨items', hmap, -⟩ := map_eq_some_iff.mp hread.symm
  refine .array items ((array_balanced_iff plain depth (.array items hitems) hbody).mp
    (depth_after_of_find_close (by decide) hclose)) ?_
  intro i hi
  obtain ⟨found', hfound⟩ := isSome_of_mapM hmap i hi
  exact fits_of_reading (hfits i hi) hfound

theorem fits_of_decode_object {members : List (List Byte × Value ν)} (hkeys : (members.map Prod.fst).Nodup)
    (haccepted : ∀ m ∈ members, Accepted m.1) (hmembers : ∀ m ∈ members, m.2.Built (Exact double))
    (hfits : ∀ m ∈ members, m.2.is_container = true → m.2.Fits) (depth : Nat) {fuel : Nat}
    (hfuel : (body double config depth (.object members)).length ≤ fuel) (rest : List Byte) {found : Value ν}
    (h : decode double fuel (body double config depth (.object members) ++ rest)
      (body double config depth (.object members)).length =
        some (found, (body double config depth (.object members)).length)) :
    (Value.object members).Fits := by
  obtain ⟨content, hbody, -⟩ := @object_body ν double config plain depth members
  have hlength : (body double config depth (.object members)).length = content.length + 2 := by simp [hbody]
  obtain ⟨fuel, rfl⟩ : ∃ k, fuel = k + 2 := ⟨fuel - 2, by omega⟩
  have htoken : object_decode (decode double (fuel + 1)) (body double config depth (.object members) ++ rest)
      (body double config depth (.object members)).length =
        some (found, (body double config depth (.object members)).length) := by
    rw [decode, hbody, List.cons_append, value_decode_token (by decide) (by simp; omega), token_decode, if_pos rfl] at h
    rw [hbody, List.cons_append]
    exact h
  have hclose : find_close open_object close_object 0 ((body double config depth (.object members)).length - 1)
      (content ++ close_object :: rest) = some content.length := by
    apply find_close_of_object_decode (by omega)
    rw [← hbody, ← hlength]
    exact htoken
  have htries : ∀ m ∈ members, Tries (decode double (fuel + 1)) (body double config (depth + 1) m.2) (reading m.2) := by
    intro m hm
    have hshort := @length_body_member ν double config plain depth members m hm
    exact tries_reading plain (hmembers m hm) (hfits m hm) (depth + 1) (by omega)
  have hread := object_decode_eq plain depth reading hkeys haccepted hmembers htries rest (Int.le_refl _) (by
    intro other hother
    have hsame : content = other := by simpa [hbody] using hother
    subst hsame
    exact hclose)
  rw [htoken] at hread
  obtain ⟨members', hmap, -⟩ := map_eq_some_iff.mp hread.symm
  have hall : ∀ m ∈ members, Closes m.1 ∧ m.2.Fits := by
    intro m hm
    obtain ⟨found', hfound⟩ := isSome_of_mapM hmap m ((collocate_object_keys_perm members).mem_iff.mpr hm)
    simp only [read_member] at hfound
    split at hfound
    · rename_i hcloses
      obtain ⟨value, hvalue, -⟩ := map_eq_some_iff.mp hfound
      exact ⟨hcloses, fits_of_reading (hfits m hm) hvalue⟩
    · cases hfound
  exact .object members ((object_balanced_iff plain depth (.object members hkeys haccepted hmembers) hbody).mp
    (depth_after_of_find_close (by decide) hclose)) (fun m hm => (hall m hm).1) fun m hm => (hall m hm).2

end fits

/-- The text of a value is written, and is read completely and as an equal value, whatever stands
in memory behind the zero at its end. -/
def RoundTrips (double : Double ν) (config : StringifyConfig) (value : Value ν) : Prop :=
  ∃ text found, value_to_string_with_config double config value = some text ∧
    (∀ after, parser_decode double (text ++ 0 :: after) text.length = some (found, text.length)) ∧
    found.Equal value

/-- A value is another one or stands somewhere inside it. -/
inductive Value.Inside : Value ν → Value ν → Prop
  | refl (value : Value ν) : Inside value value
  | item {value item : Value ν} {items : List (Value ν)} : item ∈ items → Inside value item →
      Inside value (.array items)
  | member {value : Value ν} {m : List Byte × Value ν} {members : List (List Byte × Value ν)} : m ∈ members →
      Inside value m.2 → Inside value (.object members)

theorem Value.Built.mono {numbers weaker : ν → Prop} (h : ∀ value, numbers value → weaker value) {value : Value ν}
    (hbuilt : value.Built numbers) : value.Built weaker := by
  induction hbuilt with
  | null => exact .null
  | true_ => exact .true_
  | false_ => exact .false_
  | number value hvalue => exact .number value (h value hvalue)
  | string content hcontent => exact .string content hcontent
  | array items _ ih => exact .array items ih
  | object members hkeys haccepted _ ih => exact .object members hkeys haccepted ih

theorem text_zero (config : StringifyConfig) (value : Value ν) :
    text double config 0 value = body double config 0 value := by
  have hindent : ∀ config : ValueConfig, indent config 0 = [] := by
    intro config
    simp [indent]
  unfold body
  split
  · simp [text, hindent]
  · simp [text, hindent]
  · rfl

section

variable {config : StringifyConfig} (plain : Plain config)
include plain

theorem round_trips_of_fits {value : Value ν} (h : value.Built (Exact double)) (hfits : value.Fits)
    (hcontainer : value.is_container = true) : RoundTrips double config value := by
  refine ⟨_, canon value, value_to_string_eq plain (fun _ hvalue => hvalue.fill_string_length) h, ?_, canon_equal value⟩
  intro after
  rw [text_zero, parser_decode]
  exact decode_container plain h hfits hcontainer 0 (by simp only [length_append]; omega) (0 :: after)
    (Int.le_refl _)

theorem RoundTrips.decode {value : Value ν} (h : value.Built (Exact double)) (hround : RoundTrips double config value) :
    ∃ found, json.decode double ((body double config 0 value ++ [0]).length + 1) (body double config 0 value ++ [0])
      (body double config 0 value).length = some (found, (body double config 0 value).length) := by
  obtain ⟨octets, found, htext, hdecode, -⟩ := hround
  rw [value_to_string_eq plain (fun _ hvalue => hvalue.fill_string_length) h, text_zero] at htext
  obtain rfl := some.inj htext
  exact ⟨found, hdecode []⟩

theorem fits_of_round_trips {value : Value ν} (h : value.Built (Exact double)) (hcontainer : value.is_container = true)
    (hround : ∀ inner : Value ν, inner.Inside value → inner.is_container = true → RoundTrips double config inner) :
    value.Fits := by
  induction h with
  | null | true_ | false_ => cases hcontainer
  | number value hvalue => cases hcontainer
  | string content hcontent => cases hcontainer
  | array items hitems ih =>
    obtain ⟨found, hfound⟩ := RoundTrips.decode plain (.array items hitems) (hround _ (.refl _) rfl)
    refine fits_of_decode_array plain hitems ?_ 0 (by simp only [length_append]; omega) [0] hfound
    intro i hi hinner
    exact ih i hi hinner fun inner hinside => hround inner (.item hi hinside)
  | object members hkeys haccepted hmembers ih =>
    obtain ⟨found, hfound⟩ := RoundTrips.decode plain (.object members hkeys haccepted hmembers)
      (hround _ (.refl _) rfl)
    refine fits_of_decode_object plain hkeys haccepted hmembers ?_ 0 (by simp only [length_append]; omega) [0] hfound
    intro m hm hinner
    exact ih m hm hinner fun inner hinside => hround inner (.member hm hinside)

end

theorem Value.Fits.inside {value inner : Value ν} (h : value.Fits) (hinside : inner.Inside value) : inner.Fits := by
  induction hinside with
  | refl => exact h
  | item hitem _ ih =>
    cases h with
    | array _ _ hall => exact ih (hall _ hitem)
  | member hm _ ih =>
    cases h with
    | object _ _ _ hall => exact ih (hall _ hm)

theorem Value.Built.inside {numbers : ν → Prop} {value inner : Value ν} (h : value.Built numbers)
    (hinside : inner.Inside value) : inner.Built numbers := by
  induction hinside with
  | refl => exact h
  | item hitem _ ih =>
    cases h with
    | array _ hall => exact ih (hall _ hitem)
  | member hm _ ih =>
    cases h with
    | object _ _ _ hall => exact ih (hall _ hm)

/-- An array or object that is built from literals, integers below `2 ^ 53`, and strings and keys
that are accepted is read back from its text, together with all arrays and objects inside it,
exactly when the searches get all its strings, arrays and objects right. -/
theorem round_trip_iff (double : Double ν) (of_int : Int → ν) (hexact : ∀ n : Int, n.natAbs < 2 ^ 53 →
      double.integer (of_int n) = some n ∧ double.strtod (print_integer n) = some (of_int n))
    (config : StringifyConfig) (hconfig : config = config_stringify_minimal ∨ config = config_stringify_default)
    (value : Value ν) (hbuilt : value.Built fun number => ∃ n : Int, n.natAbs < 2 ^ 53 ∧ number = of_int n)
    (hcontainer : value.is_container = true) :
    (∀ inner : Value ν, inner.Inside value → inner.is_container = true → RoundTrips double config inner) ↔
      value.Fits := by
  have plain : Plain config := by
    rcases hconfig with rfl | rfl
    · exact plain_minimal
    · exact plain_default
  have hbuilt' : value.Built (Exact double) := by
    refine hbuilt.mono ?_
    rintro _ ⟨n, hn, rfl⟩
    exact ⟨n, hn, hexact n hn⟩
  constructor
  · exact fits_of_round_trips plain hbuilt' hcontainer
  · intro hfits inner hinside hinner
    exact round_trips_of_fits plain (hbuilt'.inside hinside) (hfits.inside hinside) hinner

def integers : Double Int where
  integer := some
  general := fun _ => []
  strtod := fun s => some (if (sign s).1 then -(cstring.value (sign s).2 : Int) else cstring.value s)

theorem integers_exact (n : Int) : integers.strtod (print_integer n) = some n := by
  obtain ⟨hne, hdigits⟩ := isNumber_decimal n.natAbs
  simp only [integers, print_integer]
  split
  · rename_i hneg
    simp only [sign, if_true, value_decimal, some.injEq]
    omega
  rename_i hneg
  obtain ⟨c, s, hs⟩ : ∃ c s, decimal n.natAbs = c :: s := exists_cons_of_ne_nil hne
  have hsign := sign_of_digit (hdigits c (by simp [hs])) s
  rw [hs, hsign, ← hs, value_decimal]
  simp only [Bool.false_eq_true, if_false, some.injEq]
  omega

theorem bracket_pair_fits : (Value.array [.string [91, 93]] : Value Int).Fits := by
  refine .array _ (by decide) ?_
  intro item hitem
  rw [mem_singleton.mp hitem]
  exact .string _ (by decide)

theorem string_array_built {content : List Byte} (h : Accepted content) (numbers : Int → Prop) :
    (Value.array [.string content]).Built numbers := by
  refine .array _ ?_
  intro item hitem
  rw [mem_singleton.mp hitem]
  exact .string _ h

theorem bracket_pair_round_trips : RoundTrips integers config_stringify_default (.array [.string [91, 93]]) := by
  have hall := (round_trip_iff integers id (fun n _ => ⟨rfl, integers_exact n⟩) config_stringify_default (Or.inr rfl)
    (.array [.string [91, 93]]) (string_array_built ⟨by decide, by decide⟩ _) rfl).mpr bracket_pair_fits
  exact hall _ (.refl _) rfl

/-- The array `["]"]` is written, and its text is not read. -/
theorem closing_bracket_not_read :
    (Value.array [.string [93]]).Built (fun number => ∃ n : Int, n.natAbs < 2 ^ 53 ∧ number = n) ∧
      value_to_string_with_config integers config_stringify_minimal (.array [.string [93]]) =
        some [91, 34, 93, 34, 93] ∧
      parser_decode integers [91, 34, 93, 34, 93, 0] 5 = none ∧
      ¬ RoundTrips integers config_stringify_minimal (.array [.string [93]]) := by
  have hwritten : value_to_string_with_config integers config_stringify_minimal (.array [.string [93]]) =
      some [91, 34, 93, 34, 93] := by decide +kernel
  have hread : parser_decode integers [91, 34, 93, 34, 93, 0] 5 = none := by rfl
  refine ⟨string_array_built ⟨by decide, by decide⟩ _, hwritten, hread, ?_⟩
  rintro ⟨octets, found, htext, hdecode, -⟩
  rw [hwritten] at htext
  obtain rfl := some.inj htext
  have hfound := hdecode []
  rw [show ([91, 34, 93, 34, 93] : List Byte) ++ [0] = [91, 34, 93, 34, 93, 0] from rfl] at hfound
  rw [show ([91, 34, 93, 34, 93] : List Byte).length = 5 from rfl, hread] at hfound
  cases hfound

end openvocs.json
