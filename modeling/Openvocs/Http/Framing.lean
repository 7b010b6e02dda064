import Openvocs.Http.CodingList

open List Option

namespace openvocs.http

open memory

variable {m : Memory} {p size : Nat} {buffer : Pointer} {headers : List Header} {fields : List Field}
  {pointers : List Pointer}

/-- The codings that the reader hands out. -/
def Encodings.codings (m : Memory) : Encodings → Option (List (List Byte))
  | .absent => some []
  | .success array => some (array.map (Pointer.read m))
  | .error | .oob => none

/-- The coding is `chunked`. -/
def Coding.IsChunked (c : Coding) : Prop := c.text.map cstring.lower = chunked

instance (c : Coding) : Decidable c.IsChunked := inferInstanceAs (Decidable (_ = _))

/-- These codings are read, in their order, or there are more than the array holds. -/
def CodingsExact (m : Memory) (headers : List Header) (fields : List Field) (array_size : Nat) : Prop :=
  if (all_marked fields).length ≤ array_size then
    (parse_transfer_encodings m headers array_size).codings m =
      some ((all_marked fields).map fun x => x.1.coding.text)
  else parse_transfer_encodings m headers array_size = .oob

/-- Of a message that is not refused for a Content-Length or for more codings than are supported,
the body is chunked if the last coding is. -/
def FramingExact (m : Memory) (buffer : Pointer) (headers : List Header) (fields : List Field)
    (max next : Nat) : Prop :=
  headers_named m headers key_content_length = [] → (all_marked fields).length ≤ transfer_max max →
    (parse_body m buffer headers max next = .chunked ↔ ∃ x ∈ (all_marked fields).getLast?, x.1.coding.IsChunked)

/-- The codings stand alone in their headers, without OWS behind them, and are accepted; or as
many codings as the array holds are accepted, whole or not. -/
def CodingsReadable (fields : List Field) (array_size : Nat) : Prop :=
  if (all_marked fields).length ≤ array_size then
    ∀ x ∈ all_marked fields, x.2 = false ∧ x.1.accepted false = true
  else ∀ x ∈ (all_marked fields).take array_size, x.1.accepted x.2 = true

/-- The last coding is `chunked`, or it has others in front of it and is no abbreviation of
`chunked`; where a coding is not accepted, it is not `chunked`. -/
def FramingReadable (m : Memory) (headers : List Header) (fields : List Field) (max : Nat) : Prop :=
  headers_named m headers key_content_length = [] → (all_marked fields).length ≤ transfer_max max →
    if ∀ x ∈ all_marked fields, x.1.accepted x.2 = true then
      ∀ x ∈ (all_marked fields).getLast?, x.1.coding.IsChunked ∨
        2 ≤ (all_marked fields).length ∧ ¬ (x.1.kept x.2).map cstring.lower <+: chunked
    else ∀ x ∈ (all_marked fields).getLast?, ¬ x.1.coding.IsChunked

theorem transfer_element_start {pointer : Pointer} {next : Option Nat}
    (h : transfer_element m p size = some (pointer, next)) : p ≤ pointer.start ∧ ∀ n ∈ next, p ≤ n := by
  have hcoding {ptr last : Nat} {next' : Option Nat} (h : coding_at m ptr last next' = some (pointer, next)) :
      pointer.start = ptr ∧ next = next' := by
    rw [coding_at] at h
    split at h
    next => cases h
    next =>
      split at h
      next => cases h
      next =>
        cases h
        exact ⟨rfl, rfl⟩
  have hlist {ptr n : Nat} (h : list_element m ptr n = some (pointer, next)) :
      pointer.start = ptr ∧ ∀ n ∈ next, ptr ≤ n := by
    rw [list_element] at h
    split at h
    next => cases h
    next =>
      split at h
      next =>
        obtain ⟨hstart, rfl⟩ := hcoding h
        exact ⟨hstart, by simp⟩
      next found hfind =>
        split at h
        next => cases h
        next =>
          split at h
          next => cases h
          next =>
            obtain ⟨hstart, rfl⟩ := hcoding h
            refine ⟨hstart, ?_⟩
            rintro n hn
            cases hn
            have := (find_some hfind).1
            omega
  rw [transfer_element] at h
  split at h
  next => cases h
  next =>
    split at h
    next =>
      obtain ⟨hstart, hnext⟩ := hlist h
      exact ⟨by omega, fun n hn => Nat.le_of_succ_le (hnext n hn)⟩
    next =>
      obtain ⟨hstart, hnext⟩ := hlist h
      exact ⟨Nat.le_of_eq hstart.symm, hnext⟩

theorem transfer_elements_start {stop room : Nat} (h : transfer_elements m stop room p = .success pointers) :
    ∀ pointer ∈ pointers, p ≤ pointer.start := by
  induction room generalizing p pointers with
  | zero => cases h
  | succ room ih =>
    rw [transfer_elements] at h
    cases helement : transfer_element m p (stop - p) with
    | none =>
      rw [helement] at h
      cases h
    | some element =>
      obtain ⟨pointer, next⟩ := element
      obtain ⟨hstart, hnext⟩ := transfer_element_start helement
      rw [helement] at h
      cases next with
      | none =>
        cases h
        simpa using hstart
      | some next =>
        cases hrest : transfer_elements m stop room next with
        | success behind =>
          simp only [hrest, Parsed.prepend] at h
          cases h
          rw [singleton_append, forall_mem_cons]
          exact ⟨hstart, fun x hx => Nat.le_trans (hnext next rfl) (ih hrest x hx)⟩
        | error | progress | oob =>
          simp only [hrest, Parsed.prepend] at h
          cases h

theorem transfer_headers_start {room : Nat} (hheaders : ∀ header ∈ headers, header.value.start ≠ 0)
    (h : transfer_headers m room headers = .success pointers) : ∀ pointer ∈ pointers, pointer.start ≠ 0 := by
  induction headers generalizing room pointers with
  | nil =>
    rw [transfer_headers] at h
    cases h
    exact fun x hx => absurd hx not_mem_nil
  | cons header headers ih =>
    obtain ⟨hheader, hrest⟩ := forall_mem_cons.mp hheaders
    rw [transfer_headers] at h
    cases helements : transfer_elements m (header.value.start + header.value.length) room header.value.start with
    | success front =>
      rw [helements] at h
      cases hbehind : transfer_headers m (room - front.length) headers with
      | success behind =>
        simp only [hbehind, Parsed.prepend] at h
        cases h
        intro x hx
        rcases mem_append.mp hx with hfront | hlast
        · have hle := transfer_elements_start helements x hfront
          omega
        · exact ih hrest hbehind x hlast
      | error | progress | oob =>
        simp only [hbehind, Parsed.prepend] at h
        cases h
    | error | progress | oob =>
      rw [helements] at h
      cases h

theorem Field.marked_ne_nil (field : Field) : marked field.items ≠ [] := by
  obtain ⟨items, hne⟩ := field
  match items with
  | [] => exact absurd rfl hne
  | [i] => exact cons_ne_nil _ _
  | i :: j :: items => exact cons_ne_nil _ _

theorem all_marked_eq_nil : all_marked fields = [] ↔ fields = [] := by
  cases fields with
  | nil => simp [all_marked]
  | cons field fields => simp [all_marked, field.marked_ne_nil]

theorem Carries.starts (h : Carries m headers fields) :
    ∀ header ∈ headers_named m headers key_transfer_encoding, header.value.start ≠ 0 := by
  rw [Carries] at h
  generalize headers_named m headers key_transfer_encoding = found at h
  induction h with
  | nil => exact fun x hx => absurd hx not_mem_nil
  | cons hfield hfields ih =>
    rw [forall_mem_cons]
    exact ⟨hfield.start, ih⟩

theorem parse_absent (h : Carries m headers []) (array_size : Nat) :
    parse_transfer_encodings m headers array_size = .absent := by
  have hfound : headers_named m headers key_transfer_encoding = [] := forall₂_nil_right_iff.mp h
  rw [parse_transfer_encodings, hfound]

section

variable (h : Carries m headers fields)

include h

theorem parse_of_carries (hne : fields ≠ []) (array_size : Nat) :
    ∃ result : Parsed (List Pointer), result.map (List.map (Pointer.read m)) = taken array_size (all_marked fields) ∧
      (∀ array, result = .success array → ∀ x ∈ array, x.start ≠ 0) ∧
        parse_transfer_encodings m headers array_size = match result with
          | .success array => .success array
          | .oob => .oob
          | .error | .progress => .error := by
  refine ⟨_, @transfer_headers_eq m array_size _ _ h, fun array => transfer_headers_start h.starts, ?_⟩
  rw [parse_transfer_encodings]
  cases hfound : headers_named m headers key_transfer_encoding with
  | nil =>
    rw [Carries, hfound] at h
    cases h
    exact absurd rfl hne
  | cons header found => rfl

theorem parse_accepted {array_size : Nat} (hne : fields ≠ [])
    (hall : ∀ x ∈ all_marked fields, x.1.accepted x.2 = true) (hlength : (all_marked fields).length ≤ array_size) :
    ∃ array, parse_transfer_encodings m headers array_size = .success array ∧ (∀ x ∈ array, x.start ≠ 0) ∧
      array.map (Pointer.read m) = (all_marked fields).map fun x => x.1.kept x.2 := by
  obtain ⟨result, hread, hstarts, hparse⟩ := parse_of_carries h hne array_size
  rw [taken_eq, if_pos (fun x hx => hall x (mem_of_mem_take hx)), if_pos hlength] at hread
  cases result with
  | success array => exact ⟨array, hparse, hstarts array rfl, Parsed.success.inj hread⟩
  | error | progress | oob => cases hread

theorem parse_oob {array_size : Nat}
    (hall : ∀ x ∈ (all_marked fields).take array_size, x.1.accepted x.2 = true)
    (hlength : array_size < (all_marked fields).length) : parse_transfer_encodings m headers array_size = .oob := by
  have hne : fields ≠ [] := by
    rintro rfl
    exact Nat.not_lt_zero array_size hlength
  obtain ⟨result, hread, -, hparse⟩ := parse_of_carries h hne array_size
  rw [taken_eq, if_pos hall, if_neg (Nat.not_le_of_lt hlength)] at hread
  cases result with
  | oob => exact hparse
  | error | progress | success => cases hread

theorem parse_error {array_size : Nat}
    (hnot : ¬ ∀ x ∈ (all_marked fields).take array_size, x.1.accepted x.2 = true) :
    parse_transfer_encodings m headers array_size = .error := by
  have hne : fields ≠ [] := by
    rintro rfl
    exact hnot (by simp [all_marked])
  obtain ⟨result, hread, -, hparse⟩ := parse_of_carries h hne array_size
  rw [taken_eq, if_neg hnot] at hread
  cases result with
  | error => exact hparse
  | oob | progress | success => cases hread

end

theorem Item.kept_eq {i : Item} {cut : Bool} : i.kept cut = i.coding.text ↔ cut = false := by
  have hpos := i.coding.text_pos
  constructor
  · intro h
    cases cut with
    | false => rfl
    | true =>
      have hlength := congrArg List.length h
      rw [kept, length_take] at hlength
      simp only [Bool.toNat_true] at hlength
      omega
  rintro rfl
  rw [kept, Bool.toNat_false, Nat.sub_zero, take_length]

theorem codings_exact_iff (h : Carries m headers fields) (array_size : Nat) :
    CodingsExact m headers fields array_size ↔ CodingsReadable fields array_size := by
  rw [CodingsExact, CodingsReadable]
  by_cases hlength : (all_marked fields).length ≤ array_size
  · have htake : (all_marked fields).take array_size = all_marked fields := take_of_length_le hlength
    rw [if_pos hlength, if_pos hlength]
    by_cases hne : fields = []
    · subst hne
      rw [parse_absent h]
      simp [Encodings.codings, all_marked]
    by_cases hall : ∀ x ∈ all_marked fields, x.1.accepted x.2 = true
    · obtain ⟨array, hparse, -, hread⟩ := parse_accepted h hne hall hlength
      rw [hparse, Encodings.codings, hread, some_inj, map_inj_left]
      refine forall₂_congr fun x hx => ?_
      rw [Item.kept_eq]
      constructor
      · intro hwhole
        exact ⟨hwhole, hwhole ▸ hall x hx⟩
      · exact And.left
    rw [parse_error h (by rwa [htake])]
    refine iff_of_false (fun hnone => by cases hnone) (fun hreadable => hall (fun x hx => ?_))
    rw [(hreadable x hx).1]
    exact (hreadable x hx).2
  rw [if_neg hlength, if_neg hlength]
  by_cases hall : ∀ x ∈ (all_marked fields).take array_size, x.1.accepted x.2 = true
  · rw [parse_oob h hall (Nat.lt_of_not_le hlength)]
    exact iff_of_true rfl hall
  rw [parse_error h hall]
  exact iff_of_false (fun hoob => by cases hoob) hall

theorem blanks_no_nul (w : Blanks) : nul ∉ w.1 := fun hmem => (blank_octet _ (w.2 _ hmem)).2.2.2.2 rfl

theorem token_no_nul (t : Token) : nul ∉ t.1 := fun hmem => (token_octet _ (t.2.2 _ hmem)).2.2.2.2.2 rfl

theorem QuotedItem.no_nul (item : QuotedItem) : nul ∉ item.text := by
  cases item with
  | char c =>
    rw [text, mem_singleton]
    exact Ne.symm (qd_octet c.1 c.2).2
  | pair c =>
    rw [text, mem_cons, mem_singleton, not_or]
    exact ⟨by decide, Ne.symm (paired_octet c.1 c.2)⟩

theorem ParameterValue.no_nul (value : ParameterValue) : nul ∉ value.text := by
  cases value with
  | token t => exact token_no_nul t
  | quoted items =>
    have hquote : nul ≠ 34 := by decide
    rw [text, quoted_text, mem_cons, mem_append, mem_singleton, not_or, not_or]
    exact ⟨hquote, by simp [QuotedItem.no_nul], hquote⟩

theorem Coding.no_nul (c : Coding) : nul ∉ c.text := by
  have hsemicolon : nul ≠ semicolon := by decide
  have hequals : nul ≠ equals := by decide
  have hparameter (param : Parameter) : nul ∉ param.text := by
    simp [Parameter.text, Parameter.body, Parameter.key, blanks_no_nul, token_no_nul, ParameterValue.no_nul,
      hsemicolon, hequals]
  simp [text, token_no_nul, hparameter]

theorem take_eq_chunked_iff {t : List Byte} (h : nul ∉ t) :
    (t.take 8).map cstring.lower = ((chunked ++ [nul]).take t.length).map cstring.lower ↔
      t.map cstring.lower <+: chunked := by
  have hlower : chunked.map cstring.lower = chunked := by decide
  have hchunked : chunked.length = 7 := rfl
  by_cases hlength : t.length ≤ 7
  · rw [take_of_length_le (by omega), take_append_of_le_length (by omega), map_take, hlower,
      prefix_iff_eq_take, length_map]
  refine iff_of_false (fun heq => ?_) (fun hprefix => ?_)
  · have hright : (chunked ++ [nul]).take t.length = chunked ++ [nul] := by
      refine take_of_length_le ?_
      rw [length_append, hchunked, length_singleton]
      omega
    rw [hright] at heq
    have hlast := congrArg (fun l => l[7]?) heq
    have hseven : 7 < t.length := by omega
    simp only [getElem?_map, getElem?_take_of_lt (by decide : 7 < 8), getElem?_eq_getElem hseven, map_some] at hlast
    have hnul : cstring.lower t[7] = nul := some.inj (hlast.trans (by decide))
    have hzero : ∀ c : Byte, cstring.lower c = nul → c = nul := by decide +kernel
    refine h ?_
    rw [← hzero _ hnul]
    exact getElem_mem _
  have hle := hprefix.length_le
  rw [length_map, hchunked] at hle
  exact hlength hle

theorem compare_chunked_eq {coding : Pointer} (h : nul ∉ coding.read m) :
    compare_chunked m coding = decide ((coding.read m).map cstring.lower <+: chunked) := by
  have hlength : (coding.read m).length = coding.length := read_length
  have hfirst : read m coding.start (min coding.length 8) = (coding.read m).take 8 := by
    have hread := ((holds_read (n := coding.length)).shorter ( take_prefix 8 (coding.read m))).read
    rwa [length_take, hlength, Nat.min_comm] at hread
  rw [compare_chunked, hfirst, ← hlength, decide_eq_decide]
  exact take_eq_chunked_iff h

theorem ends_chunked_unset (n : Nat) (array : List Pointer) :
    ends_chunked m (List.replicate n ⟨0, 0⟩ ++ array) = ends_chunked m array := by
  induction n with
  | zero => rfl
  | succ n ih =>
    rw [replicate_succ, List.cons_append, ends_chunked, if_pos rfl, ih]

theorem parse_with_transfer_eq {max : Nat} {first : Pointer}
    (h : parse_transfer_encodings m headers max = .success (first :: pointers))
    (hset : ∀ x ∈ first :: pointers, x.start ≠ 0) :
    parse_with_transfer m headers max = pointers.getLast?.all (compare_chunked m) := by
  obtain ⟨hfirst, hrest⟩ := forall_mem_cons.mp hset
  rw [parse_with_transfer, h]
  simp only [List.cons_append, drop_succ_cons, drop_zero, reverse_append, reverse_replicate,
    ends_chunked_unset, head?_cons, any_some, hfirst, ne_eq, not_false_eq_true, decide_true, Bool.and_true]
  induction pointers using List.reverseRecOn with
  | nil => rfl
  | append_singleton pointers last _ =>
    rw [reverse_append, reverse_singleton, singleton_append, ends_chunked,
      if_neg (hrest last (by simp)), getLast?_concat, all_some]

theorem parse_with_transfer_iff {x : Item × Bool} {xs : List (Item × Bool)} {max : Nat}
    (h : Carries m headers fields) (hmarked : all_marked fields = x :: xs)
    (hall : ∀ y ∈ all_marked fields, y.1.accepted y.2 = true) (hlength : (all_marked fields).length ≤ max) :
    parse_with_transfer m headers max = true ↔
      ∀ y ∈ xs.getLast?, (y.1.kept y.2).map cstring.lower <+: chunked := by
  have hne : fields ≠ [] := fun hnil => cons_ne_nil x xs (hmarked ▸ all_marked_eq_nil.mpr hnil)
  obtain ⟨array, hparse, hset, hread⟩ := parse_accepted h hne hall hlength
  rw [hmarked] at hread
  cases array with
  | nil => cases hread
  | cons first pointers =>
    have hrest : pointers.map (Pointer.read m) = xs.map fun y => y.1.kept y.2 := (List.cons.inj hread).2
    have hlast := congrArg List.getLast? hrest
    rw [getLast?_map, getLast?_map] at hlast
    rw [parse_with_transfer_eq hparse hset]
    cases hpointer : pointers.getLast? with
    | none =>
      rw [hpointer, map_none] at hlast
      rw [map_eq_none_iff.mp hlast.symm]
      exact iff_of_true rfl (fun y hy => nomatch hy)
    | some pointer =>
      rw [hpointer, map_some] at hlast
      obtain ⟨y, hy, hkept⟩ := map_eq_some_iff.mp hlast.symm
      have hclear : nul ∉ pointer.read m := by
        rw [← hkept]
        exact fun hmem => y.1.coding.no_nul (mem_of_mem_take hmem)
      rw [hy, all_some, compare_chunked_eq hclear, decide_eq_true_eq, ← hkept]
      exact ⟨fun hprefix z hz => some.inj hz ▸ hprefix, fun hforall => hforall y rfl⟩

theorem body_chunked_iff (h : Carries m headers fields) (hcontent : headers_named m headers key_content_length = [])
    (max next : Nat) : parse_body m buffer headers max next = .chunked ↔
      fields ≠ [] ∧ parse_with_transfer m headers (transfer_max max) = true := by
  rw [parse_body, hcontent]
  rw [Carries] at h
  cases hfound : headers_named m headers key_transfer_encoding with
  | nil =>
    rw [hfound] at h
    cases h
    exact iff_of_false (fun hread => nomatch hread) (fun hand => hand.1 rfl)
  | cons header found =>
    rw [hfound] at h
    have hne : fields ≠ [] := by
      rintro rfl
      cases h
    simp only [hne, ne_eq, not_false_eq_true, true_and]
    cases parse_with_transfer m headers (transfer_max max) with
    | true => exact iff_of_true rfl rfl
    | false => exact iff_of_false (fun hread => nomatch hread) Bool.false_ne_true

theorem Coding.IsChunked.kept {i : Item} (h : i.coding.IsChunked) (cut : Bool) :
    (i.kept cut).map cstring.lower <+: chunked := by
  have hprefix : i.kept cut <+: i.coding.text := take_prefix _ _
  rw [← h]
  exact hprefix.map cstring.lower

theorem framing_exact_iff (h : Carries m headers fields) (max next : Nat) :
    FramingExact m buffer headers fields max next ↔ FramingReadable m headers fields max := by
  rw [FramingExact, FramingReadable]
  refine forall_congr' fun hcontent => forall_congr' fun hlength => ?_
  rw [body_chunked_iff h hcontent]
  cases hmarked : all_marked fields with
  | nil =>
    obtain rfl := all_marked_eq_nil.mp hmarked
    simp
  | cons x xs =>
    have hne : fields ≠ [] := fun hnil => cons_ne_nil x xs (hmarked ▸ all_marked_eq_nil.mpr hnil)
    obtain ⟨last, hlast⟩ : ∃ last, (x :: xs).getLast? = some last := ⟨_, getLast?_eq_some_getLast (cons_ne_nil x xs)⟩
    simp only [hne, ne_eq, not_false_eq_true, true_and, hlast, mem_some, exists_eq_left', forall_eq']
    by_cases hall : ∀ y ∈ x :: xs, y.1.accepted y.2 = true
    · rw [if_pos hall, parse_with_transfer_iff h hmarked (by rwa [hmarked]) hlength]
      cases hxs : xs.getLast? with
      | none =>
        obtain rfl : xs = [] := getLast?_eq_none_iff.mp hxs
        simp
      | some y =>
        obtain rfl : last = y := by
          rw [getLast?_cons, hxs] at hlast
          exact (some.inj hlast).symm
        have hlonger : 2 ≤ (x :: xs).length := by
          cases xs with
          | nil => cases hxs
          | cons z xs => exact Nat.succ_le_succ (Nat.succ_pos _)
        have hchunked := fun hchunked : last.1.coding.IsChunked => hchunked.kept last.2
        simp only [mem_some, forall_eq', hlonger, true_and]
        tauto
    have herror : parse_transfer_encodings m headers (transfer_max max) = .error := by
      refine parse_error h ?_
      rwa [take_of_length_le hlength, hmarked]
    rw [if_neg hall, parse_with_transfer, herror]
    simp

/-- Transfer codings are read exactly, and decide about the body, in just these messages. -/
theorem transfer_codings_exact_iff (h : Carries m headers fields) (array_size max next : Nat) :
    CodingsExact m headers fields array_size ∧ FramingExact m buffer headers fields max next ↔
      CodingsReadable fields array_size ∧ FramingReadable m headers fields max :=
  and_congr (codings_exact_iff h array_size) (framing_exact_iff h max next)

def gzip : List Byte := [103, 122, 105, 112]

/-- An item without parameters. -/
def plain (before : Blanks) (name : Token) : Item := ⟨before, ⟨name, []⟩, ⟨[], by decide⟩⟩

def gzip_item : Item := plain ⟨[], by decide⟩ ⟨gzip, by decide⟩

def chunked_item : Item := plain ⟨[], by decide⟩ ⟨chunked, by decide⟩

/-- A line with the codings, at an address. -/
def transfer_line (value : List Byte) : List Byte := key_transfer_encoding ++ colon :: (value ++ crlf)

def transfer_header (p length : Nat) : Header := ⟨⟨p, 17⟩, ⟨p + 18, length⟩⟩

def two_headers : Memory := memory.of (nul :: (transfer_line gzip ++ transfer_line chunked)) (fun _ => nul)

/-- Of codings that stand alone in their headers, the last one is `chunked`. -/
theorem two_headers_exact : CodingsExact two_headers [transfer_header 1 4, transfer_header 25 7]
        [⟨[gzip_item], by decide⟩, ⟨[chunked_item], by decide⟩] 10 ∧
      FramingExact two_headers ⟨1, 51⟩ [transfer_header 1 4, transfer_header 25 7]
        [⟨[gzip_item], by decide⟩, ⟨[chunked_item], by decide⟩] 0 52 := by
  refine (transfer_codings_exact_iff ?_ 10 0 52).mpr ⟨?_, ?_⟩
  · have hfound : headers_named two_headers [transfer_header 1 4, transfer_header 25 7] key_transfer_encoding =
        [transfer_header 1 4, transfer_header 25 7] := by decide +kernel
    rw [Carries, hfound]
    exact .cons ⟨by decide, by decide, by decide +kernel⟩ (.cons ⟨by decide, by decide, by decide +kernel⟩ .nil)
  · rw [CodingsReadable]
    decide +kernel
  · intro _ _
    decide +kernel

def gzip_alone : Memory := memory.of (nul :: transfer_line gzip) (fun _ => nul)

def gzip_chunked : Memory := memory.of (nul :: transfer_line (gzip ++ comma :: space :: chunked)) (fun _ => nul)

/-- The octet in front of a comma is lost, and a single `gzip` is taken for `chunked`. -/
theorem gzip_misread : (Field.At gzip_chunked (transfer_header 1 13)
        ⟨[gzip_item, plain ⟨[space], by decide⟩ ⟨chunked, by decide⟩], by decide⟩ ∧
      ¬ CodingsExact gzip_chunked [transfer_header 1 13]
        [⟨[gzip_item, plain ⟨[space], by decide⟩ ⟨chunked, by decide⟩], by decide⟩] 10) ∧
    Field.At gzip_alone (transfer_header 1 4) ⟨[gzip_item], by decide⟩ ∧
      ¬ FramingExact gzip_alone ⟨1, 24⟩ [transfer_header 1 4] [⟨[gzip_item], by decide⟩] 0 25 := by
  refine ⟨⟨⟨by decide, by decide, by decide +kernel⟩, ?_⟩, ⟨by decide, by decide, by decide +kernel⟩, ?_⟩
  · rw [CodingsExact]
    decide +kernel
  · intro hexact
    have hchunked := (hexact (by decide +kernel) (by decide)).mp (by decide +kernel)
    revert hchunked
    decide +kernel

end openvocs.http
