import Openvocs.Json.Shape

open List Option

namespace openvocs.json

open cstring

variable {ν : Type} {double : Double ν}

/-- The octets are read as the value, whatever comes behind them and however large the buffer is,
as long as it goes on with something that may stand behind a value. -/
def Reads (decode : Decode ν) (octets : List Byte) (value : Value ν) : Prop :=
  ∀ (c : Byte) (rest : List Byte) (size : Int), ends_number c = true → octets.length + 1 ≤ size →
    decode (octets ++ c :: rest) size = some (value, octets.length)

/-- The octets are not read at all in front of something that may stand behind a value. -/
def Refuses (decode : Decode ν) (octets : List Byte) : Prop :=
  ∀ (c : Byte) (rest : List Byte) (size : Int), ends_number c = true → octets.length + 1 ≤ size →
    decode (octets ++ c :: rest) size = none

/-- What the octets are read as. -/
def Tries (decode : Decode ν) (octets : List Byte) : Option (Value ν) → Prop
  | some value => Reads decode octets value
  | none => Refuses decode octets

theorem ends_number_of_whitespace : ∀ c : Byte, is_whitespace c = true → ends_number c = true :=
  forall_whitespace rfl rfl rfl rfl

theorem not_numeral_of_ends_number : ∀ c : Byte, ends_number c = true → is_numeral_char c = false := by
  intro c hc
  simp only [ends_number, Bool.or_eq_true, decide_eq_true_eq] at hc
  obtain ((rfl | rfl) | rfl) | hwhitespace := hc
  · rfl
  · rfl
  · rfl
  · exact forall_whitespace (P := fun c => is_numeral_char c = false) rfl rfl rfl rfl c hwhitespace

theorem Blank.ends_number {ws : List Byte} (hws : Blank ws) {c : Byte} (hc : ends_number c = true)
    (rest : List Byte) : ∃ d tail, ws ++ c :: rest = d :: tail ∧ json.ends_number d = true := by
  cases ws with
  | nil => exact ⟨c, rest, rfl, hc⟩
  | cons d ws => exact ⟨d, ws ++ c :: rest, rfl, ends_number_of_whitespace d (hws d (by simp))⟩

theorem value_decode_token {decode : Decode ν} {c : Byte} {s : List Byte} {size : Int}
    (hc : is_whitespace c = false) (hsize : 1 ≤ size) :
    value_decode double decode (c :: s) size = token_decode double decode (c :: s) size := by
  have hclear : clear_whitespace (c :: s) size = (c :: s, size) := by
    simpa using @clear_whitespace_token [] s c size (by simp) hc (by simp; omega)
  rw [value_decode, if_pos (exceeds_of_lt (by omega)), hclear]
  simp only
  cases token_decode double decode (c :: s) size with
  | none => rfl
  | some found => simp [offset]

theorem word_decode_eq {word : List Byte} (value : Value ν) (rest : List Byte) {size : Int}
    (hpos : 0 < word.length) (hsize : word.length ≤ size) :
    word_decode word value (word ++ rest) size = some (value, word.length) := by
  have hover : exceeds (word.length - 1) size = true := exceeds_of_lt (by omega)
  simp [word_decode, hover]

theorem getLast_print_integer (n : Int) : (print_integer n).getLast?.all is_digit = true := by
  obtain ⟨hne, hdigits⟩ := isNumber_decimal n.natAbs
  have hlast : (print_integer n).getLast? = some ((decimal n.natAbs).getLast hne) := by
    unfold print_integer
    split
    · rw [getLast?_cons_of_ne_nil hne, getLast?_eq_getLast_of_ne_nil hne]
    · exact getLast?_eq_getLast_of_ne_nil hne
  rw [hlast]
  exact hdigits _ (getLast_mem hne)

theorem number_decode_eq {n : Int} {value : ν} (h : double.strtod (print_integer n) = some value) {c : Byte}
    (hc : ends_number c = true) (rest : List Byte) {size : Int} (hsize : (print_integer n).length + 1 ≤ size) :
    number_decode double (print_integer n ++ c :: rest) size = some (.number value, (print_integer n).length) := by
  have hlength := @strtod_numeral (print_integer n) rest c (is_numeral_print_integer n)
    (not_numeral_of_ends_number c hc)
  have hpos : 0 < (print_integer n).length := by
    obtain ⟨d, s, hs, -⟩ := print_integer_cons n
    simp [hs]
  have hguard : (!exceeds 1 size || decide ((print_integer n).length = 0) ||
      (decide (0 ≤ size) && decide (size < (print_integer n).length))) = false := by
    simp only [Bool.or_eq_false_iff, Bool.and_eq_false_iff, decide_eq_false_iff_not, Bool.not_eq_false']
    refine ⟨⟨exceeds_of_lt (by omega), by omega⟩, Or.inr (by omega)⟩
  rw [number_decode]
  simp only [hlength, hguard, Bool.false_eq_true, if_false, take_left, drop_left, h,
    getLast_print_integer, Bool.true_eq_false, and_false, hc, if_true]

theorem string_decode_eq {content rest : List Byte} (h : Accepted content) (hcloses : Closes content) {size : Int}
    (hsize : content.length + 2 ≤ size) :
    string_decode (ν := ν) (quote :: content ++ quote :: rest) size =
      some (.string content, content.length + 2) := by
  have hmatch := @match_string_eq [] content rest size (by simp) h.1 hcloses (by simpa using hsize)
  rw [nil_append] at hmatch
  rw [string_decode, List.cons_append, hmatch]
  simp [of_eq_self h.2]

theorem string_decode_none {content rest : List Byte} (h : Accepted content) (hcloses : ¬ Closes content)
    {size : Int} (hsize : content.length + 3 ≤ size) :
    string_decode (ν := ν) (quote :: content ++ quote :: rest) size = none := by
  have hmatch := @match_string_none [] content rest size (by simp) h.1 hcloses (by simpa using hsize)
  rw [nil_append] at hmatch
  rw [string_decode, List.cons_append, hmatch]

section loops

variable {decode : Decode ν} {octets : List Byte} {value : Value ν} (hreads : Reads decode octets value)
  (hpos : 0 < octets.length)
include hreads hpos

theorem array_items_last (rounds : Nat) (items : List (Value ν)) {ws : List Byte} (hws : Blank ws)
    (rest : List Byte) {size : Int} (hsize : size = octets.length + ws.length + 1) :
    array_items decode (rounds + 1) items (octets ++ (ws ++ close_array :: rest)) size =
      some (items ++ [value]) := by
  obtain ⟨d, tail, htail, hd⟩ := hws.ends_number (c := close_array) (by decide) rest
  rw [array_items, if_pos (exceeds_of_lt (by omega)), htail, hreads d tail size hd (by omega), ← htail]
  simp only [drop_left]
  rw [clear_whitespace_token hws (by decide) (by omega)]
  simp only
  rw [if_pos (by omega)]

theorem array_items_next (rounds : Nat) (items : List (Value ν)) {ws : List Byte} (hws : Blank ws)
    {c : Byte} (hc : is_whitespace c = false) (s : List Byte) {size : Int}
    (hsize : octets.length + ws.length + 2 ≤ size) :
    array_items decode (rounds + 1) items (octets ++ comma :: (ws ++ c :: s)) size =
      array_items decode rounds (items ++ [value]) (c :: s) (size - octets.length - 1 - ws.length) := by
  have hcomma := @clear_whitespace_token [] (ws ++ c :: s) comma (size - octets.length) (by simp) (by decide)
    (by simp; omega)
  rw [nil_append] at hcomma
  rw [array_items, if_pos (exceeds_of_lt (by omega)), hreads comma _ size (by decide) (by omega)]
  simp only [drop_left, hcomma, length_nil]
  rw [if_neg (by simp; omega), if_pos trivial, clear_whitespace_token hws hc (by simp; omega)]
  simp

end loops

section keys

variable {key ws ws' s : List Byte} {c : Byte} {size : Int} (haccepted : Accepted key) (hws : Blank ws)
include haccepted hws

theorem object_key_eq (hcloses : Closes key) {keys : List (List Byte)} (hnew : key ∉ keys) (hws' : Blank ws')
    (hc : is_whitespace c = false) (hsize : ws.length + key.length + ws'.length + 3 ≤ size) :
    object_key keys (ws ++ quote :: (key ++ quote :: colon :: (ws' ++ c :: s))) size =
      some (key, c :: s, size - (ws.length + key.length + ws'.length + 2)) := by
  have hmatch := @match_string_eq ws key (colon :: (ws' ++ c :: s)) size hws haccepted.1 hcloses (by omega)
  have hoffset : offset (ws ++ quote :: (key ++ quote :: colon :: (ws' ++ c :: s)))
      (key ++ quote :: colon :: (ws' ++ c :: s)) = ws.length + 1 := by
    rw [append_cons, offset_append, length_append, length_singleton]
  have hdrop : (key ++ quote :: colon :: (ws' ++ c :: s)).drop (key.length + 1) = colon :: (ws' ++ c :: s) := by
    rw [drop_length_add_append]
    rfl
  have hcolon := @clear_whitespace_token [] (ws' ++ c :: s) colon (size - ((ws.length + 1 : Nat) + key.length))
    (by simp) (by decide) (by simp; omega)
  rw [nil_append] at hcolon
  rw [object_key, hmatch]
  simp only [take_left, of_eq_self haccepted.2, if_neg hnew, hoffset, hdrop, hcolon, if_true]
  rw [clear_whitespace_token hws' hc (by simp; omega)]
  simp only [length_nil, some.injEq, Prod.mk.injEq, true_and]
  omega

theorem object_key_none (hcloses : ¬ Closes key) (keys : List (List Byte))
    (hsize : ws.length + key.length + 3 ≤ size) (rest : List Byte) :
    object_key keys (ws ++ quote :: (key ++ quote :: rest)) size = none := by
  rw [object_key, @match_string_none ws key rest size hws haccepted.1 hcloses hsize]

end keys

theorem match_string_blank {ws s : List Byte} (hws : Blank ws) {size : Int} (hsize : ws.length + 2 ≤ size) :
    match_string (ws ++ quote :: s) size = match_string (quote :: s) (size - ws.length) := by
  have hskip := @skip_whitespace_token [] s quote (size - ws.length) (by simp) not_is_whitespace_quote
    (by simp; omega)
  rw [nil_append, length_nil] at hskip
  rw [match_string, match_string, if_pos (exceeds_of_lt (by omega)), if_pos (exceeds_of_lt (by omega)),
    skip_whitespace_token hws not_is_whitespace_quote (by omega), hskip]
  simp

theorem match_string_start {s start : List Byte} {size : Int} {length : Nat}
    (h : match_string (quote :: s) size = some (start, length)) : start = s := by
  have hskip : skip_whitespace (quote :: s) size = some (quote :: s, size) := by
    simp [skip_whitespace, not_is_whitespace_quote]
  simp only [match_string, hskip] at h
  repeat' split at h
  all_goals simp_all

theorem object_members_blank {decode : Decode ν} (rounds : Nat) (members : List (List Byte × Value ν))
    {ws s : List Byte} (hws : Blank ws) {size : Int} (hsize : ws.length + 2 ≤ size) :
    object_members decode (rounds + 1) members (ws ++ quote :: s) size =
      object_members decode (rounds + 1) members (quote :: s) (size - ws.length) := by
  have hkey : object_key (members.map Prod.fst) (ws ++ quote :: s) size =
      object_key (members.map Prod.fst) (quote :: s) (size - ws.length) := by
    rw [object_key, object_key, match_string_blank hws hsize]
    cases hmatch : match_string (quote :: s) (size - ws.length) with
    | none => rfl
    | some found =>
      obtain ⟨start, length⟩ := found
      obtain rfl := match_string_start hmatch
      have hoffset : offset (ws ++ quote :: start) start = ws.length + 1 := by
        rw [append_cons, offset_append, length_append, length_singleton]
      have hoffset' : offset (quote :: start) start = 1 := offset_append [quote] start
      have hreduced : size - ((ws.length + 1 : Nat) + length) = size - ws.length - ((1 : Nat) + length) := by omega
      simp only [hoffset, hoffset', hreduced]
  rw [object_members, object_members, if_pos (exceeds_of_lt (by omega)), if_pos (exceeds_of_lt (by omega)), hkey]

section members

variable {decode : Decode ν} {octets : List Byte} {value : Value ν} (hreads : Reads decode octets value)
  {key ws ws' : List Byte} (haccepted : Accepted key) (hcloses : Closes key) (hws : Blank ws) (hws' : Blank ws')
  (hhead : ∃ c s, octets = c :: s ∧ is_whitespace c = false)
  {members : List (List Byte × Value ν)} (hnew : key ∉ members.map Prod.fst)
include hreads haccepted hcloses hws hws' hhead hnew

theorem object_members_last (rounds : Nat) {ws'' : List Byte} (hws'' : Blank ws'') (rest : List Byte) {size : Int}
    (hsize : ws.length + key.length + ws'.length + octets.length + ws''.length + 4 ≤ size) :
    object_members decode (rounds + 1) members
        (ws ++ quote :: (key ++ quote :: colon :: (ws' ++ (octets ++ (ws'' ++ close_object :: rest))))) size =
      some (members ++ [(key, value)]) := by
  obtain ⟨c, s, rfl, hc⟩ := hhead
  obtain ⟨d, tail, htail, hd⟩ := hws''.ends_number (c := close_object) (by decide) rest
  rw [object_members, if_pos (exceeds_of_lt (by omega)), List.cons_append,
    object_key_eq haccepted hws hcloses hnew hws' hc (by simp only [length_cons] at hsize; omega)]
  simp only
  rw [← List.cons_append, htail, hreads d tail _ hd (by omega), ← htail]
  simp only [drop_left]
  rw [clear_whitespace_token hws'' (by decide) (by omega)]
  simp

theorem object_members_next (rounds : Nat) (rest : List Byte) {size : Int}
    (hsize : ws.length + key.length + ws'.length + octets.length + 4 ≤ size) :
    ∃ larger : Int, size - (ws.length + key.length + ws'.length + octets.length + 4) ≤ larger ∧
      object_members decode (rounds + 1) members
          (ws ++ quote :: (key ++ quote :: colon :: (ws' ++ (octets ++ comma :: rest)))) size =
        object_members decode rounds (members ++ [(key, value)]) rest larger := by
  obtain ⟨c, s, rfl, hc⟩ := hhead
  refine ⟨size - (ws.length + key.length + ws'.length + 2) - (c :: s).length - 1, by omega, ?_⟩
  have hcomma := @clear_whitespace_token [] rest comma
    (size - (ws.length + key.length + ws'.length + 2) - (c :: s).length) (by simp) (by decide)
    (by simp only [length_nil]; omega)
  rw [nil_append] at hcomma
  rw [object_members, if_pos (exceeds_of_lt (by omega)), List.cons_append,
    object_key_eq haccepted hws hcloses hnew hws' hc (by simp only [length_cons] at hsize; omega)]
  simp only
  rw [← List.cons_append, hreads comma rest _ (by decide) (by omega)]
  simp only [drop_left, hcomma]
  simp [comma, close_object]

end members

theorem mapM_cons_none {α β : Type} {f : α → Option β} {a : α} (h : f a = none) (l : List α) :
    (a :: l).mapM f = none := by
  rw [mapM_cons, h]
  rfl

theorem mapM_cons_some {α β : Type} {f : α → Option β} {a : α} {b : β} (h : f a = some b) (l : List α) :
    (a :: l).mapM f = (l.mapM f).map (b :: ·) := by
  rw [mapM_cons, h]
  cases l.mapM f <;> rfl

section plain

variable {config : StringifyConfig} (plain : Plain config) {decode : Decode ν} (depth : Nat)
  (read : Value ν → Option (Value ν))
include plain

theorem array_items_eq {item : Value ν} {items : List (Value ν)}
    (hbuilt : ∀ i ∈ item :: items, i.Built (Exact double))
    (htries : ∀ i ∈ item :: items, Tries decode (body double config depth i) (read i))
    {rounds : Nat} (hrounds : items.length < rounds) (before : List (Value ν)) {ws : List Byte} (hws : Blank ws)
    (rest : List Byte) {size : Int}
    (hsize : size = (body double config depth item ++ if items.isEmpty then [] else
      chars config.array.separator ++ items_text double config depth items).length + ws.length + 1) :
    array_items decode rounds before (body double config depth item ++ ((if items.isEmpty then [] else
        chars config.array.separator ++ items_text double config depth items) ++ (ws ++ close_array :: rest))) size =
      ((item :: items).mapM read).map (before ++ ·) := by
  induction items generalizing item before rounds size with
  | nil =>
    obtain ⟨rounds, rfl⟩ : ∃ k, rounds = k + 1 := ⟨rounds - 1, by simp at hrounds; omega⟩
    obtain ⟨c, s, hbody, hc⟩ := body_cons plain (hbuilt item (by simp)) depth
    have hitem := htries item (by simp)
    simp only [isEmpty_nil, if_true, List.append_nil, nil_append] at hsize ⊢
    cases hread : read item with
    | none =>
      rw [hread] at hitem
      obtain ⟨d, tail, htail, hd⟩ := hws.ends_number (c := close_array) (by decide) rest
      rw [array_items, if_pos (exceeds_of_lt (by rw [hsize, hbody]; simp; omega)), htail,
        hitem d tail size hd (by omega)]
      simp [hread]
    | some value =>
      rw [hread] at hitem
      rw [array_items_last hitem (by simp [hbody]) rounds before hws rest hsize]
      simp [hread]
  | cons next items ih =>
    obtain ⟨rounds, rfl⟩ : ∃ k, rounds = k + 1 := ⟨rounds - 1, by simp at hrounds; omega⟩
    obtain ⟨c, s, hbody, hc⟩ := body_cons plain (hbuilt item (by simp)) depth
    obtain ⟨c', s', hbody', hc'⟩ := body_cons plain (hbuilt next (by simp)) depth
    obtain ⟨sep, hseparator, hsep⟩ := plain.array_separator
    obtain ⟨lead, hlead, hitems⟩ := items_text_cons double plain next items depth
    have hitem := htries item (by simp)
    have hblank : Blank (sep ++ lead) := Blank.append hsep hlead
    simp only [isEmpty_cons, Bool.false_eq_true, if_false, hseparator, chars_some, hitems] at hsize ⊢
    cases hread : read item with
    | none =>
      rw [hread] at hitem
      rw [array_items, if_pos (exceeds_of_lt (by rw [hsize, hbody]; simp; omega)), List.cons_append, List.cons_append,
        hitem comma _ size (by decide) (by rw [hsize]; simp; omega)]
      simp [hread]
    | some value =>
      rw [hread] at hitem
      have hnext := array_items_next hitem (by simp [hbody]) rounds before hblank hc'
        (s' ++ ((if items.isEmpty then [] else chars config.array.separator ++
          items_text double config depth items) ++ (ws ++ close_array :: rest)))
        (show _ ≤ size by rw [hsize, hbody']; simp; omega)
      have hih : array_items decode rounds (before ++ [value]) (body double config depth next ++
          ((if items.isEmpty then [] else chars config.array.separator ++
            items_text double config depth items) ++ (ws ++ close_array :: rest)))
          (size - (body double config depth item).length - 1 - (sep ++ lead).length) =
          ((next :: items).mapM read).map (before ++ [value] ++ ·) :=
        ih (fun i hi => hbuilt i (mem_cons_of_mem _ hi)) (fun i hi => htries i (mem_cons_of_mem _ hi))
          (by simpa using hrounds) (before ++ [value]) (by rw [hsize]; simp [hseparator]; omega)
      rw [hbody'] at hih ⊢
      simp only [hseparator, chars_some, append_assoc, List.cons_append] at hnext hih ⊢
      rw [hnext, hih]
      simp [mapM_cons_some hread]

omit plain in
/-- What a member is read as: nothing if the end of its key is not found. -/
def read_member (member : List Byte × Value ν) : Option (List Byte × Value ν) :=
  if Closes member.1 then (read member.2).map (member.1, ·) else none

theorem object_members_eq {l : List (List Byte × Value ν)} (hl : l ≠ []) (haccepted : ∀ m ∈ l, Accepted m.1)
    (hbuilt : ∀ m ∈ l, m.2.Built (Exact double))
    (htries : ∀ m ∈ l, Tries decode (body double config depth m.2) (read m.2)) {rounds : Nat}
    (hrounds : l.length ≤ rounds) (before : List (List Byte × Value ν))
    (hkeys : (before.map Prod.fst ++ l.map Prod.fst).Nodup) {first ws : List Byte} (hfirst : Blank first)
    (hws : Blank ws) (rest : List Byte) {size : Int}
    (hsize : first.length + (members_text config.object depth
      (l.map fun m => (m.1, member_text double config depth m.2))).length + ws.length + 1 ≤ size) :
    object_members decode rounds before (first ++ (members_text config.object depth
        (l.map fun m => (m.1, member_text double config depth m.2)) ++ (ws ++ close_object :: rest))) size =
      (l.mapM (read_member read)).map (before ++ ·) := by
  induction l generalizing before rounds first size with
  | nil => exact absurd rfl hl
  | cons member l ih =>
    obtain ⟨key, value⟩ := member
    obtain ⟨rounds, rfl⟩ : ∃ k, rounds = k + 1 := ⟨rounds - 1, by simp at hrounds; omega⟩
    obtain ⟨lead, hlead, htext⟩ := member_text_eq double plain value depth
    obtain ⟨sep, hseparator, hsep, -⟩ := plain.object_separator
    have hkey : Accepted key := haccepted (key, value) (by simp)
    have hbody : ∃ c s, body double config depth value = c :: s ∧ is_whitespace c = false :=
      body_cons plain (hbuilt (key, value) (by simp)) depth
    have hvalue : Tries decode (body double config depth value) (read value) := htries (key, value) (by simp)
    obtain ⟨gap, hblank, hgap, hgaplength⟩ : ∃ gap, Blank gap ∧ (∀ tail, first ++ (indent config.object depth ++ tail) =
        gap ++ tail) ∧ gap.length = first.length + (indent config.object depth).length :=
      ⟨_, Blank.append hfirst (blank_indent plain.object_indent depth), fun tail => (append_assoc ..).symm,
        length_append⟩
    have hnew : key ∉ before.map Prod.fst := by
      intro hmem
      exact (nodup_append.mp hkeys).2.2 key hmem key (by simp) rfl
    -- white space may stand in front of the key and in front of the value
    simp only [map_cons, members_text, append_assoc, hgap, htext, plain.object_delimiter, chars_some,
      List.cons_append, nil_append] at hsize ⊢
    simp only [length_append, length_cons] at hsize
    by_cases hcloses : Closes key
    · cases hread : read value with
      | none =>
        rw [hread] at hvalue
        have hmember : read_member read (key, value) = none := by simp [read_member, hread]
        obtain ⟨c, s, hcons, hc⟩ := hbody
        obtain ⟨d, tail, htail, hd⟩ : ∃ d tail, (if (l.map fun m => (m.1, member_text double config depth m.2)).isEmpty
            then [] else chars config.object.separator ++ members_text config.object depth
              (l.map fun m => (m.1, member_text double config depth m.2))) ++ (ws ++ close_object :: rest) = d :: tail ∧
            ends_number d = true := by
          cases l with
          | nil => exact hws.ends_number (by decide) rest
          | cons next l =>
            simp only [map_cons, isEmpty_cons, Bool.false_eq_true, if_false, hseparator, chars_some, List.cons_append]
            exact ⟨comma, _, rfl, by decide⟩
        have hfound := @object_key_eq key gap lead (s ++ d :: tail) c size hkey
          hblank hcloses (before.map Prod.fst) hnew hlead hc
          (by simp only [hcons, length_cons] at hsize ⊢; omega)
        rw [htail, hcons, object_members, if_pos (exceeds_of_lt (by omega)), List.cons_append, hfound]
        simp only
        rw [← List.cons_append, ← hcons, hvalue d tail _ hd
          (by simp only [hcons, length_cons] at hsize ⊢; omega), mapM_cons_none hmember]
        rfl
      | some found =>
        rw [hread] at hvalue
        have hmember : read_member read (key, value) = some (key, found) := by simp [read_member, hread, hcloses]
        cases l with
        | nil =>
          have hlast := object_members_last hvalue hkey hcloses hblank hlead hbody hnew rounds hws rest
            (show _ ≤ size by omega)
          simp only [map_nil, isEmpty_nil, if_true, nil_append]
          rw [hlast, mapM_cons_some hmember]
          rfl
        | cons next l =>
          simp only [map_cons, isEmpty_cons, Bool.false_eq_true, if_false, hseparator, chars_some,
            List.cons_append, length_append, length_cons] at hsize ⊢
          obtain ⟨larger, hlarger, hnext⟩ := object_members_next hvalue hkey hcloses hblank hlead hbody hnew rounds
            (sep ++ members_text config.object depth ((next.1, member_text double config depth next.2) ::
              l.map fun m => (m.1, member_text double config depth m.2)) ++ (ws ++ close_object :: rest))
            (show _ ≤ size by omega)
          have hih := ih (by simp) (fun m hm => haccepted m (mem_cons_of_mem _ hm))
            (fun m hm => hbuilt m (mem_cons_of_mem _ hm)) (fun m hm => htries m (mem_cons_of_mem _ hm))
            (show _ ≤ rounds by simpa using hrounds) (before ++ [(key, found)])
            (by simpa using hkeys) hsep
            (show _ ≤ larger by simp only [map_cons] at hlarger ⊢; omega)
          simp only [append_assoc, map_cons] at hnext hih ⊢
          rw [hnext, hih, mapM_cons_some hmember]
          simp
    · have hmember : read_member read (key, value) = none := by simp [read_member, hcloses]
      rw [object_members, if_pos (exceeds_of_lt (by omega)), object_key_none hkey hblank hcloses _
        (by omega), mapM_cons_none hmember]
      rfl

omit plain in
theorem match_brackets_cons {opening closing : Byte} (hopening : is_whitespace opening = false) (s : List Byte)
    {size : Int} (hsize : 1 < size) :
    match_brackets opening closing (opening :: s) size =
      (find_close opening closing 0 (size - 1) s).map fun length => (s, length) := by
  have hskip := @skip_whitespace_token [] s opening size (by simp) hopening (by simp; omega)
  rw [nil_append] at hskip
  rw [match_brackets, if_pos (exceeds_of_lt (by omega)), hskip]
  simp

theorem array_body (items : List (Value ν)) :
    ∃ content, body double config depth (.array items) = open_array :: (content ++ [close_array]) ∧
      (items = [] ∧ content = [] ∨ ∃ item rest ws ws', items = item :: rest ∧ Blank ws ∧ Blank ws' ∧
        content = ws ++ (body double config (depth + 1) item ++ ((if rest.isEmpty then [] else
          chars config.array.separator ++ items_text double config (depth + 1) rest) ++ ws'))) := by
  cases items with
  | nil => exact ⟨[], by simp [body, text], Or.inl ⟨rfl, rfl⟩⟩
  | cons item rest =>
    obtain ⟨ws, hintro, hws⟩ := plain.array_intro
    obtain ⟨lead, hlead, hitems⟩ := items_text_cons double plain item rest (depth + 1)
    refine ⟨_, ?_, Or.inr ⟨item, rest, ws ++ lead, chars config.array.out ++ indent config.array depth, rfl,
      Blank.append hws hlead, Blank.append plain.array_out (blank_indent plain.array_indent depth), rfl⟩⟩
    simp [body, hintro, chars_some, hitems, plain.array_outro]

theorem object_body (members : List (List Byte × Value ν)) :
    ∃ content, body double config depth (.object members) = open_object :: (content ++ [close_object]) ∧
      (members = [] ∧ content = [] ∨ ∃ ws ws', members ≠ [] ∧ Blank ws ∧ Blank ws' ∧
        content = ws ++ (members_text config.object (depth + 1) ((collocate_object_keys members).map
          fun m => (m.1, member_text double config (depth + 1) m.2)) ++ ws')) := by
  cases members with
  | nil => exact ⟨[], by simp [body, text], Or.inl ⟨rfl, rfl⟩⟩
  | cons member rest =>
    obtain ⟨ws, hintro, hws⟩ := plain.object_intro
    refine ⟨_, ?_, Or.inr ⟨ws, chars config.object.out ++ indent config.object depth, by simp, hws,
      Blank.append plain.object_out (blank_indent plain.object_indent depth), rfl⟩⟩
    rw [← collocate_object_keys_map (fun _ v => member_text double config (depth + 1) v), ← member_texts_eq]
    simp [body, hintro, chars_some, plain.object_outro]

theorem length_le_items_text {items : List (Value ν)} (h : ∀ i ∈ items, i.Built (Exact double)) :
    items.length ≤ (items_text double config depth items).length := by
  induction items with
  | nil => simp
  | cons item items ih =>
    have hpos := text_length_pos plain (fun _ hvalue => hvalue.fill_string_length) (h item (by simp)) depth
    have hrest := ih fun i hi => h i (mem_cons_of_mem _ hi)
    cases items with
    | nil =>
      simp only [items_text, length_append, length_cons, length_nil]
      omega
    | cons next items =>
      rw [items_text]
      simp only [isEmpty_cons, Bool.false_eq_true, if_false, length_append, length_cons] at hrest ⊢
      omega

theorem array_decode_eq {items : List (Value ν)} (hbuilt : ∀ i ∈ items, i.Built (Exact double))
    (htries : ∀ i ∈ items, Tries decode (body double config (depth + 1) i) (read i)) (rest : List Byte) {size : Int}
    (hsize : (body double config depth (.array items)).length ≤ size)
    (hmatch : ∀ content, body double config depth (.array items) = open_array :: (content ++ [close_array]) →
      find_close open_array close_array 0 (size - 1) (content ++ close_array :: rest) = some content.length) :
    array_decode decode (body double config depth (.array items) ++ rest) size =
      (items.mapM read).map fun items' => (.array items', (body double config depth (.array items)).length) := by
  obtain ⟨content, hbody, hcontent⟩ := @array_body ν double config plain depth items
  have hclose := hmatch content hbody
  rw [hbody] at hsize ⊢
  simp only [length_cons, length_append, length_nil] at hsize
  have hstart : (open_array :: (content ++ [close_array])) ++ rest = [open_array] ++ (content ++ close_array :: rest) := by
    simp
  have hfound : match_array ([open_array] ++ (content ++ close_array :: rest)) size =
      some (content ++ close_array :: rest, content.length) := by
    rw [singleton_append, match_array, match_brackets_cons (by decide) _ (by omega), hclose]
    rfl
  rw [hstart, array_decode, hfound]
  simp only [offset_append, length_singleton]
  rcases hcontent with ⟨rfl, rfl⟩ | ⟨item, tail, ws, ws', rfl, hws, hws', rfl⟩
  · have hclear := @clear_whitespace_token [] rest close_array 1 (by simp) (by decide) (by simp)
    rw [nil_append] at hclear
    simp only [nil_append, length_nil, Nat.cast_zero, zero_add, hclear]
    simp [array_items, exceeds]
  obtain ⟨c, s, hitem, hc⟩ := body_cons plain (hbuilt item (by simp)) (depth + 1)
  generalize hrest : (if tail.isEmpty then [] else
    chars config.array.separator ++ items_text double config (depth + 1) tail) = more at *
  have htail : tail.length ≤ more.length := by
    cases tail with
    | nil => simp
    | cons next tail =>
      have := length_le_items_text plain (depth + 1) fun i hi => hbuilt i (mem_cons_of_mem _ hi)
      simp only [isEmpty_cons, Bool.false_eq_true, if_false] at hrest
      rw [← hrest, length_append]
      omega
  have hclear := @clear_whitespace_token ws (s ++ (more ++ (ws' ++ close_array :: rest))) c
    ((ws ++ (body double config (depth + 1) item ++ (more ++ ws'))).length + 1) hws hc
    (by simp only [length_append]; omega)
  have hloop := @array_items_eq ν double config plain decode (depth + 1) read item tail hbuilt htries
    ([open_array] ++ (ws ++ (body double config (depth + 1) item ++ (more ++ ws')) ++ close_array :: rest)).length
    (by simp only [length_append, length_cons]; omega) [] ws' hws' rest
    ((ws ++ (body double config (depth + 1) item ++ (more ++ ws'))).length + 1 - ws.length)
    (by rw [hrest]; simp only [length_append]; omega)
  rw [hrest] at hloop
  simp only [hitem, append_assoc, List.cons_append, nil_append] at hclear hloop ⊢
  rw [hclear]
  simp only
  rw [hloop]
  cases (item :: tail).mapM read with
  | none => rfl
  | some found =>
    simp only [map_some, length_append, length_cons, length_nil, some.injEq, Prod.mk.injEq, true_and]
    omega

omit plain in
theorem length_le_members_text (l : List (List Byte × List Byte)) :
    l.length ≤ (members_text config.object depth l).length := by
  induction l with
  | nil => simp
  | cons entry l ih =>
    obtain ⟨key, octets⟩ := entry
    cases l with
    | nil =>
      simp only [members_text, length_append, length_cons, length_nil]
      omega
    | cons next l =>
      rw [members_text]
      simp only [isEmpty_cons, Bool.false_eq_true, if_false, length_append, length_cons, length_nil] at ih ⊢
      omega

theorem object_decode_eq {members : List (List Byte × Value ν)} (hkeys : (members.map Prod.fst).Nodup)
    (haccepted : ∀ m ∈ members, Accepted m.1) (hbuilt : ∀ m ∈ members, m.2.Built (Exact double))
    (htries : ∀ m ∈ members, Tries decode (body double config (depth + 1) m.2) (read m.2)) (rest : List Byte)
    {size : Int} (hsize : (body double config depth (.object members)).length ≤ size)
    (hmatch : ∀ content, body double config depth (.object members) = open_object :: (content ++ [close_object]) →
      find_close open_object close_object 0 (size - 1) (content ++ close_object :: rest) = some content.length) :
    object_decode decode (body double config depth (.object members) ++ rest) size =
      ((collocate_object_keys members).mapM (read_member read)).map
        fun members' => (.object members', (body double config depth (.object members)).length) := by
  obtain ⟨content, hbody, hcontent⟩ := @object_body ν double config plain depth members
  have hclose := hmatch content hbody
  rw [hbody] at hsize ⊢
  simp only [length_cons, length_append, length_nil] at hsize
  have hstart : (open_object :: (content ++ [close_object])) ++ rest =
      [open_object] ++ (content ++ close_object :: rest) := by simp
  have hfound : match_object ([open_object] ++ (content ++ close_object :: rest)) size =
      some (content ++ close_object :: rest, content.length) := by
    rw [singleton_append, match_object, match_brackets_cons (by decide) _ (by omega), hclose]
    rfl
  rw [hstart, object_decode, hfound]
  simp only [offset_append, length_singleton]
  rcases hcontent with ⟨rfl, rfl⟩ | ⟨ws, ws', hne, hws, hws', rfl⟩
  · have hclear := @clear_whitespace_token [] rest close_object 1 (by simp) (by decide) (by simp)
    rw [nil_append] at hclear
    simp only [nil_append, length_nil, Nat.cast_zero, zero_add, hclear]
    simp [object_members, exceeds, collocate_object_keys]
  have hperm := collocate_object_keys_perm members
  have hmem : ∀ m ∈ collocate_object_keys members, m ∈ members := fun m hm => hperm.subset hm
  obtain ⟨m, l, hl⟩ : ∃ m l, collocate_object_keys members = m :: l := by
    apply exists_cons_of_ne_nil
    intro hnil
    rw [hnil] at hperm
    exact hne (nil_perm.mp hperm)
  -- the white space in front of the first key is cleared before the loop
  have hloop := @object_members_eq ν double config plain decode (depth + 1) read (collocate_object_keys members)
    (by simp [hl]) (fun m hm => haccepted m (hmem m hm)) (fun m hm => hbuilt m (hmem m hm))
    (fun m hm => htries m (hmem m hm))
  have hindent : Blank (indent config.object (depth + 1)) := blank_indent plain.object_indent _
  have hlength := @length_le_members_text config (depth + 1) ((collocate_object_keys members).map
      fun m => (m.1, member_text double config (depth + 1) m.2))
  obtain ⟨s, hs⟩ : ∃ s, members_text config.object (depth + 1) ((collocate_object_keys members).map
      fun m => (m.1, member_text double config (depth + 1) m.2)) = indent config.object (depth + 1) ++ quote :: s := by
    rw [hl, map_cons, members_text]
    simp only [append_assoc, List.cons_append]
    exact ⟨_, rfl⟩
  rw [length_map] at hlength
  rw [hs] at hloop hlength ⊢
  have hread := @hloop ((ws ++ (indent config.object (depth + 1) ++ quote :: s ++ ws') ++
      close_object :: rest).length + 1)
    (by simp only [length_append, length_cons] at hlength ⊢; omega) []
    (by simpa using (hperm.map Prod.fst).nodup_iff.mpr hkeys) [] ws' blank_nil hws' rest
    ((ws ++ (indent config.object (depth + 1) ++ quote :: s ++ ws')).length + 1 - ws.length)
    (by simp only [length_append, length_cons, length_nil]; omega)
  have hclear := @clear_whitespace_token (ws ++ indent config.object (depth + 1)) (s ++ (ws' ++ close_object :: rest))
    quote ((ws ++ (indent config.object (depth + 1) ++ quote :: s ++ ws')).length + 1) (Blank.append hws hindent)
    (by decide) (by simp only [length_append, length_cons]; omega)
  have hblank := @object_members_blank ν decode (ws ++ (indent config.object (depth + 1) ++ quote :: s ++ ws') ++
      close_object :: rest).length [] (indent config.object (depth + 1)) (s ++ (ws' ++ close_object :: rest)) hindent
    ((ws ++ (indent config.object (depth + 1) ++ quote :: s ++ ws')).length + 1 - ws.length)
    (by simp only [length_append, length_cons]; omega)
  have hsame : ((ws ++ (indent config.object (depth + 1) ++ quote :: s ++ ws')).length + 1 : Int) -
      (ws ++ indent config.object (depth + 1)).length =
      (ws ++ (indent config.object (depth + 1) ++ quote :: s ++ ws')).length + 1 - ws.length -
        (indent config.object (depth + 1)).length := by
    simp only [length_append]
    omega
  simp only [append_assoc, List.cons_append, nil_append, length_cons] at hread hclear hblank hsame ⊢
  rw [hclear]
  simp only
  rw [hsame, ← hblank, hread]
  cases (collocate_object_keys members).mapM (read_member read) with
  | none => rfl
  | some found =>
    simp only [map_some, length_append, length_cons, length_nil, some.injEq, Prod.mk.injEq, true_and]
    omega

end plain

end openvocs.json
