import Openvocs.Lib.Pieces
import Openvocs.Value.Prefix

open List Option

namespace openvocs.value

/-- The loop in `ov_value_parse_stream`, with the values for the consumer and the remainder.
    There is no remainder after an error. -/
def stream_loop : Nat → List Byte → Option (List Value × Option (List Byte))
  | 0, _ => none
  | rounds + 1, s =>
    match ov_value_parse s with
    | none => none
    | some .error => some ([], none)
    | some .premature => some ([], some s)
    | some (.found v rest) => (stream_loop rounds rest).map fun (values, remainder) => (v :: values, remainder)

/-- `ov_value_parse_stream`, with a bound on its rounds. -/
def ov_value_parse_stream (rounds : Nat) (s : List Byte) : Option (List Value × Option (List Byte)) :=
  if s = [] then some ([], none) else stream_loop rounds s

/-- Chunks that are parsed with the remainder in front of each of them. -/
def feed_all (rounds : Nat) : List Byte → List (List Byte) → Option (List Value × Option (List Byte))
  | kept, [] => some ([], some kept)
  | kept, chunk :: chunks =>
    (ov_value_parse_stream rounds (kept ++ chunk)).bind fun (values, remainder) =>
      match remainder with
      | none => some (values, none)
      | some kept => (feed_all rounds kept chunks).map fun (more, remainder) => (values ++ more, remainder)

/-- The text of a value is taken for this value completely, whatever is behind it. -/
def IsText (v : Value) (t : List Byte) : Prop := ∀ rest, ov_value_parse (t ++ rest) = some (.found v rest)

/-- No part at the begin of a text is taken for a value or for an error. -/
def PrefixSafe (t : List Byte) : Prop :=
  ∀ p q, t = p ++ q → q ≠ [] → skip_chars p ≠ [] → ov_value_parse p = some .premature

variable {v : Value}

theorem IsText.cut {t p q : List Byte} (h : IsText v t) (hv : Steady v) (ht : t = p ++ q) (hq : q ≠ []) :
    ov_value_parse p = some .premature := by
  have hfound := h []
  rw [List.append_nil, ht] at hfound
  exact ov_value_parse_eq (steady_cut hv hfound (length_pos_iff.mpr hq))

theorem PrefixSafe.premature {p q : List Byte} (h : PrefixSafe (p ++ q)) (hq : q ≠ []) {depth : Nat}
    (hdepth : 2 * p.length + 2 ≤ depth) : parse depth .token p = some .premature := by
  apply parse_mono hdepth
  by_cases hskip : skip_chars p = []
  · exact token_of_skip_nil hskip
  · exact h p q rfl hq hskip

variable {t : List Byte}

theorem IsText.calm (h : IsText v t) (hsafe : PrefixSafe t) : Calm v := by
  by_contra hv
  have hfound := h []
  rw [List.append_nil] at hfound
  obtain ⟨p, q, rfl, hless, hspoiled⟩ := parse_spoiled hfound hv trivial
  have hq : q ≠ [] := length_pos_iff.mp hless
  rw [hsafe.premature hq (by rw [length_append]; omega)] at hspoiled
  cases hspoiled

theorem IsText.digits {items : List Value} (h : IsText (.list items) t) (hsafe : PrefixSafe t) :
    ∀ item ∈ items, ∃ c, item = .number [c] := by
  by_contra hitems
  obtain ⟨p, q, hp, hless, v, hv⟩ := token_found_early (h [comma]) (by simp) hitems
  rw [length_singleton] at hless
  -- the octet behind the text is cut off, too
  obtain ⟨a, -, ha⟩ | ⟨a, rfl, rfl⟩ := append_eq_append_iff.mp hp
  · have hlength := congrArg List.length ha
    rw [length_append, length_singleton] at hlength
    omega
  rw [length_append, length_singleton] at hless
  have hne : a ≠ [] := length_pos_iff.mp (by omega)
  rw [hsafe.premature hne (by simp only [length_append]; omega)] at hv
  simp at hv

theorem prefix_safe_iff_steady (h : IsText v t) (hv : ∀ digits, v ≠ .number digits) :
    PrefixSafe t ↔ Steady v := by
  constructor
  · intro hsafe
    cases v with
    | string => trivial
    | list items => exact h.digits hsafe
    | object pairs =>
      cases h.calm hsafe with
      | object _ hpairs => exact hpairs
    | number digits => exact absurd rfl (hv digits)
    | _ => exact absurd (h.calm hsafe) (by rintro ⟨⟩)
  intro hsteady p q ht hq _
  exact h.cut hsteady ht hq

variable {texts : List (Value × List Byte)}

theorem stream_loop_texts (htexts : ∀ x ∈ texts, IsText x.1 x.2) {p : List Byte}
    (hp : ov_value_parse p = some .premature) {rounds : Nat} (hrounds : texts.length < rounds) :
    stream_loop rounds (texts.flatMap Prod.snd ++ p) = some (texts.map Prod.fst, some p) := by
  induction texts generalizing rounds with
  | nil =>
    cases rounds with
    | zero => simp at hrounds
    | succ rounds =>
      rw [flatMap_nil, nil_append, stream_loop, hp]
      rfl
  | cons x texts ih =>
    cases rounds with
    | zero => simp at hrounds
    | succ rounds =>
      rw [length_cons] at hrounds
      have hrest := ih (fun y hy => htexts y (mem_cons_of_mem _ hy)) (by omega : texts.length < rounds)
      rw [flatMap_cons, append_assoc, stream_loop, htexts x mem_cons_self]
      simp [hrest]

/-- What is kept is the begin of the next text, and not all of it. -/
def Kept (p : List Byte) : List (Value × List Byte) → Prop
  | [] => p = []
  | x :: _ => ∃ q, q ≠ [] ∧ x.2 = p ++ q

theorem kept_iff {p : List Byte} : Kept p texts ↔ pieces.Kept Prod.snd p texts := by
  cases texts <;> rfl

theorem cut_texts {s rest : List Byte} (h : texts.flatMap Prod.snd = s ++ rest) :
    ∃ done todo p, texts = done ++ todo ∧ s = done.flatMap Prod.snd ++ p ∧ todo.flatMap Prod.snd = p ++ rest ∧
      Kept p todo := by
  obtain ⟨done, todo, p, htexts, hs, htodo, hkept⟩ := pieces.cut h
  exact ⟨done, todo, p, htexts, hs, htodo, kept_iff.mpr hkept⟩

theorem Kept.premature {p : List Byte} (h : Kept p texts)
    (htexts : ∀ x ∈ texts, IsText x.1 x.2) (hsteady : ∀ x ∈ texts, Steady x.1) :
    ov_value_parse p = some .premature := by
  cases texts with
  | nil =>
    rw [show p = [] from h]
    exact token_of_skip_nil rfl
  | cons x texts =>
    obtain ⟨q, hq, hx⟩ := h
    exact (htexts x mem_cons_self).cut (hsteady x mem_cons_self) hx hq

theorem feed_all_texts {rounds : Nat} {chunks : List (List Byte)} (hchunks : ∀ chunk ∈ chunks, chunk ≠ []) (hrounds : texts.length < rounds) (htexts : ∀ x ∈ texts, IsText x.1 x.2)
    (hsteady : ∀ x ∈ texts, Steady x.1) {kept : List Byte} (hkept : Kept kept texts)
    (hflat : texts.flatMap Prod.snd = kept ++ chunks.flatten) :
    feed_all rounds kept chunks = some (texts.map Prod.fst, some []) := by
  induction chunks generalizing kept texts with
  | nil =>
    rw [flatten_nil, List.append_nil] at hflat
    cases texts with
    | nil =>
      rw [show kept = [] from hkept]
      rfl
    | cons x texts =>
      obtain ⟨q, hq, hx⟩ := hkept
      rw [flatMap_cons, hx, append_assoc, append_right_eq_self, append_eq_nil_iff] at hflat
      exact absurd hflat.1 hq
  | cons chunk chunks ih =>
    rw [flatten_cons, ← append_assoc] at hflat
    obtain ⟨done, todo, p, rfl, hs, htodo, hp⟩ := cut_texts hflat
    have hne : kept ++ chunk ≠ [] := by
      have hchunk := hchunks chunk mem_cons_self
      simp [hchunk]
    rw [length_append] at hrounds
    have hpremature := hp.premature (fun x hx => htexts x (mem_append_right _ hx))
      (fun x hx => hsteady x (mem_append_right _ hx))
    have hround := stream_loop_texts (fun x hx => htexts x (mem_append_left _ hx)) hpremature
      (by omega : done.length < rounds)
    have hothers := ih (fun c hc => hchunks c (mem_cons_of_mem _ hc)) (by omega)
      (fun x hx => htexts x (mem_append_right _ hx)) (fun x hx => hsteady x (mem_append_right _ hx)) hp htodo
    rw [feed_all, ov_value_parse_stream, if_neg hne, hs, hround]
    simp [hothers]

theorem IsText.ne_nil (h : IsText v t) : t ≠ [] := by
  rintro rfl
  have hfound := h []
  rw [List.append_nil, ov_value_parse, token_of_skip_nil rfl] at hfound
  simp at hfound

/-- Texts are found whole from any chunks if and only if each of them is a string, an object
    without words and without numbers that are something else in between, or a list of digits. -/
theorem stream_safe_iff_steady (texts : List (Value × List Byte)) (htexts : ∀ x ∈ texts, IsText x.1 x.2)
    (hkind : ∀ x ∈ texts, ∀ digits, x.1 ≠ .number digits) :
    ((∀ x ∈ texts, PrefixSafe x.2) ∧
      ∀ chunks rounds, chunks.flatten = texts.flatMap Prod.snd → (∀ chunk ∈ chunks, chunk ≠ []) →
        texts.length < rounds → feed_all rounds [] chunks = some (texts.map Prod.fst, some [])) ↔
      ∀ x ∈ texts, Steady x.1 := by
  constructor
  · intro h x hx
    exact (prefix_safe_iff_steady (htexts x hx) (hkind x hx)).mp (h.1 x hx)
  intro hsteady
  constructor
  · intro x hx
    exact (prefix_safe_iff_steady (htexts x hx) (hkind x hx)).mpr (hsteady x hx)
  · intro chunks rounds hflat hchunks hrounds
    apply feed_all_texts hchunks hrounds htexts hsteady
    · cases texts with
      | nil => rfl
      | cons x texts => exact ⟨x.2, (htexts x mem_cons_self).ne_nil, rfl⟩
    · rw [hflat]
      rfl

theorem is_text_string : IsText (.string [97]) [34, 97, 34] := by
  intro rest
  apply @ov_value_parse_eq 1
  rfl

theorem is_text_list : IsText (.list [.string [97]]) [91, 34, 97, 34, 93] := by
  intro rest
  apply @ov_value_parse_eq 4
  rfl

theorem is_text_null : IsText .null [110, 117, 108, 108] := by
  intro rest
  apply @ov_value_parse_eq 1
  rfl

theorem stream_safe_string : feed_all 2 [] [[34], [97], [34]] = some ([.string [97]], some []) := by
  have hsafe := (stream_safe_iff_steady [(.string [97], [34, 97, 34])]
    (forall_mem_singleton.mpr is_text_string) (forall_mem_singleton.mpr (by simp))).mpr
    (forall_mem_singleton.mpr trivial)
  exact hsafe.2 [[34], [97], [34]] 2 rfl (by simp) (by simp)

/-- A list is found before it is closed, and a word is an error before it is complete. -/
theorem list_not_prefix_safe :
    (IsText (.list [.string [97]]) [91, 34, 97, 34, 93] ∧ ¬ PrefixSafe [91, 34, 97, 34, 93] ∧
      ov_value_parse [91, 34, 97, 34] = some (.found (.list [.string [97]]) [])) ∧
      IsText .null [110, 117, 108, 108] ∧ ¬ PrefixSafe [110, 117, 108, 108] ∧
      ov_value_parse [110, 117, 108] = some .error := by
  have hlist : ov_value_parse [91, 34, 97, 34] = some (.found (.list [.string [97]]) []) := rfl
  have hnull : ov_value_parse [110, 117, 108] = some .error := rfl
  refine ⟨⟨is_text_list, ?_, hlist⟩, is_text_null, ?_, hnull⟩
  · intro hsafe
    have hpremature := hsafe [91, 34, 97, 34] [93] rfl (by simp) (by decide)
    rw [hlist] at hpremature
    simp at hpremature
  · intro hsafe
    have hpremature := hsafe [110, 117, 108] [108] rfl (by simp) (by decide)
    rw [hnull] at hpremature
    simp at hpremature

end openvocs.value
