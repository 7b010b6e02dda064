import Mathlib.Data.List.Nodup

open List Option

namespace assoc

variable {κ α β σ : Type} [DecidableEq κ]

/-- The entries of the dictionary, without the shadowed ones. -/
def entries : List (κ × α) → List (κ × α)
  | [] => []
  | entry :: rest => entry :: (entries rest).filter (fun other => decide (other.1 ≠ entry.1))

/-- Replaces the value of a key in place, or inserts a new key behind the last
    key of a smaller or equal rank. -/
def put (rank : κ → Nat) (key : κ) (value : α) : List (κ × α) → List (κ × α)
  | [] => [(key, value)]
  | (other, old) :: rest =>
    if other = key then (key, value) :: rest
    else if rank key < rank other then (key, value) :: (other, old) :: rest
    else (other, old) :: put rank key value rest

/-- Removes a key. -/
def erase (key : κ) (d : List (κ × α)) : List (κ × α) :=
  d.filter (fun entry => decide (entry.1 ≠ key))

theorem lookup_cons_eq (key : κ) (entry : κ × α) (rest : List (κ × α)) :
    (entry :: rest).lookup key = if key = entry.1 then some entry.2 else rest.lookup key := by
  obtain ⟨k, v⟩ := entry
  by_cases hk : key = k
  · simp [hk]
  have hbeq : (key == k) = false := by simpa using hk
  simp [lookup_cons, hbeq, hk]

theorem lookup_put (rank : κ → Nat) (key : κ) (value : α) (d : List (κ × α)) (other : κ) :
    (put rank key value d).lookup other = if other = key then some value else d.lookup other := by
  induction d with
  | nil => simp [put, lookup_cons_eq]
  | cons entry rest ih =>
    obtain ⟨k, v⟩ := entry
    by_cases hk : k = key
    · subst hk
      by_cases ho : other = k <;> simp [put, lookup_cons_eq, ho]
    by_cases hrank : rank key < rank k
    · by_cases ho : other = key <;> simp [put, hk, hrank, lookup_cons_eq, ho]
    simp only [put, if_neg hk, if_neg hrank, lookup_cons_eq, ih]
    by_cases ho : other = k <;> simp [ho, hk]

theorem lookup_erase (key : κ) (d : List (κ × α)) (other : κ) :
    (erase key d).lookup other = if other = key then none else d.lookup other := by
  induction d with
  | nil => simp [erase]
  | cons entry rest ih =>
    obtain ⟨k, v⟩ := entry
    unfold erase at ih ⊢
    by_cases hk : k = key
    · subst hk
      rw [filter_cons_of_neg (by simp), ih]
      by_cases ho : other = k <;> simp [lookup_cons_eq, ho]
    rw [filter_cons_of_pos (by simpa using hk)]
    simp only [lookup_cons_eq, ih]
    by_cases ho : other = k <;> simp [ho, hk]

theorem lookup_foldl_erase (keys : List κ) (d : List (κ × α)) (other : κ) :
    (keys.foldl (fun d key => erase key d) d).lookup other = if other ∈ keys then none else d.lookup other := by
  induction keys generalizing d with
  | nil => simp
  | cons key keys ih =>
    rw [foldl_cons, ih, lookup_erase]
    by_cases hkey : other = key <;> by_cases hkeys : other ∈ keys <;> simp [hkey, hkeys]

theorem lookup_erase_append (key : κ) (value : α) (d : List (κ × α)) (other : κ) :
    (erase key d ++ [(key, value)]).lookup other = if other = key then some value else d.lookup other := by
  rw [lookup_append, lookup_erase]
  by_cases ho : other = key
  · simp [ho]
  · simp [ho, lookup_cons_eq]

theorem lookup_map_value (f : α → β) (d : List (κ × α)) (key : κ) :
    (d.map (fun entry => (entry.1, f entry.2))).lookup key = (d.lookup key).map f := by
  induction d with
  | nil => rfl
  | cons entry rest ih =>
    simp only [map_cons, lookup_cons_eq, ih]
    by_cases hk : key = entry.1 <;> simp [hk]

theorem mem_entries_iff (d : List (κ × α)) (key : κ) (value : α) :
    (key, value) ∈ entries d ↔ d.lookup key = some value := by
  induction d with
  | nil => simp [entries]
  | cons entry rest ih =>
    obtain ⟨k, v⟩ := entry
    simp only [entries, mem_cons, Prod.mk.injEq, mem_filter, ih, decide_eq_true_eq, lookup_cons_eq]
    by_cases hk : key = k
    · subst hk
      simp [eq_comm]
    · simp [hk]

theorem entries_map_value (f : α → β) (d : List (κ × α)) :
    entries (d.map (fun entry => (entry.1, f entry.2))) =
      (entries d).map (fun entry => (entry.1, f entry.2)) := by
  induction d with
  | nil => rfl
  | cons entry rest ih => simp [entries, ih, List.filter_map, Function.comp_def]

theorem entries_keys_nodup (d : List (κ × α)) : ((entries d).map Prod.fst).Nodup := by
  induction d with
  | nil => simp [entries]
  | cons entry rest ih =>
    simp only [entries, map_cons, nodup_cons]
    constructor
    · simp
    · exact ih.sublist (List.Sublist.map _ filter_sublist)

theorem mem_keys_iff (d : List (κ × α)) (key : κ) :
    key ∈ (entries d).map Prod.fst ↔ (d.lookup key).isSome := by
  simp only [List.mem_map, isSome_iff_exists]
  constructor
  · rintro ⟨⟨k, v⟩, hmem, rfl⟩
    exact ⟨v, (mem_entries_iff d k v).mp hmem⟩
  rintro ⟨v, hlookup⟩
  exact ⟨(key, v), (mem_entries_iff d key v).mpr hlookup, rfl⟩

/-- Walks a list with a callback that may stop the walk by returning `false`.
    The outer `Option` is `none` when a callback has no defined result. -/
def walk (f : κ → α → σ → Option (Bool × σ)) : List (κ × α) → σ → Option (Bool × σ)
  | [], s => some (true, s)
  | (key, value) :: rest, s =>
    match f key value s with
    | none => none
    | some (false, s') => some (false, s')
    | some (true, s') => walk f rest s'

/-- Changes the values in place until a callback returns `false`. -/
def map_while (f : α → Bool × α) : List (κ × α) → Bool × List (κ × α)
  | [] => (true, [])
  | (key, value) :: rest =>
    match f value with
    | (false, value) => (false, (key, value) :: rest)
    | (true, value) =>
      let (ok, rest) := map_while f rest
      (ok, (key, value) :: rest)

/-- The entries behind the one at which a walk in place stops. -/
def behind_stop (ok : α → Bool) (d : List (κ × α)) : List (κ × α) :=
  (d.dropWhile (fun entry => ok entry.2)).tail

variable {d : List (κ × α)}

theorem mem_iff_lookup_of_nodup (hnodup : (d.map Prod.fst).Nodup) (key : κ)
    (value : α) : (key, value) ∈ d ↔ d.lookup key = some value := by
  induction d with
  | nil => simp
  | cons entry rest ih =>
    obtain ⟨k, v⟩ := entry
    simp only [map_cons, nodup_cons] at hnodup
    simp only [mem_cons, Prod.mk.injEq, lookup_cons_eq, ih hnodup.2]
    by_cases hk : key = k
    · subst hk
      have hnot : rest.lookup key ≠ some value := by
        intro hfound
        exact hnodup.1 (List.mem_map_of_mem ((ih hnodup.2).mpr hfound))
      simp [hnot, eq_comm]
    · simp [hk]

theorem lookup_foldl_put (rank : κ → Nat) (f : α → α) {l : List (κ × α)} (hnodup : (l.map Prod.fst).Nodup)
    (d : List (κ × α)) (other : κ) :
    (l.foldl (fun d entry => put rank entry.1 (f entry.2) d) d).lookup other =
      match l.lookup other with
      | some value => some (f value)
      | none => d.lookup other := by
  induction l generalizing d with
  | nil => rfl
  | cons entry rest ih =>
    obtain ⟨key, value⟩ := entry
    rw [map_cons, nodup_cons] at hnodup
    rw [foldl_cons, ih hnodup.2, lookup_cons_eq, lookup_put]
    by_cases hkey : other = key
    · have hrest : rest.lookup other = none := by
        cases hlookup : rest.lookup other with
        | none => rfl
        | some found =>
          have hmem := (mem_iff_lookup_of_nodup hnodup.2 other found).mpr hlookup
          exact absurd (List.mem_map_of_mem (f := Prod.fst) hmem) (hkey ▸ hnodup.1)
      rw [hrest, if_pos hkey, if_pos hkey]
    · rw [if_neg hkey, if_neg hkey]

theorem lookup_entries (d : List (κ × α)) (key : κ) : (entries d).lookup key = d.lookup key := by
  apply Option.ext
  intro value
  rw [← mem_entries_iff d, ← mem_iff_lookup_of_nodup (entries_keys_nodup d)]

omit [DecidableEq κ] in
theorem map_while_keys (f : α → Bool × α) (d : List (κ × α)) :
    (map_while f d).2.map Prod.fst = d.map Prod.fst := by
  induction d with
  | nil => rfl
  | cons entry rest ih =>
    obtain ⟨key, value⟩ := entry
    simp only [map_while]
    rcases f value with ⟨_ | _, value'⟩ <;> simp [ih]

omit [DecidableEq κ] in
theorem map_while_ok (f : α → Bool × α) (d : List (κ × α)) :
    (map_while f d).1 = d.all (fun entry => (f entry.2).1) := by
  induction d with
  | nil => rfl
  | cons entry rest ih =>
    obtain ⟨key, value⟩ := entry
    simp only [map_while, all_cons]
    rcases f value with ⟨_ | _, value'⟩ <;> simp [ih]

omit [DecidableEq κ] in
theorem forall_map_while {f : α → Bool × α} {P Q : α → Prop} (hchanged : ∀ value, P (f value).2 ↔ Q value)
    (hold : ∀ value, P value → Q value) (d : List (κ × α)) :
    (∀ entry ∈ (map_while f d).2, P entry.2) ↔
      (∀ entry ∈ d, Q entry.2) ∧ ∀ entry ∈ behind_stop (fun value => (f value).1) d, P entry.2 := by
  induction d with
  | nil => simp [map_while, behind_stop]
  | cons entry rest ih =>
    obtain ⟨key, value⟩ := entry
    have hvalue := hchanged value
    simp only [map_while, behind_stop]
    rcases hf : f value with ⟨_ | _, value'⟩
    · simp only [hf] at hvalue
      simp only [forall_mem_cons, hvalue, dropWhile_cons, hf, Bool.false_eq_true, if_false, tail_cons]
      constructor
      · rintro ⟨hq, hrest⟩
        exact ⟨⟨hq, fun entry hmem => hold _ (hrest entry hmem)⟩, hrest⟩
      rintro ⟨⟨hq, _⟩, hrest⟩
      exact ⟨hq, hrest⟩
    simp only [hf] at hvalue
    simp only [forall_mem_cons, hvalue, ih, dropWhile_cons, hf, if_true, behind_stop, and_assoc]

omit [DecidableEq κ] in
theorem walk_eq_foldl {f : κ → α → σ → Option (Bool × σ)} {g : σ → κ × α → σ}
    (hf : ∀ key value s, f key value s = some (true, g s (key, value)))
    (d : List (κ × α)) (s : σ) : walk f d s = some (true, d.foldl g s) := by
  induction d generalizing s with
  | nil => rfl
  | cons entry rest ih => simp [walk, hf, ih]

omit [DecidableEq κ] in
theorem walk_invariant {f : κ → α → σ → Option (Bool × σ)} (P : σ → Prop) (d : List (κ × α))
    (hf : ∀ key value, (key, value) ∈ d → ∀ s ok s', P s → f key value s = some (ok, s') → P s')
    {s s' : σ} {ok : Bool} (hs : P s) (h : walk f d s = some (ok, s')) : P s' := by
  induction d generalizing s with
  | nil =>
    simp only [walk, some.injEq, Prod.mk.injEq] at h
    exact h.2 ▸ hs
  | cons entry rest ih =>
    obtain ⟨key, value⟩ := entry
    have hrest := fun k v hmem => hf k v (mem_cons_of_mem _ hmem)
    simp only [walk] at h
    cases hstep : f key value s with
    | none => simp [hstep] at h
    | some result =>
      obtain ⟨done, next⟩ := result
      have hnext := hf key value mem_cons_self s done next hs hstep
      cases done with
      | false =>
        simp only [hstep, some.injEq, Prod.mk.injEq] at h
        exact h.2 ▸ hnext
      | true =>
        simp only [hstep] at h
        exact ih hrest hnext h

/-- The entries that a walk visits: it stops behind the first one that is refused. -/
def visited (ok : κ × α → Bool) : List (κ × α) → List (κ × α)
  | [] => []
  | entry :: rest => entry :: if ok entry then visited ok rest else []

omit [DecidableEq κ] in
theorem walk_eq_foldl_visited (f : κ → α → σ → Option (Bool × σ)) (ok : κ × α → Bool) (g : σ → κ × α → σ) (hf : ∀ entry ∈ d, ∀ s, f entry.1 entry.2 s = some (ok entry, g s entry)) (s : σ) :
    walk f d s = some (d.all ok, (visited ok d).foldl g s) := by
  induction d generalizing s with
  | nil => rfl
  | cons entry rest ih =>
    have hrest := ih (fun other hmem => hf other (mem_cons_of_mem _ hmem))
    rw [walk, hf entry mem_cons_self s]
    cases hok : ok entry with
    | false => simp [visited, hok]
    | true => simp [visited, hok, hrest]

omit [DecidableEq κ] in
theorem visited_eq_self (ok : κ × α → Bool) (h : ∀ entry ∈ d, ok entry = true) :
    visited ok d = d := by
  induction d with
  | nil => rfl
  | cons entry rest ih =>
    rw [visited, h entry mem_cons_self, if_pos rfl, ih (fun other hmem => h other (mem_cons_of_mem _ hmem))]

omit [DecidableEq κ] in
theorem mem_of_mem_visited {ok : κ × α → Bool} {entry : κ × α} (h : entry ∈ visited ok d) :
    entry ∈ d := by
  induction d with
  | nil => exact h
  | cons head rest ih =>
    rw [visited, mem_cons] at h
    obtain rfl | h := h
    · exact mem_cons_self
    cases hok : ok head with
    | false => simp [hok] at h
    | true => exact mem_cons_of_mem _ (ih (by simpa [hok] using h))

omit [DecidableEq κ] in
theorem mem_takeWhile_iff_visited {ok : κ × α → Bool} {entry : κ × α} :
    entry ∈ d.takeWhile ok ↔ entry ∈ visited ok d ∧ ok entry = true := by
  induction d with
  | nil => simp [visited]
  | cons head rest ih =>
    cases hok : ok head with
    | false =>
      simp only [takeWhile_cons_of_neg (p := ok) (by simp [hok] : ¬ ok head = true), visited, hok]
      constructor
      · exact fun h => absurd h not_mem_nil
      rintro ⟨hmem, htrue⟩
      obtain rfl : entry = head := by simpa using hmem
      rw [hok] at htrue
      cases htrue
    | true =>
      rw [takeWhile_cons_of_pos hok, visited, if_pos hok, mem_cons, mem_cons, ih]
      constructor
      · rintro (rfl | ⟨hmem, htrue⟩)
        · exact ⟨.inl rfl, hok⟩
        · exact ⟨.inr hmem, htrue⟩
      rintro ⟨rfl | hmem, htrue⟩
      · exact .inl rfl
      · exact .inr ⟨hmem, htrue⟩

end assoc
