import Openvocs.Ice.StreamOrder
import Openvocs.Lib.Firsts

open List

namespace openvocs.ice

open linked firsts

inductive PairState where
  | frozen
  | waiting
  | progress
  | success
  | failed
  deriving DecidableEq

/-- The part of `ov_ice_stream` that pruning reads and writes. The candidates are pointers, and
the fields of the pairs stand beside their nodes. -/
structure CheckList (ν κ : Type) where
  nodes : Nodes ν
  state : ν → PairState
  local_candidate : ν → κ
  remote_candidate : ν → κ
  selected : Option ν
  valid : List ν
  trigger : List ν

variable {ν κ : Type} [DecidableEq ν] [DecidableEq κ]

omit [DecidableEq κ] in
/-- `ov_ice_pair_free`, as far as the stream of the pair knows of it. -/
def pair_free (fuel : Nat) (s : CheckList ν κ) (pair : ν) : Option (CheckList ν κ) :=
  (node.remove_if_included fuel s.nodes pair).map fun nodes =>
    { s with
      nodes := nodes
      valid := s.valid.erase pair
      trigger := s.trigger.erase pair
      selected := if s.selected = some pair then none else s.selected }

namespace CheckList

variable (s : CheckList ν κ)

def pairs_are_redundant (pair check : ν) : Bool :=
  if pair = check then false
  else if s.local_candidate pair ≠ s.local_candidate check then false
  else if s.remote_candidate pair ≠ s.remote_candidate check then false
  else true

/-- The pairs that others are compared with. -/
def unchecked (pair : ν) : Bool :=
  if s.selected = some pair then false
  else
    match s.state pair with
    | .frozen | .waiting => true
    | _ => false

/-- What the inner loop asks of a pair behind the one that is compared with. -/
def dropped (pair drop : ν) : Bool :=
  if s.selected = some drop then false else s.pairs_are_redundant pair drop

end CheckList

/-- The inner loop of `ov_ice_stream_prune`. -/
def drop_loop (fuel : Nat) (pair : ν) : Nat → Option ν → CheckList ν κ → Option (CheckList ν κ)
  | _, none, s => some s
  | 0, some _, _ => none
  | rounds + 1, some drop, s =>
    let next := s.nodes.next drop
    if s.dropped pair drop then
      match pair_free fuel s drop with
      | none => none
      | some s => drop_loop fuel pair rounds next s
    else drop_loop fuel pair rounds next s

/-- The outer loop. -/
def prune_loop (fuel : Nat) : Nat → Option ν → CheckList ν κ → Option (CheckList ν κ)
  | _, none, s => some s
  | 0, some _, _ => none
  | rounds + 1, some pair, s =>
    if s.unchecked pair then
      match drop_loop fuel pair fuel (s.nodes.next pair) s with
      | none => none
      | some s => prune_loop fuel rounds (s.nodes.next pair) s
    else prune_loop fuel rounds (s.nodes.next pair) s

def stream_prune (fuel : Nat) (s : CheckList ν κ) : Option (CheckList ν κ) :=
  prune_loop fuel fuel s.nodes.head s

namespace CheckList

/-- One pair drops another one that is behind it. -/
def drops (s : CheckList ν κ) (pair drop : ν) : Bool := s.unchecked pair && s.dropped pair drop

/-- What pruning does not touch. -/
structure Same (s t : CheckList ν κ) : Prop where
  state : t.state = s.state
  local_candidate : t.local_candidate = s.local_candidate
  remote_candidate : t.remote_candidate = s.remote_candidate
  selected : t.selected = s.selected

variable {s t u : CheckList ν κ}

omit [DecidableEq ν] [DecidableEq κ] in
theorem Same.trans (h : Same s t) (h' : Same t u) : Same s u :=
  ⟨h'.state.trans h.state, h'.local_candidate.trans h.local_candidate,
    h'.remote_candidate.trans h.remote_candidate, h'.selected.trans h.selected⟩

theorem Same.dropped (h : Same s t) : t.dropped = s.dropped := by
  funext pair drop
  rw [CheckList.dropped, CheckList.dropped, pairs_are_redundant, pairs_are_redundant, h.selected,
    h.local_candidate, h.remote_candidate]

omit [DecidableEq κ] in
theorem Same.unchecked (h : Same s t) : t.unchecked = s.unchecked := by
  funext pair
  rw [CheckList.unchecked, CheckList.unchecked, h.selected, h.state]

theorem Same.drops (h : Same s t) : t.drops = s.drops := by
  funext pair drop
  rw [CheckList.drops, CheckList.drops, h.unchecked, h.dropped]

end CheckList

variable {s : CheckList ν κ} {fuel : Nat}

omit [DecidableEq κ] in
theorem pair_free_holds {us vs : List ν} {pair : ν} (h : Holds s.nodes (us ++ pair :: vs))
    (hfuel : (us ++ pair :: vs).length ≤ fuel) (hselected : s.selected ≠ some pair) :
    ∃ t, pair_free fuel s pair = some t ∧ s.Same t ∧ Holds t.nodes (us ++ vs) := by
  obtain ⟨nodes, hremove, hholds⟩ := node.remove_if_included_holds h hfuel
  rw [pair_free, hremove]
  exact ⟨_, rfl, ⟨rfl, rfl, rfl, if_neg hselected⟩, hholds⟩

theorem drop_loop_holds {us vs : List ν} (pair : ν) (h : Holds s.nodes (us ++ vs))
    (hfuel : (us ++ vs).length ≤ fuel) {rounds : Nat} (hrounds : vs.length ≤ rounds) :
    ∃ t, drop_loop fuel pair rounds vs.head? s = some t ∧ s.Same t ∧
      Holds t.nodes (us ++ vs.filter fun drop => !s.dropped pair drop) := by
  induction vs generalizing s us rounds with
  | nil => exact ⟨s, by rw [head?_nil, drop_loop], ⟨rfl, rfl, rfl, rfl⟩, h⟩
  | cons drop vs ih =>
    cases rounds with
    | zero => simp at hrounds
    | succ rounds =>
      have hvs : vs.length ≤ rounds := Nat.le_of_succ_le_succ hrounds
      obtain ⟨-, hnext⟩ := h.links_at
      rw [head?_cons, drop_loop, hnext]
      cases hdropped : s.dropped pair drop with
      | true =>
        have hselected : s.selected ≠ some drop := by
          intro hselected
          rw [CheckList.dropped, if_pos hselected] at hdropped
          cases hdropped
        obtain ⟨freed, hfree, hsame, hholds⟩ := pair_free_holds h hfuel hselected
        have hfuel' : (us ++ vs).length ≤ fuel := by
          simp only [length_append, length_cons] at hfuel ⊢
          omega
        obtain ⟨t, ht, hsame', hholds'⟩ := ih hholds hfuel' hvs
        refine ⟨t, ?_, hsame.trans hsame', ?_⟩
        · simp only [if_true, hfree, ht]
        rw [filter_cons_of_neg (by simp [hdropped]), ← hsame.dropped]
        exact hholds'
      | false =>
        have hsplit : us ++ drop :: vs = (us ++ [drop]) ++ vs := append_cons us drop vs
        rw [hsplit] at h hfuel
        obtain ⟨t, ht, hsame, hholds⟩ := ih h hfuel hvs
        refine ⟨t, ?_, hsame, ?_⟩
        · simp [ht]
        rw [filter_cons_of_pos (by simp [hdropped]), append_cons us drop]
        exact hholds

theorem prune_loop_holds {us vs : List ν} (h : Holds s.nodes (us ++ vs)) (hfuel : (us ++ vs).length ≤ fuel)
    {rounds : Nat} (hrounds : vs.length ≤ rounds) :
    ∃ t, prune_loop fuel rounds vs.head? s = some t ∧ s.Same t ∧ Holds t.nodes (us ++ kept s.drops vs) := by
  induction rounds generalizing s us vs with
  | zero =>
    obtain rfl := length_eq_zero_iff.mp (Nat.le_zero.mp hrounds)
    exact ⟨s, by rw [head?_nil, prune_loop], ⟨rfl, rfl, rfl, rfl⟩, by rw [kept_nil]; exact h⟩
  | succ rounds ih =>
    cases vs with
    | nil => exact ⟨s, by rw [head?_nil, prune_loop], ⟨rfl, rfl, rfl, rfl⟩, by rw [kept_nil]; exact h⟩
    | cons pair vs =>
      have hvs : vs.length ≤ rounds := Nat.le_of_succ_le_succ hrounds
      have hsplit : us ++ pair :: vs = (us ++ [pair]) ++ vs := append_cons us pair vs
      obtain ⟨-, hnext⟩ := h.links_at
      rw [hsplit] at h hfuel
      rw [head?_cons, prune_loop, hnext, kept_cons, append_cons us pair]
      cases hunchecked : s.unchecked pair with
      | true =>
        have hlength : vs.length ≤ fuel := by
          rw [length_append] at hfuel
          omega
        obtain ⟨rest, hdrop, hsame, hholds⟩ := drop_loop_holds pair h hfuel hlength
        have hspared : (vs.filter fun drop => !s.dropped pair drop) = spared s.drops pair vs := by
          simp [spared, CheckList.drops, hunchecked]
        rw [hspared] at hholds
        have hnext' : rest.nodes.next pair = (spared s.drops pair vs).head? := by
          rw [← append_cons us pair] at hholds
          exact hholds.links_at.2
        have hfuel' : ((us ++ [pair]) ++ spared s.drops pair vs).length ≤ fuel := by
          have hspared_le := length_spared_le s.drops pair vs
          rw [length_append] at hfuel ⊢
          omega
        obtain ⟨t, ht, hsame', hholds'⟩ := ih hholds hfuel' (Nat.le_trans (length_spared_le s.drops pair vs) hvs)
        rw [hsame.drops] at hholds'
        refine ⟨t, ?_, hsame.trans hsame', hholds'⟩
        rw [if_pos rfl, hdrop]
        simp only [hnext', ht]
      | false =>
        have hspared : spared s.drops pair vs = vs := by simp [spared, CheckList.drops, hunchecked]
        obtain ⟨t, ht, hsame, hholds⟩ := ih h hfuel hvs
        refine ⟨t, ?_, hsame, ?_⟩
        · rw [if_neg Bool.false_ne_true, ht]
        rw [hspared]
        exact hholds

theorem stream_prune_holds {xs : List ν} (h : Holds s.nodes xs) (hfuel : xs.length ≤ fuel) :
    ∃ t, stream_prune fuel s = some t ∧ s.Same t ∧ Holds t.nodes (kept s.drops xs) := by
  have hholds : Holds s.nodes ([] ++ xs) := h
  obtain ⟨t, ht, hsame, hkept⟩ := prune_loop_holds hholds hfuel hfuel
  refine ⟨t, ?_, hsame, hkept⟩
  rw [stream_prune, h.head]
  exact ht

namespace CheckList

/-- The same local and the same remote candidate. -/
def SameCandidates (s : CheckList ν κ) (p q : ν) : Prop :=
  s.local_candidate p = s.local_candidate q ∧ s.remote_candidate p = s.remote_candidate q

/-- Neither selected nor checked. -/
def Unchecked (s : CheckList ν κ) (p : ν) : Prop :=
  s.selected ≠ some p ∧ (s.state p = .frozen ∨ s.state p = .waiting)

/-- A pair that is in use: it is selected, is checked, or was checked with success. -/
def InUse (s : CheckList ν κ) (p : ν) : Prop :=
  s.selected = some p ∨ s.state p = .progress ∨ s.state p = .success

/-- What pruning is to keep of the pairs `xs`. -/
structure Pruned (s : CheckList ν κ) (xs ys : List ν) : Prop where
  order : ys.Sublist xs
  single : ys.Pairwise fun p q => s.Unchecked p → s.Unchecked q → ¬ s.SameCandidates p q
  first : ∀ us p vs, xs = us ++ p :: vs → (∀ u ∈ us, ¬ s.SameCandidates u p) → p ∈ ys
  in_use : ∀ p ∈ xs, s.InUse p → p ∈ ys

variable {s : CheckList ν κ}

omit [DecidableEq κ] in
theorem unchecked_iff {p : ν} : s.unchecked p = true ↔ s.Unchecked p := by
  rw [unchecked, Unchecked]
  by_cases hselected : s.selected = some p
  · rw [if_pos hselected]
    exact iff_of_false Bool.false_ne_true fun h => h.1 hselected
  rw [if_neg hselected]
  cases s.state p <;> simp [hselected]

theorem drops_iff {p q : ν} (hne : p ≠ q) :
    s.drops p q = true ↔ s.Unchecked p ∧ s.selected ≠ some q ∧ s.SameCandidates p q := by
  rw [drops, Bool.and_eq_true, unchecked_iff, dropped, pairs_are_redundant, if_neg hne, SameCandidates]
  by_cases hselected : s.selected = some q
  · simp [hselected]
  · simp [hselected]

theorem ne_of_drops {p q : ν} (h : s.drops p q = true) : p ≠ q := by
  rintro rfl
  rw [drops, Bool.and_eq_true, dropped, pairs_are_redundant, if_pos rfl] at h
  split at h <;> cases h.2

theorem drops_trans (p q r : ν) (hne : p ≠ r) (hpq : s.drops p q = true) (hqr : s.drops q r = true) :
    s.drops p r = true := by
  obtain ⟨hunchecked, -, hlocal, hremote⟩ := (drops_iff (ne_of_drops hpq)).mp hpq
  obtain ⟨-, hselected, hlocal', hremote'⟩ := (drops_iff (ne_of_drops hqr)).mp hqr
  exact (drops_iff hne).mpr ⟨hunchecked, hselected, hlocal.trans hlocal', hremote.trans hremote'⟩

theorem mem_kept_drops_iff {us vs : List ν} {p : ν} (hnodup : (us ++ p :: vs).Nodup) :
    p ∈ kept s.drops (us ++ p :: vs) ↔
      ∀ u ∈ us, ¬ (s.Unchecked u ∧ s.selected ≠ some p ∧ s.SameCandidates u p) := by
  rw [mem_kept_iff drops_trans hnodup]
  have hne : ∀ u ∈ us, u ≠ p := fun u hu => (nodup_append.mp hnodup).2.2 u hu p mem_cons_self
  constructor
  · intro hall u hu hdrops
    have hfalse := hall u hu
    rw [(drops_iff (hne u hu)).mpr hdrops] at hfalse
    cases hfalse
  intro hall u hu
  rw [← Bool.not_eq_true, drops_iff (hne u hu)]
  exact hall u hu

end CheckList

/-- Pruning keeps the order, one unchecked pair and the first pair of all with the same candidates.
It keeps the pairs in use exactly when no pair that is not selected, but in progress or successful,
stands behind an unchecked pair with the same candidates. -/
theorem stream_pruned_iff {xs : List ν} (h : Holds s.nodes xs) (hfuel : xs.length ≤ fuel) :
    ∃ t ys, stream_prune fuel s = some t ∧ s.Same t ∧ Holds t.nodes ys ∧
      (s.Pruned xs ys ↔ ∀ us p vs, xs = us ++ p :: vs → s.selected ≠ some p →
        (s.state p = .progress ∨ s.state p = .success) → ∀ u ∈ us, s.Unchecked u → ¬ s.SameCandidates u p) := by
  obtain ⟨t, ht, hsame, hholds⟩ := stream_prune_holds h hfuel
  refine ⟨t, kept s.drops xs, ht, hsame, hholds, ?_, ?_⟩
  · rintro hpruned us p vs rfl hselected hstate u hu hunchecked hcandidates
    have hmem := hpruned.in_use p (mem_append_right _ mem_cons_self) (.inr hstate)
    exact (CheckList.mem_kept_drops_iff h.nodup).mp hmem u hu ⟨hunchecked, hselected, hcandidates⟩
  intro hbehind
  constructor
  · exact kept_sublist s.drops xs
  · have hnodup := h.nodup.sublist (kept_sublist s.drops xs)
    refine ((pairwise_kept s.drops xs).and hnodup).imp ?_
    rintro p q ⟨hdrops, hne⟩ hp hq hcandidates
    rw [(CheckList.drops_iff hne).mpr ⟨hp, hq.1, hcandidates⟩] at hdrops
    cases hdrops
  · rintro us p vs rfl hfirst
    exact (CheckList.mem_kept_drops_iff h.nodup).mpr fun u hu hdrops => hfirst u hu hdrops.2.2
  · intro p hp huse
    obtain ⟨us, vs, rfl⟩ := append_of_mem hp
    refine (CheckList.mem_kept_drops_iff h.nodup).mpr fun u hu hdrops => ?_
    rcases huse with hselected | hstate
    · exact hdrops.2.1 hselected
    · exact hbehind us p vs rfl hdrops.2.1 hstate u hu hdrops.1 hdrops.2.2

/-- Two pairs with the same candidates, the first one waiting. -/
def duplicates (second : PairState) : CheckList Bool Unit where
  nodes := two_pairs.nodes
  state := fun pair => if pair then second else .waiting
  local_candidate := fun _ => ()
  remote_candidate := fun _ => ()
  selected := none
  valid := []
  trigger := []

theorem waiting_duplicate_pruned : ∃ t ys, stream_prune 2 (duplicates .waiting) = some t ∧ Holds t.nodes ys ∧
    (duplicates .waiting).Pruned [false, true] ys := by
  obtain ⟨t, ys, ht, -, hholds, hpruned⟩ :=
    @stream_pruned_iff Bool Unit _ _ (duplicates .waiting) 2 [false, true] two_pairs_holds (Nat.le_refl 2)
  refine ⟨t, ys, ht, hholds, hpruned.mpr ?_⟩
  rintro us p vs - - hstate
  cases p <;> rcases hstate with hstate | hstate <;> cases hstate

/-- A pair that was checked with success is dropped for one that still waits. -/
theorem successful_duplicate_dropped : ∃ t, stream_prune 2 (duplicates .success) = some t ∧
    Holds t.nodes [false] ∧ ¬ (duplicates .success).Pruned [false, true] [false] := by
  refine ⟨_, rfl, ⟨by decide, rfl, rfl, rfl, trivial⟩, fun hpruned => ?_⟩
  have hmem := hpruned.in_use true (by decide) (.inr (.inr rfl))
  revert hmem
  decide

end openvocs.ice
