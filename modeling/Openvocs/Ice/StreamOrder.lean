import Mathlib.Algebra.Group.Nat.Defs
import Mathlib.Data.List.Sort
import Openvocs.Ice.Node

open List Option

namespace openvocs.ice

open linked

/-- The part of `ov_ice_candidate` that a pair's priority is made from. -/
structure Candidate where
  priority : BitVec 32
deriving DecidableEq

/-- The part of `ov_ice_pair` that is read and written here. -/
structure Pair where
  local_candidate : Candidate
  remote_candidate : Candidate
  priority : BitVec 64
deriving DecidableEq

/-- The candidate priority of the controlling agent. -/
def Pair.controlling_priority (controlling : Bool) (pair : Pair) : BitVec 32 :=
  if controlling then pair.local_candidate.priority else pair.remote_candidate.priority

/-- The candidate priority of the controlled agent. -/
def Pair.controlled_priority (controlling : Bool) (pair : Pair) : BitVec 32 :=
  if controlling then pair.remote_candidate.priority else pair.local_candidate.priority

/-- `ov_ice_pair_calculate_priority`. The product with `min` has 64 bits, the one with `max`
has the 32 bits of its operands. -/
def pair_calculate_priority (controlling : Bool) (pair : Pair) : Pair :=
  let g := pair.controlling_priority controlling
  let d := pair.controlled_priority controlling
  let add := if d < g then 1#32 else 0#32
  let max := if d < g then g else d
  let min := if d < g then d else g
  { pair with
    priority := 0x100000000#64 * min.setWidth 64 + (2#32 * max).setWidth 64 + add.setWidth 64 }

/-- The priority of a pair, from the priorities of the controlling and of the controlled
agent's candidate. -/
def pair_priority (g d : Nat) : Nat := 2 ^ 32 * min g d + 2 * max g d + if d < g then 1 else 0

/-- The same two candidates as the other agent has them. -/
def Pair.swap (pair : Pair) : Pair :=
  { pair with
    local_candidate := pair.remote_candidate
    remote_candidate := pair.local_candidate }

theorem pair_calculate_priority_toNat (controlling : Bool) (pair : Pair) :
    (pair_calculate_priority controlling pair).priority.toNat =
      2 ^ 32 * min (pair.controlling_priority controlling).toNat
          (pair.controlled_priority controlling).toNat +
        2 * max (pair.controlling_priority controlling).toNat
          (pair.controlled_priority controlling).toNat % 2 ^ 32 +
        if (pair.controlled_priority controlling).toNat <
          (pair.controlling_priority controlling).toNat then 1 else 0 := by
  have hg := (pair.controlling_priority controlling).isLt
  have hd := (pair.controlled_priority controlling).isLt
  simp only [pair_calculate_priority, BitVec.lt_def]
  generalize pair.controlling_priority controlling = g at *
  generalize pair.controlled_priority controlling = d at *
  by_cases hlt : d.toNat < g.toNat
  · have hmin : min g.toNat d.toNat = d.toNat := by omega
    have hmax : max g.toNat d.toNat = g.toNat := by omega
    simp only [hlt, if_true, hmin, hmax, BitVec.toNat_add, BitVec.toNat_mul, BitVec.toNat_setWidth, BitVec.toNat_ofNat]
    omega
  have hmin : min g.toNat d.toNat = g.toNat := by omega
  have hmax : max g.toNat d.toNat = d.toNat := by omega
  simp only [hlt, if_false, hmin, hmax, BitVec.toNat_add, BitVec.toNat_mul, BitVec.toNat_setWidth, BitVec.toNat_ofNat]
  omega

theorem pair_calculate_priority_eq_iff (controlling : Bool) (pair : Pair) :
    (pair_calculate_priority controlling pair).priority.toNat =
        pair_priority (pair.controlling_priority controlling).toNat
          (pair.controlled_priority controlling).toNat ↔
      pair.local_candidate.priority.toNat < 2 ^ 31 ∧
        pair.remote_candidate.priority.toNat < 2 ^ 31 := by
  rw [pair_calculate_priority_toNat, pair_priority]
  cases controlling
  all_goals
    simp only [Pair.controlling_priority, Pair.controlled_priority, if_true, if_false, Bool.false_eq_true]
    omega

theorem pair_calculate_priority_swap (controlling : Bool) (pair : Pair) :
    (pair_calculate_priority (!controlling) pair.swap).priority =
      (pair_calculate_priority controlling pair).priority := by
  cases controlling <;> rfl

/-- The part of `ov_ice_stream` that holds the pairs. The head of the list is `stream->pairs`. -/
structure PairList (ν : Type) where
  nodes : Nodes ν
  pair : ν → Pair

variable {ν : Type} [DecidableEq ν]

/-- The inner loop of `ov_ice_stream_order`: where the pair is put, `none` inside when it stays.
Behind the last node there is nothing to read. -/
def order_walk (s : PairList ν) (pair : ν) : Nat → Option ν → Option (Option ν)
  | _, none => none
  | 0, some _ => none
  | fuel + 1, some walk =>
    if walk = pair then some none
    else if (s.pair walk).priority > (s.pair pair).priority then
      order_walk s pair fuel (s.nodes.next walk)
    else some (some walk)

/-- The outer loop of `ov_ice_stream_order`. -/
def order_loop (fuel : Nat) : Nat → Option ν → PairList ν → Option (Bool × PairList ν)
  | _, none, s => some (true, s)
  | 0, some _, _ => none
  | rounds + 1, some pair, s =>
    let next := s.nodes.next pair
    match order_walk s pair fuel s.nodes.head with
    | none => none
    | some none => order_loop fuel rounds next s
    | some (some walk) =>
      match node.insert_before fuel s.nodes pair walk with
      | none => none
      | some (false, nodes) => some (false, { s with nodes := nodes })
      | some (true, nodes) => order_loop fuel rounds next { s with nodes := nodes }

def stream_order (fuel : Nat) (s : PairList ν) : Option (Bool × PairList ν) :=
  order_loop fuel fuel s.nodes.head s

/-- The relation that the list is ordered by. -/
def PairList.before (s : PairList ν) (a b : ν) : Prop := (s.pair b).priority ≤ (s.pair a).priority

instance (s : PairList ν) : DecidableRel s.before :=
  fun a b => inferInstanceAs (Decidable ((s.pair b).priority ≤ (s.pair a).priority))

instance (s : PairList ν) : Std.Total s.before :=
  ⟨fun a b => by simp only [PairList.before, BitVec.le_def]; omega⟩

instance (s : PairList ν) : IsTrans ν s.before :=
  ⟨fun a b c hab hbc => by simp only [PairList.before, BitVec.le_def] at *; omega⟩

variable {s : PairList ν} {fuel : Nat} {pair : ν}

theorem order_walk_eq {before : Option ν} {xs ys : List ν}
    (h : Segment s.nodes before (xs ++ pair :: ys) none) (hpair : pair ∉ xs)
    (hfuel : xs.length < fuel) :
    order_walk s pair fuel (xs ++ pair :: ys).head? =
      some (xs.dropWhile fun x => ¬ s.before pair x).head? := by
  induction xs generalizing before fuel with
  | nil =>
    obtain ⟨fuel, rfl⟩ := Nat.exists_eq_add_of_lt hfuel
    simp [order_walk]
  | cons x xs ih =>
    cases fuel with
    | zero => simp at hfuel
    | succ fuel =>
      rw [List.cons_append] at h ⊢
      obtain ⟨-, hnext, hrest⟩ := h
      obtain ⟨hne, hnot⟩ := not_or.mp (fun hor => hpair (mem_cons.mpr hor))
      rw [head?_cons, order_walk, if_neg (Ne.symm hne)]
      by_cases hgt : (s.pair x).priority > (s.pair pair).priority
      · have hbefore : ¬ s.before pair x := by
          simpa [PairList.before] using hgt
        rw [if_pos hgt, hnext, or_none, dropWhile_cons_of_pos (by simpa using hbefore)]
        exact ih hrest hnot (by simpa using hfuel)
      have hbefore : s.before pair x := by simpa [PairList.before] using hgt
      rw [if_neg hgt, dropWhile_cons_of_neg (by simpa using hbefore)]
      rfl

theorem order_loop_cons {xs ys : List ν} (h : Holds s.nodes (xs ++ pair :: ys))
    (hfuel : (xs ++ pair :: ys).length ≤ fuel) (rounds : Nat) :
    ∃ nodes, Holds nodes (xs.orderedInsert s.before pair ++ ys) ∧
      order_loop fuel (rounds + 1) (some pair) s =
        order_loop fuel rounds ys.head? { s with nodes := nodes } := by
  obtain ⟨-, hnext⟩ := h.links_at
  have hpair : pair ∉ xs := by
    intro hmem
    exact (nodup_append.mp h.nodup).2.2 pair hmem pair (by simp) rfl
  have hwalk : order_walk s pair fuel s.nodes.head =
      some (xs.dropWhile fun x => ¬ s.before pair x).head? := by
    rw [h.head]
    apply order_walk_eq h.links hpair
    simp only [length_append, length_cons] at hfuel
    omega
  rw [order_loop, hwalk, hnext, orderedInsert_eq_take_drop]
  have hxs := takeWhile_append_dropWhile (p := fun x => decide ¬ s.before pair x) (l := xs)
  cases hdrop : xs.dropWhile fun x => decide ¬ s.before pair x with
  | nil =>
    refine ⟨s.nodes, ?_, rfl⟩
    rw [hdrop, List.append_nil] at hxs
    rw [hxs]
    simpa using h
  | cons x vs =>
    rw [hdrop] at hxs
    have hsplit : xs ++ ys = xs.takeWhile (fun x => decide ¬ s.before pair x) ++ x :: (vs ++ ys) := by
      conv_lhs => rw [← hxs]
      simp
    obtain ⟨nodes, hinsert, hnodes⟩ := node.insert_before_holds h hsplit hfuel
    refine ⟨nodes, ?_, ?_⟩
    · simpa using hnodes
    · simp [hinsert]

theorem order_loop_holds {xs ys : List ν} (h : Holds s.nodes (xs ++ ys))
    (hfuel : (xs ++ ys).length ≤ fuel) {rounds : Nat} (hrounds : ys.length ≤ rounds) :
    ∃ t, order_loop fuel rounds ys.head? s = some (true, t) ∧ t.pair = s.pair ∧
      Holds t.nodes (ys.foldl (fun sorted pair => sorted.orderedInsert s.before pair) xs) := by
  induction ys generalizing s xs rounds with
  | nil => exact ⟨s, by simp [order_loop], rfl, by simpa using h⟩
  | cons pair ys ih =>
    cases rounds with
    | zero => simp at hrounds
    | succ rounds =>
      obtain ⟨nodes, hnodes, hloop⟩ := order_loop_cons h hfuel rounds
      have hlength : (xs.orderedInsert s.before pair ++ ys).length ≤ fuel := by
        simp only [length_append, orderedInsert_length, length_cons] at hfuel ⊢
        omega
      obtain ⟨t, ht, hpair, hholds⟩ := ih (s := { s with nodes := nodes }) hnodes hlength
        (by simpa using hrounds)
      exact ⟨t, hloop.trans ht, hpair, hholds⟩

theorem stream_order_holds {xs : List ν} (h : Holds s.nodes xs) (hfuel : xs.length ≤ fuel) :
    ∃ t, stream_order fuel s = some (true, t) ∧ t.pair = s.pair ∧
      Holds t.nodes (xs.reverse.insertionSort s.before) := by
  have hholds : Holds s.nodes ([] ++ xs) := h
  obtain ⟨t, ht, hpair, hsorted⟩ := order_loop_holds hholds hfuel hfuel
  refine ⟨t, ?_, hpair, ?_⟩
  · rw [stream_order, h.head]
    exact ht
  · simpa [List.insertionSort, foldr_reverse] using hsorted

/-- The priorities are the ones of the formula exactly when both candidate priorities leave the
top bit free; agents in opposite roles agree in any case, and the pairs are always ordered. -/
theorem pair_priority_and_order (controlling : Bool) (pair : Pair) {xs : List ν}
    (h : Holds s.nodes xs) (hfuel : xs.length ≤ fuel) :
    ((pair_calculate_priority controlling pair).priority.toNat =
          pair_priority (pair.controlling_priority controlling).toNat
            (pair.controlled_priority controlling).toNat ↔
        pair.local_candidate.priority.toNat < 2 ^ 31 ∧
          pair.remote_candidate.priority.toNat < 2 ^ 31) ∧
      (pair_calculate_priority (!controlling) pair.swap).priority =
        (pair_calculate_priority controlling pair).priority ∧
      ∃ t ys, stream_order fuel s = some (true, t) ∧ t.pair = s.pair ∧ Holds t.nodes ys ∧
        ys.Perm xs ∧ ys.Pairwise fun a b => (t.pair b).priority ≤ (t.pair a).priority := by
  refine ⟨pair_calculate_priority_eq_iff controlling pair,
    pair_calculate_priority_swap controlling pair, ?_⟩
  obtain ⟨t, ht, hpair, hholds⟩ := stream_order_holds h hfuel
  refine ⟨t, xs.reverse.insertionSort s.before, ht, hpair, hholds, ?_, ?_⟩
  · exact (perm_insertionSort _ _).trans (reverse_perm xs)
  · rw [hpair]
    exact pairwise_insertionSort s.before xs.reverse

def two_pairs : PairList Bool where
  nodes :=
    { head := some false
      next := fun x => if x then none else some true
      prev := fun x => if x then some false else none }
  pair := fun x => ⟨⟨1⟩, ⟨1⟩, if x then 7 else 5⟩

theorem two_pairs_holds : Holds two_pairs.nodes [false, true] :=
  ⟨by decide, rfl, rfl, rfl, rfl, rfl, trivial⟩

theorem two_pairs_ordered : (pair_calculate_priority true ⟨⟨5⟩, ⟨3⟩, 0⟩).priority.toNat = pair_priority 5 3 ∧
      ∃ t ys, stream_order 2 two_pairs = some (true, t) ∧ Holds t.nodes ys ∧
        ys.Perm [false, true] ∧
        ys.Pairwise fun a b => (t.pair b).priority ≤ (t.pair a).priority := by
  obtain ⟨hformula, -, t, ys, ht, -, hholds, hperm, hsorted⟩ :=
    pair_priority_and_order true ⟨⟨5⟩, ⟨3⟩, 0⟩ two_pairs_holds (Nat.le_refl 2)
  exact ⟨hformula.mpr (by decide), t, ys, ht, hholds, hperm, hsorted⟩

/-- With the top bit set in a candidate priority, twice that priority is zero. -/
theorem pair_priority_top_bit :
    (pair_calculate_priority true ⟨⟨0x80000000⟩, ⟨1⟩, 0⟩).priority.toNat = 2 ^ 32 + 1 ∧
      ¬ ∀ pair : Pair, (pair_calculate_priority true pair).priority.toNat =
        pair_priority (pair.controlling_priority true).toNat (pair.controlled_priority true).toNat := by
  constructor
  · decide
  · intro h
    have htop := h ⟨⟨0x80000000⟩, ⟨1⟩, 0⟩
    revert htop
    decide

end openvocs.ice
