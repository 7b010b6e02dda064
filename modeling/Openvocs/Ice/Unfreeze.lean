import Openvocs.Ice.Prune
import Openvocs.Lib.Bytes

open List

namespace openvocs.ice.unfreeze

/-- The part of `ov_ice_pair` that is read and written here. The foundation is the one of the
local candidate, which every pair has. -/
structure Pair where
  state : PairState
  foundation : List Byte
  deriving DecidableEq

/-- What `memcmp` looks at. -/
def key (foundation : List Byte) : List Byte := foundation.take 32

def foundation_done (list : List (List Byte)) (pair : Pair) : Bool :=
  list.any fun foundation => key foundation ≠ key pair.foundation

/-- The loop of `session_unfreeze`, with the foundations that were pushed. -/
def unfreeze_loop : List (List Byte) → List Pair → List Pair
  | _, [] => []
  | list, pair :: pairs =>
    if foundation_done list pair then pair :: unfreeze_loop list pairs
    else { pair with state := .waiting } :: unfreeze_loop (list ++ [pair.foundation]) pairs

/-- `session_unfreeze`, on the pairs of each stream. -/
def session_unfreeze : List (List Pair) → List (List Pair)
  | [] => []
  | pairs :: streams => unfreeze_loop [] pairs :: streams

/-- The same local foundation. -/
def Pair.Same (p q : Pair) : Prop := key p.foundation = key q.foundation

instance (p q : Pair) : Decidable (p.Same q) := inferInstanceAs (Decidable (_ = _))

theorem Pair.Same.symm {p q : Pair} (h : p.Same q) : q.Same p := Eq.symm h

theorem Pair.Same.trans {p q r : Pair} (h : p.Same q) (h' : q.Same r) : p.Same r := Eq.trans h h'

/-- Every pair with the foundation of `p` is frozen. -/
def AllFrozen (pairs : List Pair) (p : Pair) : Prop := ∀ q ∈ pairs, q.Same p → q.state = .frozen

/-- What unfreezing is to do. Of the pairs with a foundation that is frozen in all of them, the first
one waits afterwards; a pair that is not frozen stays as it is. -/
structure Unfrozen (pairs after : List Pair) : Prop where
  first : ∀ us p vs, pairs = us ++ p :: vs → AllFrozen pairs p →
    after[us.length]? = some (if ∃ u ∈ us, u.Same p then p else { p with state := .waiting })
  others : ∀ us p vs, pairs = us ++ p :: vs → p.state ≠ .frozen → after[us.length]? = some p

/-- The state that the loop gives to the pairs with one foundation. -/
def thaw (first q : Pair) : Pair := if q.Same first then { q with state := .waiting } else q

theorem foundation_done_eq {list : List (List Byte)} {first : Pair} (hlist : list ≠ [])
    (hsame : ∀ foundation ∈ list, key foundation = key first.foundation) (q : Pair) :
    foundation_done list q = !decide (q.Same first) := by
  obtain ⟨foundation, list, rfl⟩ := exists_cons_of_ne_nil hlist
  rw [foundation_done, Bool.eq_iff_iff, List.any_eq_true, Bool.not_eq_true', decide_eq_false_iff_not, Pair.Same]
  constructor
  · rintro ⟨f, hf, hdiffers⟩ heq
    rw [decide_eq_true_eq, hsame f hf] at hdiffers
    exact hdiffers heq.symm
  intro hdiffers
  refine ⟨foundation, mem_cons_self, ?_⟩
  rw [decide_eq_true_eq, hsame foundation mem_cons_self]
  exact fun heq => hdiffers heq.symm

theorem unfreeze_loop_eq {list : List (List Byte)} {first : Pair} (pairs : List Pair) (hlist : list ≠ [])
    (hsame : ∀ foundation ∈ list, key foundation = key first.foundation) :
    unfreeze_loop list pairs = pairs.map (thaw first) := by
  induction pairs generalizing list with
  | nil => rfl
  | cons q pairs ih =>
    rw [unfreeze_loop, foundation_done_eq hlist hsame, map_cons, thaw]
    by_cases hq : q.Same first
    · rw [decide_eq_true hq, if_neg (by simp), if_pos hq]
      congr 1
      refine ih (by simp) fun foundation hmem => ?_
      rcases mem_append.mp hmem with hmem | hmem
      · exact hsame foundation hmem
      rw [mem_singleton.mp hmem]
      exact hq
    · rw [decide_eq_false hq, if_pos (by rfl), if_neg hq, ih hlist hsame]

theorem unfreeze_first (first : Pair) (pairs : List Pair) :
    unfreeze_loop [] (first :: pairs) = (first :: pairs).map (thaw first) := by
  have hfirst : thaw first first = { first with state := .waiting } := if_pos rfl
  have hrest : unfreeze_loop ([] ++ [first.foundation]) pairs = pairs.map (thaw first) :=
    unfreeze_loop_eq pairs (by simp) (by simp)
  rw [unfreeze_loop, map_cons, hfirst, hrest]
  rfl

theorem getElem?_thawed (first : Pair) {us vs : List Pair} (p : Pair) :
    ((us ++ p :: vs).map (thaw first))[us.length]? = some (thaw first p) := by
  simp

theorem exists_first {pairs : List Pair} {q : Pair} (hq : q ∈ pairs) :
    ∃ us p vs, pairs = us ++ p :: vs ∧ p.Same q ∧ ∀ u ∈ us, ¬ u.Same p := by
  cases hfind : pairs.find? fun p => decide (p.Same q) with
  | none =>
    have hnone := find?_eq_none.mp hfind q hq
    exact absurd (decide_eq_true rfl) hnone
  | some p =>
    obtain ⟨hp, us, vs, hsplit, hus⟩ := find?_eq_some_iff_append.mp hfind
    have hsame : p.Same q := of_decide_eq_true hp
    refine ⟨us, p, vs, hsplit, hsame, fun u hu hup => ?_⟩
    have hnot := hus u hu
    rw [decide_eq_true (show u.Same q from hup.trans hsame)] at hnot
    cases hnot

/-- Unfreezing does what it is to do exactly when there are no pairs, or the foundation of the first
pair is the only one that is frozen throughout, its pairs wait or are frozen, and it has one pair
only if they are all frozen. -/
theorem session_unfreezes_iff (pairs : List Pair) (streams : List (List Pair)) :
    ∃ after, session_unfreeze (pairs :: streams) = after :: streams ∧
      (Unfrozen pairs after ↔ ∀ first rest, pairs = first :: rest →
        (∀ q ∈ pairs, ¬ q.Same first → ¬ AllFrozen pairs q) ∧
        (∀ q ∈ pairs, q.Same first → q.state = .frozen ∨ q.state = .waiting) ∧
        (AllFrozen pairs first → ∀ q ∈ rest, ¬ q.Same first)) := by
  refine ⟨unfreeze_loop [] pairs, rfl, ?_⟩
  cases pairs with
  | nil =>
    refine iff_of_true ⟨?_, ?_⟩ fun first rest h => ?_
    · intro us p vs h
      simp at h
    · intro us p vs h
      simp at h
    · cases h
  | cons first rest =>
    rw [unfreeze_first]
    constructor
    · rintro hunfrozen _ _ ⟨rfl, rfl⟩
      refine ⟨fun q hq hother hfrozen => ?_, fun q hq hsame => ?_, fun hfrozen q hq hsame => ?_⟩
      · obtain ⟨us, p, vs, hsplit, hpq, hfresh⟩ := exists_first hq
        have hfrozen' : AllFrozen (first :: rest) p := fun r hr hrp => hfrozen r hr (hrp.trans hpq)
        have hother' : ¬ p.Same first := fun hp => hother (hpq.symm.trans hp)
        have hfresh' : ¬ ∃ u ∈ us, u.Same p := fun ⟨u, hu, hup⟩ => hfresh u hu hup
        have hafter := hunfrozen.first us p vs hsplit hfrozen'
        rw [hsplit, getElem?_thawed, thaw, if_neg hother', if_neg hfresh'] at hafter
        have hstate := congrArg Pair.state (Option.some.inj hafter)
        have hp : p ∈ first :: rest := hsplit ▸ mem_append_right us mem_cons_self
        rw [hfrozen' p hp rfl] at hstate
        cases hstate
      · by_cases hstate : q.state = .frozen
        · exact .inl hstate
        · obtain ⟨us, vs, hsplit⟩ := append_of_mem hq
          have hafter := hunfrozen.others us q vs hsplit hstate
          rw [hsplit, getElem?_thawed, thaw, if_pos hsame] at hafter
          exact .inr (congrArg Pair.state (Option.some.inj hafter)).symm
      · obtain ⟨us, vs, hsplit⟩ := append_of_mem hq
        have hsplit' : first :: rest = (first :: us) ++ q :: vs := by rw [hsplit, List.cons_append]
        have hfrozen' : AllFrozen (first :: rest) q := fun r hr hrq => hfrozen r hr (hrq.trans hsame)
        have hafter := hunfrozen.first (first :: us) q vs hsplit' hfrozen'
        rw [hsplit', getElem?_thawed, thaw, if_pos hsame, if_pos ⟨first, mem_cons_self, hsame.symm⟩] at hafter
        have hstate := congrArg Pair.state (Option.some.inj hafter)
        rw [hfrozen q (mem_cons_of_mem first hq) hsame] at hstate
        cases hstate
    · intro hcondition
      obtain ⟨hothers, hstates, hsingle⟩ := hcondition first rest rfl
      constructor
      · intro us p vs hsplit hfrozen
        have hp : p ∈ first :: rest := hsplit ▸ mem_append_right us mem_cons_self
        have hsame : p.Same first := by
          by_contra hother
          exact hothers p hp hother hfrozen
        have hfrozen' : AllFrozen (first :: rest) first := fun r hr hrf => hfrozen r hr (hrf.trans hsame.symm)
        have hnil : us = [] := by
          cases us with
          | nil => rfl
          | cons u us =>
            have hrest := (List.cons.inj hsplit).2
            have hmem : p ∈ rest := hrest ▸ mem_append_right us mem_cons_self
            exact absurd hsame (hsingle hfrozen' p hmem)
        rw [hsplit, getElem?_thawed, thaw, if_pos hsame, if_neg (by simp [hnil])]
      · intro us p vs hsplit hstate
        have hp : p ∈ first :: rest := hsplit ▸ mem_append_right us mem_cons_self
        rw [hsplit, getElem?_thawed, thaw]
        by_cases hsame : p.Same first
        · have hwaiting : p.state = .waiting := (hstates p hp hsame).resolve_left hstate
          rw [if_pos hsame, ← hwaiting]
        · rw [if_neg hsame]

def two_foundations : List Pair := [⟨.frozen, [49]⟩, ⟨.frozen, [50]⟩]

/-- The second foundation stays frozen. -/
theorem second_foundation_stays_frozen :
    session_unfreeze [two_foundations] = [[⟨.waiting, [49]⟩, ⟨.frozen, [50]⟩]] ∧
      ¬ Unfrozen two_foundations [⟨.waiting, [49]⟩, ⟨.frozen, [50]⟩] := by
  refine ⟨by decide, fun hunfrozen => ?_⟩
  have hfrozen : AllFrozen two_foundations ⟨.frozen, [50]⟩ := by
    intro q hq _
    rw [two_foundations, mem_cons, mem_singleton] at hq
    rcases hq with rfl | rfl <;> rfl
  have hafter := hunfrozen.first [⟨.frozen, [49]⟩] ⟨.frozen, [50]⟩ [] rfl hfrozen
  revert hafter
  decide

end openvocs.ice.unfreeze
