import Mathlib.Algebra.Group.Nat.Defs
import Mathlib.Data.List.Perm.Basic
import Mathlib.Logic.Function.Basic

open List

namespace chained

variable {κ ν : Type} (same : κ → κ → Prop)

/-- No two pairs have the same key. -/
def Distinct (chain : List (κ × ν)) : Prop := chain.Pairwise fun pair other => ¬ same pair.1 other.1

/-- The pairs of a map, each of them once. -/
def Enumerates (map : κ → Option (κ × ν)) (pairs : List (κ × ν)) : Prop :=
  Distinct same pairs ∧ ∀ key pair, map key = some pair ↔ pair ∈ pairs ∧ same pair.1 key

variable [DecidableRel same]

def find (key : κ) (chain : List (κ × ν)) : Option (κ × ν) := chain.find? fun pair => same pair.1 key

/-- Puts a pair in the place of the one with its key, or behind the others. -/
def put (key : κ) (pair : κ × ν) : List (κ × ν) → List (κ × ν)
  | [] => [pair]
  | first :: chain => if same first.1 key then pair :: chain else first :: put key pair chain

def erase (key : κ) (chain : List (κ × ν)) : List (κ × ν) := chain.eraseP fun pair => same pair.1 key

/-- The map with a pair under a key. -/
def stored (map : κ → Option (κ × ν)) (key : κ) (pair : κ × ν) (other : κ) : Option (κ × ν) :=
  if same key other then some pair else map other

def removed (map : κ → Option (κ × ν)) (key other : κ) : Option (κ × ν) :=
  if same key other then none else map other

/-- Every pair stands in the chain of its slot, and the chains hold a map. -/
structure Files (slot : κ → Nat) (chains : Nat → List (κ × ν)) (map : κ → Option (κ × ν)) : Prop where
  distinct : ∀ i, Distinct same (chains i)
  filed : ∀ i, ∀ pair ∈ chains i, slot pair.1 = i
  found : ∀ key, find same key (chains (slot key)) = map key

variable {same} (hsame : Equivalence same) {key other : κ} {pair : κ × ν} {chain : List (κ × ν)}

theorem mem_put {entry : κ × ν} (h : entry ∈ put same key pair chain) : entry = pair ∨ entry ∈ chain := by
  induction chain with
  | nil => exact .inl (mem_singleton.mp h)
  | cons first chain ih =>
    rw [put] at h
    split at h
    · exact (mem_cons.mp h).imp_right (mem_cons_of_mem _)
    rcases mem_cons.mp h with rfl | h
    · exact .inr mem_cons_self
    · exact (ih h).imp_right (mem_cons_of_mem _)

theorem distinct_erase (h : Distinct same chain) : Distinct same (erase same key chain) :=
  h.sublist eraseP_sublist

theorem erase_of_not_found (h : find same key chain = none) : erase same key chain = chain :=
  eraseP_of_forall_not (find?_eq_none.mp h)

include hsame

theorem find_put (hkey : same pair.1 key) :
    find same other (put same key pair chain) = if same key other then some pair else find same other chain := by
  have hcongr {k : κ} (hk : same k key) : same k other ↔ same key other :=
    ⟨fun h => hsame.trans (hsame.symm hk) h, fun h => hsame.trans hk h⟩
  induction chain with
  | nil => simp only [find, put, find?_cons, find?_nil, hcongr hkey]; split <;> simp_all
  | cons first chain ih =>
    rw [put]
    by_cases hfirst : same first.1 key
    · by_cases hother : same key other <;> simp [find, hfirst, hcongr hkey, hcongr hfirst, hother]
    rw [if_neg hfirst]
    simp only [find, find?_cons] at ih ⊢
    by_cases hother : same first.1 other
    · have hne : ¬ same key other := fun h => hfirst (hsame.trans hother (hsame.symm h))
      simp [hother, hne]
    · simp [hother, ih]

theorem distinct_put (hkey : same pair.1 key) (h : Distinct same chain) : Distinct same (put same key pair chain) := by
  induction chain with
  | nil => exact pairwise_singleton _ _
  | cons first chain ih =>
    obtain ⟨hfirst, hchain⟩ := pairwise_cons.mp h
    rw [put]
    split
    next hmatch =>
      exact pairwise_cons.mpr ⟨fun entry hmem heq =>
        hfirst entry hmem (hsame.trans hmatch (hsame.trans (hsame.symm hkey) heq)), hchain⟩
    next hmatch =>
      refine pairwise_cons.mpr ⟨fun entry hmem => ?_, ih hchain⟩
      rcases mem_put hmem with rfl | hmem
      · exact fun heq => hmatch (hsame.trans heq hkey)
      · exact hfirst entry hmem

theorem find_erase (h : Distinct same chain) :
    find same other (erase same key chain) = if same key other then none else find same other chain := by
  induction chain with
  | nil => simp [find, erase]
  | cons first chain ih =>
    obtain ⟨hfirst, hchain⟩ := pairwise_cons.mp h
    have ih := ih hchain
    simp only [find, erase, eraseP_cons, find?_cons] at ih ⊢
    by_cases hmatch : same first.1 key
    · by_cases hother : same key other
      · have hnone : chain.find? (fun entry => same entry.1 other) = none := find?_eq_none.mpr fun entry hmem heq =>
          hfirst entry hmem (hsame.trans hmatch (hsame.trans hother (hsame.symm (of_decide_eq_true heq))))
        simp [hmatch, hother, hnone]
      have hne : ¬ same first.1 other := fun h => hother (hsame.trans (hsame.symm hmatch) h)
      simp [hmatch, hother, hne]
    by_cases hother : same first.1 other
    · have hne : ¬ same key other := fun h => hmatch (hsame.trans hother (hsame.symm h))
      simp [hmatch, hother, hne]
    · simp [hmatch, hother, ih]

theorem find_eq_some_iff (h : Distinct same chain) :
    find same key chain = some pair ↔ pair ∈ chain ∧ same pair.1 key := by
  constructor
  · intro hfind
    rw [find] at hfind
    exact ⟨mem_of_find?_eq_some hfind, by simpa using find?_some hfind⟩
  rintro ⟨hmem, hkey⟩
  induction chain with
  | nil => cases hmem
  | cons first chain ih =>
    obtain ⟨hfirst, hchain⟩ := pairwise_cons.mp h
    rw [find, find?_cons]
    rcases mem_cons.mp hmem with rfl | hmem
    · simp [hkey]
    have hne : ¬ same first.1 key := fun heq => hfirst pair hmem (hsame.trans heq (hsame.symm hkey))
    simpa [hne, find] using ih hchain hmem

omit [DecidableRel same] in
theorem Enumerates.perm {map : κ → Option (κ × ν)} {pairs entries : List (κ × ν)} (h : Enumerates same map pairs)
    (hentries : Enumerates same map entries) : pairs.Perm entries := by
  have nodup {l : List (κ × ν)} (hl : Distinct same l) : l.Nodup := by
    refine Pairwise.imp ?_ hl
    rintro pair _ hne rfl
    exact hne (hsame.refl _)
  have self (pair : κ × ν) : same pair.1 pair.1 := hsame.refl _
  refine (perm_ext_iff_of_nodup (nodup h.1) (nodup hentries.1)).mpr fun pair => ⟨fun hmem => ?_, fun hmem => ?_⟩
  · exact ((hentries.2 pair.1 pair).mp ((h.2 pair.1 pair).mpr ⟨hmem, self pair⟩)).1
  · exact ((h.2 pair.1 pair).mp ((hentries.2 pair.1 pair).mpr ⟨hmem, self pair⟩)).1

variable {slot : κ → Nat} (hslot : ∀ a b, same a b → slot a = slot b) {chains : Nat → List (κ × ν)}
  {map other_map : κ → Option (κ × ν)} (h : Files same slot chains map)

omit hsame in
theorem Files.update (h : Files same slot chains map) (hdistinct : Distinct same chain)
    (hfiled : ∀ pair ∈ chain, slot pair.1 = slot key)
    (hfound : ∀ other, slot other = slot key → find same other chain = other_map other)
    (hrest : ∀ other, slot other ≠ slot key → other_map other = map other) :
    Files same slot (Function.update chains (slot key) chain) other_map := by
  refine ⟨fun i => ?_, fun i => ?_, fun other => ?_⟩
  · by_cases hi : i = slot key
    · rwa [hi, Function.update_self]
    rw [Function.update_of_ne hi]
    exact h.distinct i
  · by_cases hi : i = slot key
    · rwa [hi, Function.update_self]
    rw [Function.update_of_ne hi]
    exact h.filed i
  by_cases hi : slot other = slot key
  · rw [hi, Function.update_self, hfound other hi]
  · rw [Function.update_of_ne hi, h.found, hrest other hi]

omit hsame in
theorem Files.of_empty (hempty : ∀ key, chains (slot key) = []) (hdistinct : ∀ i, Distinct same (chains i))
    (hfiled : ∀ i, ∀ pair ∈ chains i, slot pair.1 = i) : Files same slot chains fun _ => none :=
  ⟨hdistinct, hfiled, fun key => by rw [hempty]; rfl⟩

include hslot h

theorem Files.put (hkey : same pair.1 key) :
    Files same slot (Function.update chains (slot key) (put same key pair (chains (slot key))))
      (stored same map key pair) := by
  refine h.update (distinct_put hsame hkey (h.distinct _)) (fun entry hmem => ?_) (fun other hi => ?_)
    fun other hi => if_neg fun heq => hi (hslot _ _ heq).symm
  · rcases mem_put hmem with rfl | hmem
    · exact hslot _ _ hkey
    · exact h.filed _ entry hmem
  · rw [stored, find_put hsame hkey, ← h.found, hi]

variable (key) in
theorem Files.erase : Files same slot (Function.update chains (slot key) (erase same key (chains (slot key))))
    (removed same map key) := by
  refine h.update (distinct_erase (h.distinct _)) (fun entry hmem => h.filed _ entry (eraseP_subset hmem))
    (fun other hi => ?_) fun other hi => if_neg fun heq => hi (hslot _ _ heq).symm
  rw [removed, find_erase hsame (h.distinct _), ← h.found, hi]

theorem Files.enumerates {slots : Nat} (hlt : ∀ key, slot key < slots) :
    Enumerates same map ((range slots).flatMap chains) := by
  refine ⟨pairwise_flatMap.mpr ⟨fun i _ => h.distinct i, ?_⟩, fun key pair => ?_⟩
  · refine nodup_range.imp fun {i j} hne pair hpair entry hentry heq => hne ?_
    rw [← h.filed i pair hpair, hslot _ _ heq, h.filed j entry hentry]
  rw [← h.found, find_eq_some_iff hsame (h.distinct _), mem_flatMap]
  constructor
  · exact fun ⟨hmem, hkey⟩ => ⟨⟨slot key, mem_range.mpr (hlt key), hmem⟩, hkey⟩
  rintro ⟨⟨i, -, hmem⟩, hkey⟩
  obtain rfl : i = slot key := (h.filed i pair hmem).symm.trans (hslot _ _ hkey)
  exact ⟨hmem, hkey⟩

end chained
