import Openvocs.Lib.Answers
import Openvocs.Lib.Chained

/-!
Keys and values are pointers, and a NULL key is a key like any other: it is the key 0.
-/

open List

namespace openvocs

/-- How a dictionary treats its keys and values; validators that are not set accept everything. -/
structure DictConfig (κ ν : Type) where
  slots : Nat
  hash : Option κ → BitVec 64
  matches_key : Option κ → Option κ → Bool
  key_valid : Option κ → Bool
  value_valid : Option ν → Bool
  value_free : Bool

/-- A dictionary with the chain behind each slot. -/
structure DefaultDict (κ ν : Type) where
  config : DictConfig κ ν
  items : Nat → List (Option κ × Option ν)

namespace DefaultDict

variable {κ ν σ : Type}

/-- The values given to the free function of the values, if there is one; NULL is nothing to free. -/
def freed (config : DictConfig κ ν) (value : Option ν) : List ν := if config.value_free then value.toList else []

inductive Call (κ ν : Type) where
  | set (key : Option κ) (value : Option ν) (replaced : Bool)
  | get (key : Option κ)
  | remove (key : Option κ)
  | del (key : Option κ)
  | is_set (key : Option κ)
  | clear
  | count
  | get_keys
  | for_each

/-- What is returned, with the value given back through `replaced` and the values freed. -/
inductive Answer (κ ν : Type) where
  | stored (ok : Bool) (replaced : Option (Option ν)) (freed : List ν)
  | value (value : Option ν)
  | flag (ok : Bool) (freed : List ν)
  | count (count : Int)
  | keys (keys : List (Option κ))
  | visited (pairs : List (Option κ × Option ν))

def create (config : DictConfig κ ν) : Option (DefaultDict κ ν) :=
  if config.slots < 1 then none else some ⟨config, fun _ => []⟩

def calculate_slot (config : DictConfig κ ν) (key : Option κ) : Nat := (config.hash key).toNat % config.slots

/-- The chain in which a key is looked for. -/
def chain (self : DefaultDict κ ν) (key : Option κ) : List (Option κ × Option ν) :=
  self.items (calculate_slot self.config key)

def with_chain (self : DefaultDict κ ν) (key : Option κ) (chain : List (Option κ × Option ν)) : DefaultDict κ ν :=
  { self with items := Function.update self.items (calculate_slot self.config key) chain }

def is_set (self : DefaultDict κ ν) (key : Option κ) : Bool :=
  (self.chain key).any fun pair => self.config.matches_key key pair.1

def get (self : DefaultDict κ ν) (key : Option κ) : Option ν :=
  ((self.chain key).find? fun pair => self.config.matches_key key pair.1).bind Prod.snd

/-- Takes the place of the pair with the key, whose value it gives, or is pushed behind the others. -/
def set_pair (config : DictConfig κ ν) (key : Option κ) (value : Option ν) :
    List (Option κ × Option ν) → Option (Option ν) × List (Option κ × Option ν)
  | [] => (none, [(key, value)])
  | pair :: chain =>
    if config.matches_key key pair.1 then (some pair.2, (key, value) :: chain)
    else
      let (old, chain) := set_pair config key value chain
      (old, pair :: chain)

def set (self : DefaultDict κ ν) (key : Option κ) (value : Option ν) (replaced : Bool) :
    Answer κ ν × DefaultDict κ ν :=
  if !self.config.key_valid key || !self.config.value_valid value then (.stored false none [], self)
  else
    let (old, chain) := set_pair self.config key value (self.chain key)
    let self := self.with_chain key chain
    match old with
    | none => (.stored true none [], self)
    | some old =>
      if replaced then (.stored true (some old) [], self) else (.stored true none (freed self.config old), self)

def remove (self : DefaultDict κ ν) (key : Option κ) : Option ν × DefaultDict κ ν :=
  (self.get key, self.with_chain key ((self.chain key).eraseP fun pair => self.config.matches_key key pair.1))

def del (self : DefaultDict κ ν) (key : Option κ) : Answer κ ν × DefaultDict κ ν :=
  let (value, self) := self.remove key
  (.flag true (freed self.config value), self)

/-- The pairs of all chains, slot by slot. -/
def pairs (self : DefaultDict κ ν) : List (Option κ × Option ν) := (range self.config.slots).flatMap self.items

def clear (self : DefaultDict κ ν) : Answer κ ν × DefaultDict κ ν :=
  (.flag true (self.pairs.flatMap fun pair => freed self.config pair.2),
    { self with items := fun i => if i < self.config.slots then [] else self.items i })

/-- Applies a function pair by pair until it returns `false`. -/
def for_each_pair (function : Option κ → Option ν → σ → Bool × σ) : List (Option κ × Option ν) → σ → Bool × σ
  | [], data => (true, data)
  | pair :: rest, data =>
    match function pair.1 pair.2 data with
    | (false, data) => (false, data)
    | (true, data) => for_each_pair function rest data

def for_each (self : DefaultDict κ ν) (data : σ) (function : Option κ → Option ν → σ → Bool × σ) : Bool × σ :=
  for_each_pair function self.pairs data

def count_keys (key : Option κ) (_value : Option ν) (counter : Int) : Bool × Int :=
  match key with
  | none => (true, counter)
  | some _ => if counter < 0 then (false, counter) else (true, counter + 1)

def count (self : DefaultDict κ ν) : Int :=
  match self.for_each 0 count_keys with
  | (true, counter) => counter
  | (false, _) => -1

def key_collector (key : Option κ) (value : Option ν) (keys : List (Option κ)) : Bool × List (Option κ) :=
  match key, value with
  | some key, some _ => (true, keys ++ [some key])
  | _, _ => (true, keys)

/-- `impl_dict_get_keys` where no value is asked for. -/
def get_keys (self : DefaultDict κ ν) : List (Option κ) := (self.for_each [] key_collector).2

/-- The walk of `for_each` has a function that notes every pair and never stops. -/
def step : Call κ ν → DefaultDict κ ν → Answer κ ν × DefaultDict κ ν
  | .set key value replaced, self => self.set key value replaced
  | .get key, self => (.value (self.get key), self)
  | .remove key, self => let (value, self) := self.remove key; (.value value, self)
  | .del key, self => self.del key
  | .is_set key, self => (.flag (self.is_set key) [], self)
  | .clear, self => self.clear
  | .count, self => (.count self.count, self)
  | .get_keys, self => (.keys self.get_keys, self)
  | .for_each, self => (.visited (self.for_each [] fun key value pairs => (true, pairs ++ [(key, value)])).2, self)

/-- A key and the key of a pair are the same when they match. -/
def Same (config : DictConfig κ ν) (stored key : Option κ) : Prop := config.matches_key key stored = true

instance (config : DictConfig κ ν) : DecidableRel (Same config) := fun stored key =>
  inferInstanceAs (Decidable (config.matches_key key stored = true))

/-- A map gives the pair of a key: the key as it was last set, and its value. -/
abbrev Content (κ ν : Type) := Option κ → Option (Option κ × Option ν)

def Accepts (config : DictConfig κ ν) (key : Option κ) (value : Option ν) : Bool :=
  config.key_valid key && config.value_valid value

/-- What a map answers. A value that leaves it is returned, or else freed if values are freed at all. -/
def Answers (config : DictConfig κ ν) (map : Content κ ν) : Call κ ν → Answer κ ν → Prop
  | .set key value replaced, answer => answer =
    if !Accepts config key value then .stored false none []
    else if replaced then .stored true ((map key).map Prod.snd) []
    else .stored true none (freed config ((map key).bind Prod.snd))
  | .get key, answer | .remove key, answer => answer = .value ((map key).bind Prod.snd)
  | .del key, answer => answer = .flag true (freed config ((map key).bind Prod.snd))
  | .is_set key, answer => answer = .flag (map key).isSome []
  | .clear, answer => ∃ pairs, chained.Enumerates (Same config) map pairs ∧
    answer = .flag true (pairs.flatMap fun pair => freed config pair.2)
  | .count, answer => ∃ pairs, chained.Enumerates (Same config) map pairs ∧ answer = .count pairs.length
  | .get_keys, answer => ∃ pairs, chained.Enumerates (Same config) map pairs ∧
    answer = .keys ((pairs.filter fun pair => pair.2.isSome).map Prod.fst)
  | .for_each, answer => ∃ pairs, chained.Enumerates (Same config) map pairs ∧ answer = .visited pairs

def after (config : DictConfig κ ν) (map : Content κ ν) : Call κ ν → Content κ ν
  | .set key value _ => if Accepts config key value then chained.stored (Same config) map key (key, value) else map
  | .remove key | .del key => chained.removed (Same config) map key
  | .clear => fun _ => none
  | _ => map

/-- Keys are counted while no pair has the key NULL, and listed while none has it with a value. -/
def Counts (self : DefaultDict κ ν) : Call κ ν → Prop
  | .count => ∀ pair ∈ self.pairs, pair.1 ≠ none
  | .get_keys => ∀ pair ∈ self.pairs, pair.1 = none → pair.2 = none
  | _ => True

theorem decide_same (config : DictConfig κ ν) (key : Option κ) :
    (fun pair : Option κ × Option ν => decide (Same config pair.1 key)) =
      fun pair => config.matches_key key pair.1 :=
  funext fun _ => Bool.decide_eq_true

theorem set_pair_eq (config : DictConfig κ ν) (key : Option κ) (value : Option ν)
    (chain : List (Option κ × Option ν)) : set_pair config key value chain =
      ((chained.find (Same config) key chain).map Prod.snd, chained.put (Same config) key (key, value) chain) := by
  induction chain with
  | nil => rfl
  | cons pair chain ih =>
    rw [chained.find] at ih ⊢
    cases hkey : config.matches_key key pair.1 <;> simp [set_pair, chained.put, Same, hkey, ih]

theorem for_each_pair_true {function : Option κ → Option ν → σ → Bool × σ} {next : Option κ → Option ν → σ → σ}
    (htrue : ∀ key value data, function key value data = (true, next key value data))
    (pairs : List (Option κ × Option ν)) (data : σ) :
    for_each_pair function pairs data = (true, pairs.foldl (fun data pair => next pair.1 pair.2 data) data) := by
  induction pairs generalizing data with
  | nil => rfl
  | cons pair pairs ih =>
    rw [for_each_pair, htrue]
    exact ih _

theorem for_each_pair_count (pairs : List (Option κ × Option ν)) (n : Nat) :
    for_each_pair count_keys pairs (n : Int) = (true, ((n + pairs.countP fun pair => pair.1.isSome : Nat) : Int)) := by
  induction pairs generalizing n with
  | nil => rfl
  | cons pair pairs ih =>
    obtain ⟨key, value⟩ := pair
    cases key with
    | none => simpa [for_each_pair, count_keys] using ih n
    | some key =>
      have hn : ¬ (n : Int) < 0 := by omega
      have hrest := ih (n + 1)
      simp only [for_each_pair, count_keys, hn, if_false, countP_cons, Option.isSome_some, if_true] at hrest ⊢
      rw [show (n : Int) + 1 = ((n + 1 : Nat) : Int) by omega, hrest]
      congr 2
      omega

theorem count_eq (self : DefaultDict κ ν) : self.count = (self.pairs.countP fun pair => pair.1.isSome : Nat) := by
  have hwalk := for_each_pair_count self.pairs 0
  rw [count, for_each, show (0 : Int) = ((0 : Nat) : Int) from rfl, hwalk]
  simp

theorem get_keys_eq (self : DefaultDict κ ν) :
    self.get_keys = (self.pairs.filter fun pair => pair.1.isSome && pair.2.isSome).map Prod.fst := by
  have hcollect (key : Option κ) (value : Option ν) (keys : List (Option κ)) : key_collector key value keys =
      (true, keys ++ if key.isSome && value.isSome then [key] else []) := by
    cases key <;> cases value <;> simp [key_collector]
  rw [get_keys, for_each, for_each_pair_true hcollect, ← flatMap_eq_foldl]
  induction self.pairs with
  | nil => rfl
  | cons pair pairs ih => cases h : (pair.1.isSome && pair.2.isSome) <;> simp_all

theorem for_each_eq (self : DefaultDict κ ν) :
    (self.for_each [] fun key value pairs => (true, pairs ++ [(key, value)])).2 = self.pairs := by
  rw [for_each, for_each_pair_true (fun _ _ _ => rfl), ← flatMap_eq_foldl]
  simp

section dictionaries

variable {config : DictConfig κ ν}

theorem calculate_slot_congr (hhash : ∀ key other, Same config key other → config.hash key = config.hash other)
    (key other : Option κ) (h : Same config key other) : calculate_slot config key = calculate_slot config other := by
  rw [calculate_slot, calculate_slot, hhash key other h]

/-- The dictionary keeps a map in its slots. -/
structure Keeps (config : DictConfig κ ν) (dict : DefaultDict κ ν) (map : Content κ ν) : Prop where
  config_eq : dict.config = config
  files : chained.Files (Same config) (calculate_slot config) dict.items map

variable {self : DefaultDict κ ν} {map : Content κ ν} (h : Keeps config self map)

include h

theorem Keeps.find_eq (key : Option κ) :
    ((self.chain key).find? fun pair => self.config.matches_key key pair.1) = map key := by
  obtain ⟨rfl, hfiles⟩ := h
  rw [← hfiles.found, chained.find, decide_same]
  rfl

theorem Keeps.get_eq (key : Option κ) : self.get key = (map key).bind Prod.snd := by
  rw [get, h.find_eq]

theorem Keeps.is_set_eq (key : Option κ) : self.is_set key = (map key).isSome := by
  rw [← h.find_eq, is_set, Bool.eq_iff_iff, find?_isSome, any_eq_true]

variable (hsame : Equivalence (Same config))
  (hhash : ∀ key other, Same config key other → config.hash key = config.hash other)

include hsame hhash

theorem Keeps.remove (key : Option κ) : (self.remove key).1 = (map key).bind Prod.snd ∧
    Keeps config (self.remove key).2 (chained.removed (Same config) map key) := by
  refine ⟨h.get_eq key, h.config_eq, ?_⟩
  obtain ⟨rfl, hfiles⟩ := h
  have herase := hfiles.erase hsame key (calculate_slot_congr hhash)
  rw [chained.erase, decide_same] at herase
  exact herase

theorem Keeps.set (key : Option κ) (value : Option ν) (replaced : Bool) :
    Answers config map (.set key value replaced) (self.set key value replaced).1 ∧
      Keeps config (self.set key value replaced).2 (after config map (.set key value replaced)) := by
  obtain ⟨rfl, hfiles⟩ := h
  have hfound : chained.find (Same self.config) key (self.chain key) = map key := hfiles.found key
  have hput := hfiles.put hsame (calculate_slot_congr hhash) (show Same _ (key, value).1 key from hsame.refl key)
  have hrefuses : (!self.config.key_valid key || !self.config.value_valid value) = !Accepts self.config key value := by
    rw [Accepts, Bool.not_and]
  simp only [DefaultDict.set, Answers, after, hrefuses, set_pair_eq, hfound]
  cases Accepts self.config key value with
  | false => exact ⟨rfl, rfl, hfiles⟩
  | true =>
    cases map key with
    | none => cases replaced <;> exact ⟨by simp [freed], rfl, hput⟩
    | some pair => cases replaced <;> exact ⟨rfl, rfl, hput⟩

theorem Keeps.clear (hslots : 0 < config.slots) : Answers config map .clear self.clear.1 ∧
    Keeps config self.clear.2 fun _ => none := by
  obtain ⟨rfl, hfiles⟩ := h
  have hlt (key : Option κ) : calculate_slot self.config key < self.config.slots := Nat.mod_lt _ hslots
  refine ⟨⟨self.pairs, hfiles.enumerates hsame (calculate_slot_congr hhash) hlt, rfl⟩, rfl, .of_empty (fun key => if_pos (hlt key))
    (fun i => ?_) fun i => ?_⟩
  all_goals
    simp only [DefaultDict.clear]
    split
  · exact .nil
  · exact hfiles.distinct i
  · exact fun pair hmem => absurd hmem not_mem_nil
  · exact hfiles.filed i

theorem Keeps.step (hslots : 0 < config.slots) (call : Call κ ν) :
    (Answers config map call (step call self).1 ↔ self.Counts call) ∧
      Keeps config (DefaultDict.step call self).2 (after config map call) := by
  have hpairs : chained.Enumerates (Same config) map self.pairs := by
    obtain ⟨rfl, hfiles⟩ := h
    exact hfiles.enumerates hsame (calculate_slot_congr hhash) fun key => Nat.mod_lt _ hslots
  match call with
  | .set key value replaced => exact (h.set hsame hhash key value replaced).imp_left fun h => iff_of_true h trivial
  | .get key => exact ⟨iff_of_true (congrArg Answer.value (h.get_eq key)) trivial, h⟩
  | .remove key => exact (h.remove hsame hhash key).imp_left fun h => iff_of_true (congrArg Answer.value h) trivial
  | .del key =>
    refine (h.remove hsame hhash key).imp_left fun hvalue => iff_of_true ?_ trivial
    rw [Answers, ← hvalue, ← h.config_eq]
    rfl
  | .is_set key => exact ⟨iff_of_true (congrArg (Answer.flag · []) (h.is_set_eq key)) trivial, h⟩
  | .clear => exact (h.clear hsame hhash hslots).imp_left fun h => iff_of_true h trivial
  | .for_each => exact ⟨iff_of_true ⟨_, hpairs, congrArg Answer.visited self.for_each_eq⟩ trivial, h⟩
  | .count =>
    refine ⟨?_, h⟩
    simp only [Answers, Counts, DefaultDict.step, count_eq, Answer.count.injEq, Int.natCast_inj]
    constructor
    · rintro ⟨pairs, hsecond, hcount⟩ pair hmem hnull
      rw [(hsecond.perm hsame hpairs).length_eq, countP_eq_length] at hcount
      simpa [hnull] using hcount pair hmem
    · exact fun hkeys => ⟨_, hpairs, countP_eq_length.mpr fun pair hmem => Option.isSome_iff_ne_none.mpr (hkeys pair hmem)⟩
  | .get_keys =>
    refine ⟨?_, h⟩
    simp only [Answers, Counts, DefaultDict.step, get_keys_eq, Answer.keys.injEq]
    constructor
    · rintro ⟨pairs, hsecond, hkeys⟩ pair hmem hnull
      by_contra hvalue
      have hlisted : pair.1 ∈ (pairs.filter fun pair => pair.2.isSome).map Prod.fst :=
        mem_map_of_mem (mem_filter.mpr ⟨(hsecond.perm hsame hpairs).mem_iff.mpr hmem, Option.isSome_iff_ne_none.mpr hvalue⟩)
      rw [← hkeys] at hlisted
      simp [hnull] at hlisted
    refine fun hkeys => ⟨_, hpairs, congrArg _ (filter_congr fun pair hmem => ?_)⟩
    have hvalue := hkeys pair hmem
    cases hkey : pair.1 <;> simp_all

end dictionaries

/-- The state behind a call. -/
def next (call : Call κ ν) (self : DefaultDict κ ν) : Option (DefaultDict κ ν) := some (step call self).2

/-- A dictionary answers every call as the map of the calls before it does, if and only if the keys
    are only counted and listed while none of them is NULL. -/
theorem dict_behaves_iff {config : DictConfig κ ν} (hslots : 0 < config.slots) (hsame : Equivalence (Same config))
    (hhash : ∀ key other, Same config key other → config.hash key = config.hash other) :
    ∃ self, create config = some self ∧ ∀ calls,
      answers.Behaves step (Answers config) (after config) calls self (fun _ => none) ↔
        machine.along next Counts calls self := by
  have hnew : Keeps config (⟨config, fun _ => []⟩ : DefaultDict κ ν) fun _ => none :=
    ⟨rfl, .of_empty (fun _ => rfl) (fun _ => .nil) fun _ _ hmem => absurd hmem not_mem_nil⟩
  refine ⟨_, if_neg (Nat.not_lt.mpr hslots), fun calls => ?_⟩
  exact answers.behaves_iff (Keeps config) Counts (fun call self map h => (h.step hsame hhash hslots call).1)
    (fun call self map h => (h.step hsame hhash hslots call).2) calls hnew

/-- `ov_dict_intptr_key_config`: integers as keys, 0 being NULL. -/
def intptr_key_config (slots : Nat) : DictConfig Nat Nat where
  slots := slots
  hash key := BitVec.ofNat 64 (key.getD 0)
  matches_key key stored := key == stored
  key_valid _ := true
  value_valid _ := true
  value_free := false

theorem dict_behaves_intptr : ∃ self, create (intptr_key_config 2) = some self ∧ ∀ calls,
    answers.Behaves step (Answers (intptr_key_config 2)) (after (intptr_key_config 2)) calls self (fun _ => none) ↔
      machine.along next Counts calls self := by
  have hiff (key other : Option Nat) : Same (intptr_key_config 2) key other ↔ key = other := by
    rw [Same]
    exact beq_iff_eq.trans eq_comm
  refine dict_behaves_iff (by decide) ⟨fun key => (hiff _ _).mpr rfl, fun h => ?_, fun h h' => ?_⟩ fun key other h => ?_
  · exact (hiff _ _).mpr ((hiff _ _).mp h).symm
  · exact (hiff _ _).mpr (((hiff _ _).mp h).trans ((hiff _ _).mp h'))
  · rw [(hiff _ _).mp h]

/-- The key 0 is held and found, but not counted. -/
theorem null_key_not_counted : ∃ self last, create (intptr_key_config 2) = some self ∧
    self.set none (some 1) false = (.stored true none [], last) ∧ last.get none = some 1 ∧ last.count = 0 ∧
    ¬ answers.Behaves step (Answers (intptr_key_config 2)) (after (intptr_key_config 2)) [.set none (some 1) false, .count]
      self fun _ => none := by
  refine ⟨_, _, rfl, rfl, rfl, rfl, ?_⟩
  rintro ⟨-, ⟨pairs, hpairs, hcount⟩, -⟩
  have hlength : (0 : Int) = pairs.length := Answer.count.inj hcount
  have hmem := ((hpairs.2 none (none, some 1)).mp rfl).1
  rw [length_eq_zero_iff.mp (by omega : pairs.length = 0)] at hmem
  exact not_mem_nil hmem

end DefaultDict

end openvocs
