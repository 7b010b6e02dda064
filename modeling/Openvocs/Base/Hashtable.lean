import Openvocs.Lib.Answers
import Openvocs.Lib.Chained

open List

namespace openvocs

/-- The functions of a table that decide what it holds. -/
structure HashtableFuncs (κ : Type) where
  key_copy : κ → κ
  key_cmp : κ → κ → Int
  hash : κ → BitVec 64

/-- Keys are the same when they compare equal. -/
def HashtableFuncs.Same {κ : Type} (funcs : HashtableFuncs κ) (key other : κ) : Prop := funcs.key_cmp key other = 0

instance {κ : Type} (funcs : HashtableFuncs κ) : DecidableRel funcs.Same := fun key other =>
  inferInstanceAs (Decidable (funcs.key_cmp key other = 0))

/-- A table with the chain behind each bucket; a value may be NULL. -/
structure Hashtable (κ ν : Type) where
  funcs : HashtableFuncs κ
  number_of_buckets : Nat
  entries : Nat → List (κ × Option ν)

namespace Hashtable

variable {κ ν σ : Type}

/-- The number of buckets is kept in 32 bits. -/
def create (num_buckets : Nat) (funcs : HashtableFuncs κ) : Option (Hashtable κ ν) :=
  if num_buckets = 0 then none else some ⟨funcs, num_buckets % 2 ^ 32, fun _ => []⟩

/-- How many entries stand before the one with the key: all of them if there is none. -/
def passed (funcs : HashtableFuncs κ) (key : κ) : List (κ × Option ν) → Nat
  | [] => 0
  | entry :: chain => if funcs.key_cmp entry.1 key = 0 then 0 else passed funcs key chain + 1

/-- A bucket and how many entries of its chain come up to the one that is returned. -/
def get_entry_for (table : Hashtable κ ν) : Option κ → Option (Nat × Nat)
  | none => none
  | some key =>
    let hash := (table.funcs.hash key).toNat % table.number_of_buckets
    some (hash, passed table.funcs key (table.entries hash))

/-- The entry behind the one that the lookup gives. -/
def next (table : Hashtable κ ν) (entry : Nat × Nat) : Option (κ × Option ν) := (table.entries entry.1)[entry.2]?

def contains (table : Hashtable κ ν) (key : Option κ) : Bool :=
  match table.get_entry_for key with
  | none => false
  | some entry => (table.next entry).isSome

def get (table : Hashtable κ ν) (key : Option κ) : Option ν :=
  match table.get_entry_for key with
  | none => none
  | some entry =>
    match table.next entry with
    | none => none
    | some found => found.2

def with_chain (table : Hashtable κ ν) (bucket : Nat) (chain : List (κ × Option ν)) : Hashtable κ ν :=
  { table with entries := Function.update table.entries bucket chain }

def set (table : Hashtable κ ν) (key : Option κ) (value : Option ν) : Option ν × Hashtable κ ν :=
  match key, table.get_entry_for key with
  | some key, some entry =>
    let chain := table.entries entry.1
    match table.next entry with
    | none => (none, table.with_chain entry.1 (chain ++ [(table.funcs.key_copy key, value)]))
    | some found => (found.2, table.with_chain entry.1 (chain.set entry.2 (found.1, value)))
  | _, _ => (none, table)

def remove (table : Hashtable κ ν) (key : Option κ) : Option ν × Hashtable κ ν :=
  match table.get_entry_for key with
  | none => (none, table)
  | some entry =>
    match table.next entry with
    | none => (none, table)
    | some found => (found.2, table.with_chain entry.1 ((table.entries entry.1).eraseIdx entry.2))

/-- Counts the entries that the callback gets to see; it stops the walk by returning `false`. -/
def for_each_entry (process_func : κ → Option ν → σ → Bool × σ) : List (κ × Option ν) → σ → Nat → Nat × σ
  | [], arg, count => (count, arg)
  | entry :: rest, arg, count =>
    match process_func entry.1 entry.2 arg with
    | (false, arg) => (count + 1, arg)
    | (true, arg) => for_each_entry process_func rest arg (count + 1)

def for_each (table : Hashtable κ ν) (process_func : κ → Option ν → σ → Bool × σ) (arg : σ) : Nat × σ :=
  for_each_entry process_func ((range table.number_of_buckets).flatMap table.entries) arg 0

inductive Call (κ ν : Type) where
  | set (key : Option κ) (value : Option ν)
  | get (key : Option κ)
  | contains (key : Option κ)
  | remove (key : Option κ)
  | for_each

inductive Answer (κ ν : Type) where
  | value (value : Option ν)
  | found (found : Bool)
  | visited (pairs : List (κ × Option ν)) (count : Nat)

/-- The walk of `for_each` has a callback that notes every pair and never stops. -/
def step : Call κ ν → Hashtable κ ν → Answer κ ν × Hashtable κ ν
  | .set key value, table => let (old, table) := table.set key value; (.value old, table)
  | .get key, table => (.value (table.get key), table)
  | .contains key, table => (.found (table.contains key), table)
  | .remove key, table => let (old, table) := table.remove key; (.value old, table)
  | .for_each, table =>
    let (count, pairs) := table.for_each (fun key value pairs => (true, pairs ++ [(key, value)])) []
    (.visited pairs count, table)

/-- A map gives the pair of a key: the key as it was first set, and its value. -/
abbrev Content (κ ν : Type) := κ → Option (κ × Option ν)

/-- The value of a key, and NULL for a key without one. -/
def Content.value (map : Content κ ν) (key : Option κ) : Option ν := (key.bind map).bind Prod.snd

def Answers (funcs : HashtableFuncs κ) (map : Content κ ν) : Call κ ν → Answer κ ν → Prop
  | .set key _, answer => answer = .value (map.value key)
  | .get key, answer => answer = .value (map.value key)
  | .contains key, answer => answer = .found (key.bind map).isSome
  | .remove key, answer => answer = .value (map.value key)
  | .for_each, answer => ∃ pairs, chained.Enumerates funcs.Same map pairs ∧ answer = .visited pairs pairs.length

def after (funcs : HashtableFuncs κ) (map : Content κ ν) : Call κ ν → Content κ ν
  | .set (some key) value =>
    chained.stored funcs.Same map key (((map key).map Prod.fst).getD (funcs.key_copy key), value)
  | .remove (some key) => chained.removed funcs.Same map key
  | _ => map

section lookups

variable {funcs : HashtableFuncs κ} {key : κ} {chain : List (κ × Option ν)} {found : κ × Option ν}

theorem getElem?_passed : chain[passed funcs key chain]? = chained.find funcs.Same key chain := by
  induction chain with
  | nil => rfl
  | cons entry chain ih =>
    rw [chained.find] at ih ⊢
    by_cases hkey : funcs.Same entry.1 key
    · have hzero : funcs.key_cmp entry.1 key = 0 := hkey
      simp [passed, hkey, hzero]
    have hzero : ¬ funcs.key_cmp entry.1 key = 0 := hkey
    simp [passed, hkey, hzero, ih]

theorem set_passed (hfind : chained.find funcs.Same key chain = some found) (pair : κ × Option ν) :
    chain.set (passed funcs key chain) pair = chained.put funcs.Same key pair chain := by
  induction chain with
  | nil => cases hfind
  | cons entry chain ih =>
    by_cases hkey : funcs.Same entry.1 key
    · have hzero : funcs.key_cmp entry.1 key = 0 := hkey
      simp [passed, chained.put, hkey, hzero]
    have hzero : ¬ funcs.key_cmp entry.1 key = 0 := hkey
    have hrest : chained.find funcs.Same key chain = some found := by simpa [chained.find, hkey] using hfind
    simp [passed, chained.put, hkey, hzero, ih hrest]

theorem append_of_not_found (hfind : chained.find funcs.Same key chain = none) (pair : κ × Option ν) :
    chain ++ [pair] = chained.put funcs.Same key pair chain := by
  induction chain with
  | nil => rfl
  | cons entry chain ih =>
    obtain ⟨hkey, hrest⟩ : ¬ funcs.Same entry.1 key ∧ chained.find funcs.Same key chain = none := by
      simpa [chained.find] using hfind
    simp [chained.put, hkey, ih hrest]

theorem eraseIdx_passed : chain.eraseIdx (passed funcs key chain) = chained.erase funcs.Same key chain := by
  induction chain with
  | nil => rfl
  | cons entry chain ih =>
    rw [chained.erase] at ih ⊢
    by_cases hkey : funcs.Same entry.1 key
    · have hzero : funcs.key_cmp entry.1 key = 0 := hkey
      simp [passed, hkey, hzero]
    have hzero : ¬ funcs.key_cmp entry.1 key = 0 := hkey
    simp [passed, hkey, hzero, ih]

end lookups

theorem for_each_entry_true {process_func : κ → Option ν → σ → Bool × σ} {next : κ → Option ν → σ → σ}
    (htrue : ∀ key value arg, process_func key value arg = (true, next key value arg)) (entries : List (κ × Option ν))
    (arg : σ) (count : Nat) : for_each_entry process_func entries arg count =
      (count + entries.length, entries.foldl (fun arg entry => next entry.1 entry.2 arg) arg) := by
  induction entries generalizing arg count with
  | nil => rfl
  | cons entry entries ih =>
    rw [for_each_entry, htrue]
    simp [ih, Nat.add_assoc, Nat.add_comm 1]

section tables

variable {num_buckets : Nat} {funcs : HashtableFuncs κ}

/-- Where the entries of a key are kept. -/
def bucket (funcs : HashtableFuncs κ) (num_buckets : Nat) (key : κ) : Nat := (funcs.hash key).toNat % num_buckets

theorem bucket_congr (hhash : ∀ key other, funcs.Same key other → funcs.hash key = funcs.hash other) (key other : κ)
    (h : funcs.Same key other) : bucket funcs num_buckets key = bucket funcs num_buckets other := by
  rw [bucket, bucket, hhash key other h]

/-- The table keeps a map in its buckets. -/
structure Keeps (funcs : HashtableFuncs κ) (num_buckets : Nat) (table : Hashtable κ ν) (map : Content κ ν) : Prop where
  funcs_eq : table.funcs = funcs
  buckets_eq : table.number_of_buckets = num_buckets
  files : chained.Files funcs.Same (bucket funcs num_buckets) table.entries map

variable {table : Hashtable κ ν} {map : Content κ ν} (h : Keeps funcs num_buckets table map)

include h

theorem Keeps.lookup (key : κ) : ∃ i, table.get_entry_for (some key) = some (bucket funcs num_buckets key, i) ∧
    table.next (bucket funcs num_buckets key, i) = map key ∧
    i = passed funcs key (table.entries (bucket funcs num_buckets key)) := by
  obtain ⟨rfl, rfl, hfiles⟩ := h
  exact ⟨_, rfl, getElem?_passed.trans (hfiles.found key), rfl⟩

theorem Keeps.get_eq (key : Option κ) : table.get key = map.value key := by
  cases key with
  | none => rfl
  | some key =>
    obtain ⟨i, hentry, hnext, -⟩ := h.lookup key
    simp only [get, hentry, hnext, Content.value, Option.bind_some]
    cases map key <;> rfl

theorem Keeps.contains_eq (key : Option κ) : table.contains key = (key.bind map).isSome := by
  cases key with
  | none => rfl
  | some key =>
    obtain ⟨i, hentry, hnext, -⟩ := h.lookup key
    simp [contains, hentry, hnext]

variable (hsame : Equivalence funcs.Same) (hhash : ∀ key other, funcs.Same key other → funcs.hash key = funcs.hash other)
  (hcopy : ∀ key, funcs.Same (funcs.key_copy key) key)

include hsame hhash

theorem Keeps.remove (key : Option κ) : (table.remove key).1 = map.value key ∧
    Keeps funcs num_buckets (table.remove key).2 (after funcs map (.remove key)) := by
  cases key with
  | none => exact ⟨rfl, h⟩
  | some key =>
    obtain ⟨i, hentry, hnext, rfl⟩ := h.lookup key
    have hfiles := h.files.erase hsame key (bucket_congr hhash)
    simp only [Hashtable.remove, hentry, hnext, Content.value, Option.bind_some, after]
    cases hkey : map key with
    | none =>
      refine ⟨rfl, h.funcs_eq, h.buckets_eq, ?_⟩
      rwa [chained.erase_of_not_found ((h.files.found key).trans hkey), Function.update_eq_self] at hfiles
    | some found =>
      refine ⟨rfl, h.funcs_eq, h.buckets_eq, ?_⟩
      rwa [eraseIdx_passed]

include hcopy

theorem Keeps.set (key : Option κ) (value : Option ν) : (table.set key value).1 = map.value key ∧
    Keeps funcs num_buckets (table.set key value).2 (after funcs map (.set key value)) := by
  cases key with
  | none => exact ⟨rfl, h⟩
  | some key =>
    obtain ⟨i, hentry, hnext, rfl⟩ := h.lookup key
    have hfound := h.files.found key
    simp only [Hashtable.set, hentry, hnext, Content.value, Option.bind_some, after]
    cases hkey : map key with
    | none =>
      refine ⟨rfl, h.funcs_eq, h.buckets_eq, ?_⟩
      simp only [append_of_not_found (hfound.trans hkey), h.funcs_eq]
      exact h.files.put hsame (bucket_congr hhash) (hcopy key)
    | some found =>
      refine ⟨rfl, h.funcs_eq, h.buckets_eq, ?_⟩
      simp only [set_passed (hfound.trans hkey)]
      refine h.files.put hsame (bucket_congr hhash) ?_
      exact ((chained.find_eq_some_iff hsame (h.files.distinct _)).mp (hfound.trans hkey)).2

theorem Keeps.step (hpositive : 0 < num_buckets) (call : Call κ ν) :
    Answers funcs map call (step call table).1 ∧
      Keeps funcs num_buckets (Hashtable.step call table).2 (after funcs map call) := by
  match call with
  | .set key value => exact (h.set hsame hhash hcopy key value).imp_left (congrArg Answer.value)
  | .get key => exact ⟨congrArg Answer.value (h.get_eq key), h⟩
  | .contains key => exact ⟨congrArg Answer.found (h.contains_eq key), h⟩
  | .remove key => exact (h.remove hsame hhash key).imp_left (congrArg Answer.value)
  | .for_each =>
    refine ⟨⟨_, h.files.enumerates hsame (bucket_congr hhash) fun key => Nat.mod_lt _ hpositive, ?_⟩, h⟩
    have hnotes (pairs noted : List (κ × Option ν)) :
        pairs.foldl (fun noted entry => noted ++ [(entry.1, entry.2)]) noted = noted ++ pairs := by
      induction pairs generalizing noted with
      | nil => simp
      | cons entry pairs ih => simp [ih]
    rw [Hashtable.step, for_each, for_each_entry_true (fun _ _ _ => rfl)]
    simp [hnotes, h.buckets_eq]

theorem Keeps.run (hpositive : 0 < num_buckets) (calls : List (Call κ ν)) :
    ∃ map, Keeps funcs num_buckets (calls.foldl (fun table call => (Hashtable.step call table).2) table) map := by
  induction calls generalizing table map with
  | nil => exact ⟨map, h⟩
  | cons call calls ih => exact ih (h.step hsame hhash hcopy hpositive call).2

end tables

/-- A table with 1 to 2^32 - 1 buckets answers every call as the map of the calls before it does. -/
theorem table_behaves {num_buckets : Nat} {funcs : HashtableFuncs κ} (hpositive : 0 < num_buckets)
    (hbits : num_buckets < 2 ^ 32) (hsame : Equivalence funcs.Same)
    (hhash : ∀ key other, funcs.Same key other → funcs.hash key = funcs.hash other)
    (hcopy : ∀ key, funcs.Same (funcs.key_copy key) key) :
    ∃ table : Hashtable κ ν, create num_buckets funcs = some table ∧
      (∀ calls, answers.Behaves step (Answers funcs) (after funcs) calls table fun _ => none) ∧
      ∀ (calls : List (Call κ ν)) key entry,
        (calls.foldl (fun table call => (step call table).2) table).get_entry_for key = some entry →
          entry.1 < num_buckets := by
  have hmod : num_buckets % 2 ^ 32 = num_buckets := Nat.mod_eq_of_lt hbits
  have hnew : Keeps (ν := ν) funcs num_buckets ⟨funcs, num_buckets % 2 ^ 32, fun _ => []⟩ fun _ => none :=
    ⟨rfl, hmod, .of_empty (fun _ => rfl) (fun _ => .nil) fun _ _ hmem => absurd hmem not_mem_nil⟩
  refine ⟨_, if_neg (Nat.pos_iff_ne_zero.mp hpositive), fun calls => ?_, fun calls key entry hentry => ?_⟩
  · refine (answers.behaves_iff (Keeps funcs num_buckets) (fun _ _ => True) (fun call table map h => ?_)
      (fun call table map h => (h.step hsame hhash hcopy hpositive call).2) calls hnew).mpr
      (machine.along_of_forall calls (fun _ _ _ => trivial) _)
    exact iff_true_intro (h.step hsame hhash hcopy hpositive call).1
  obtain ⟨map, h⟩ := hnew.run hsame hhash hcopy hpositive calls
  cases key with
  | none => cases hentry
  | some key =>
    obtain ⟨i, hlookup, -⟩ := h.lookup key
    rw [hlookup] at hentry
    obtain rfl := Option.some.inj hentry
    exact Nat.mod_lt _ hpositive

def remainders : HashtableFuncs Nat :=
  ⟨id, fun key other => if key % 4 = other % 4 then 0 else 1, fun key => BitVec.ofNat 64 (key % 4)⟩

theorem table_behaves_remainders : ∃ table : Hashtable Nat Nat, create 3 remainders = some table ∧
    (∀ calls, answers.Behaves step (Answers remainders) (after remainders) calls table fun _ => none) ∧
    ∀ (calls : List (Call Nat Nat)) key entry,
      (calls.foldl (fun table call => (step call table).2) table).get_entry_for key = some entry → entry.1 < 3 := by
  have hiff (key other : Nat) : remainders.Same key other ↔ key % 4 = other % 4 := by
    simp [HashtableFuncs.Same, remainders]
  refine table_behaves (by decide) (by decide) ⟨fun key => (hiff _ _).mpr rfl, fun h => ?_, fun h h' => ?_⟩
    (fun key other h => ?_) fun key => (hiff _ _).mpr rfl
  · exact (hiff _ _).mpr ((hiff _ _).mp h).symm
  · exact (hiff _ _).mpr (((hiff _ _).mp h).trans ((hiff _ _).mp h'))
  · simp [remainders, (hiff _ _).mp h]

end Hashtable

end openvocs
