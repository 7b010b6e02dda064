import Mathlib.Algebra.Group.Nat.Defs
import Openvocs.Lib.Assoc

namespace openvocs

/-- A JSON value. The members of an object stand in the order in which
    `ov_dict_for_each` visits them; numbers are the integers among them. -/
inductive Json where
  | null
  | bool (value : Bool)
  | number (value : Int)
  | string (value : String)
  | array (items : List Json)
  | object (members : List (String × Json))
  deriving Repr, Inhabited

/-- The keys that lead from a value down to one of its nodes. -/
abbrev Path := List String

/-- `PEARSON_PERMUTATION_TABLE` of `ov_hash_functions.c`. -/
def pearson_permutation_table : List Nat :=
  [98, 6, 85, 150, 36, 23, 112, 164, 135, 207, 169, 5, 26, 64, 165, 219,
   61, 20, 68, 89, 130, 63, 52, 102, 24, 229, 132, 245, 80, 216, 195, 115,
   90, 168, 156, 203, 177, 120, 2, 190, 188, 7, 100, 185, 174, 243, 162, 10,
   237, 18, 253, 225, 8, 208, 172, 244, 255, 126, 101, 79, 145, 235, 228, 121,
   123, 251, 67, 250, 161, 0, 107, 97, 241, 111, 181, 82, 249, 33, 69, 55,
   59, 153, 29, 9, 213, 167, 84, 93, 30, 46, 94, 75, 151, 114, 73, 222,
   197, 96, 210, 45, 16, 227, 248, 202, 51, 152, 252, 125, 81, 206, 215, 186,
   39, 158, 178, 187, 131, 136, 1, 49, 50, 17, 141, 91, 47, 129, 60, 99,
   154, 35, 86, 171, 105, 34, 38, 200, 147, 58, 77, 118, 173, 246, 76, 254,
   133, 232, 196, 144, 198, 124, 53, 4, 108, 74, 223, 234, 134, 230, 157, 139,
   189, 205, 199, 128, 176, 19, 211, 236, 127, 192, 231, 70, 233, 88, 146, 44,
   183, 201, 22, 83, 13, 214, 116, 109, 159, 32, 95, 226, 140, 220, 57, 12,
   221, 31, 209, 182, 143, 92, 149, 184, 148, 62, 113, 65, 37, 27, 106, 166,
   3, 14, 204, 72, 21, 41, 56, 66, 28, 193, 40, 217, 25, 54, 179, 117,
   238, 87, 240, 155, 180, 170, 242, 212, 191, 163, 78, 218, 137, 194, 175, 110,
   43, 119, 224, 71, 122, 142, 42, 160, 104, 48, 247, 103, 15, 11, 138, 239]

def hash_pearson_c_string (s : String) : Nat :=
  s.toUTF8.toList.foldl (fun h c => pearson_permutation_table.getD (h ^^^ c.toNat) 0) 0

/-- The slot of a key in a dictionary with that many slots. -/
def dict_slot (slots : Nat) (key : String) : Nat :=
  hash_pearson_c_string key % slots

/-- The slot of a member of an object: `DEFAULT_DICT_KEYS` slots. -/
def object_slot : String → Nat := dict_slot 100

namespace Json

def is_object : Json → Bool
  | object _ => true
  | _ => false

/-- The members `ov_json_object_for_each` visits; `none` when it refuses the
    value because it is not an object. -/
def object_entries : Json → Option (List (String × Json))
  | object members => some (assoc.entries members)
  | _ => none

/-- `ov_json_object_get`, and `ov_json_get` with a pointer of one token. -/
def object_get : Json → String → Option Json
  | object members, key => members.lookup key
  | _, _ => none

/-- The object after `ov_json_object_set`; another value stays as it is. -/
def object_put : Json → String → Json → Json
  | object members, key, value => object (assoc.put object_slot key value members)
  | j, _, _ => j

/-- The object after `ov_json_object_del`; another value stays as it is. -/
def object_erase : Json → String → Json
  | object members, key => object (assoc.erase key members)
  | j, _ => j

def string_get : Json → Option String
  | string s => some s
  | _ => none

/-- `ov_json_object_for_each` with a callback that changes a state. -/
def object_for_each {σ : Type} (f : String → Json → σ → Option (Bool × σ)) (j : Json) (s : σ) :
    Option (Bool × σ) :=
  match j.object_entries with
  | some members => assoc.walk f members s
  | none => some (false, s)

/-- The node a path leads to. -/
def node_at : Json → Path → Option Json
  | j, [] => some j
  | j, key :: rest => (j.object_get key).bind (fun child => child.node_at rest)

/-- Changes the node a path leads to. -/
def update_at (f : Json → Json) : Path → Json → Json
  | [], j => f j
  | key :: rest, j =>
    match j.object_get key with
    | none => j
    | some child => j.object_put key (update_at f rest child)

variable (j : Json)

theorem is_object_iff : j.is_object = true ↔ ∃ members, j = object members := by
  cases j <;> simp [is_object]

theorem is_object_of_object_get {j child : Json} {key : String} (h : j.object_get key = some child) :
    j.is_object = true := by
  cases j <;> simp_all [object_get, is_object]

@[simp] theorem is_object_object_put (key : String) (value : Json) :
    (j.object_put key value).is_object = j.is_object := by
  cases j <;> rfl

@[simp] theorem is_object_object_erase (key : String) :
    (j.object_erase key).is_object = j.is_object := by
  cases j <;> rfl

theorem object_get_object_put {j : Json} (hobject : j.is_object = true) (key : String) (value : Json)
    (other : String) :
    (j.object_put key value).object_get other = if other = key then some value else j.object_get other := by
  obtain ⟨members, rfl⟩ := (is_object_iff j).mp hobject
  exact assoc.lookup_put object_slot key value members other

theorem object_get_object_erase (key other : String) :
    (j.object_erase key).object_get other = if other = key then none else j.object_get other := by
  cases j with
  | object members => exact assoc.lookup_erase key members other
  | _ => simp [object_get, object_erase]

theorem mem_object_entries {j : Json} {members : List (String × Json)}
    (h : j.object_entries = some members) (key : String) (value : Json) :
    (key, value) ∈ members ↔ j.object_get key = some value := by
  cases j <;> simp only [object_entries, Option.some.injEq, reduceCtorEq] at h
  subst h
  exact assoc.mem_entries_iff _ key value

theorem object_entries_isSome : j.object_entries.isSome = j.is_object := by
  cases j <;> rfl

theorem node_at_append (path rest : Path) :
    j.node_at (path ++ rest) = (j.node_at path).bind (fun child => child.node_at rest) := by
  induction path generalizing j with
  | nil => rfl
  | cons key path ih =>
    simp only [List.cons_append, node_at]
    cases j.object_get key with
    | none => rfl
    | some child => exact ih child

theorem node_at_singleton (key : String) : j.node_at [key] = j.object_get key := by
  simp [node_at]

theorem node_at_update_at_append (f : Json → Json) (path rest : Path) (j : Json) :
    (update_at f path j).node_at (path ++ rest) =
      (j.node_at path).bind (fun child => (f child).node_at rest) := by
  induction path generalizing j with
  | nil => rfl
  | cons key path ih =>
    simp only [update_at, List.cons_append, node_at]
    cases hget : j.object_get key with
    | none => simp [hget]
    | some child =>
      simp only [object_get_object_put (is_object_of_object_get hget), if_true, Option.bind_some]
      exact ih child

theorem node_at_update_at_of_not_below (f : Json → Json) {path other : Path} (h : ¬ path <+: other)
    (j : Json) :
    (update_at f path j).node_at other = (j.node_at other).map (fun child =>
      if other <+: path then update_at f (path.drop other.length) child else child) := by
  induction path generalizing j other with
  | nil => exact absurd (List.nil_prefix) h
  | cons key path ih =>
    cases other with
    | nil => simp [node_at]
    | cons first other =>
      simp only [update_at, node_at]
      cases hget : j.object_get key with
      | none =>
        by_cases hfirst : first = key
        · simp [hfirst, hget]
        have hne : ¬ (first :: other <+: key :: path) := by simp [List.cons_prefix_cons, hfirst]
        simp [hne]
      | some child =>
        simp only [object_get_object_put (is_object_of_object_get hget)]
        by_cases hfirst : first = key
        · subst hfirst
          have hrest : ¬ path <+: other := by simpa [List.cons_prefix_cons] using h
          simp [hget, ih hrest]
        have hne : ¬ (first :: other <+: key :: path) := by simp [List.cons_prefix_cons, hfirst]
        simp [hfirst, hne]

theorem is_object_update_at {f : Json → Json} (hf : ∀ j, (f j).is_object = j.is_object) (path : Path)
    (j : Json) : (update_at f path j).is_object = j.is_object := by
  induction path generalizing j with
  | nil => exact hf j
  | cons key path ih =>
    unfold update_at
    split
    · rfl
    · exact is_object_object_put _ _ _

theorem node_at_update_at_isSome (f : Json → Json) {path other : Path} (h : ¬ path <+: other)
    (j : Json) : ((update_at f path j).node_at other).isSome = (j.node_at other).isSome := by
  simp [node_at_update_at_of_not_below f h]

end Json

end openvocs
