import Openvocs.Json.Value

open List Option

namespace openvocs

namespace Json

/-- A value without the members of an object. -/
def shallow : Json → Json
  | object _ => object []
  | j => j

/-- What stands at a path. -/
def shown (j : Json) (path : Path) : Option Json := (j.node_at path).map shallow

/-- `ov_json_object_set` on a value that is changed in place. -/
def object_set (key : String) (value j : Json) : Bool × Json := (j.is_object, j.object_put key value)

/-- Goes down a path, with a new object for each key that is absent, and changes the
    value at its end: the common body of `get_set_loop` and `get_set_user`. -/
def get_set (f : Json → Bool × Json) : Path → Json → Bool × Json
  | [], j => f j
  | key :: path, j =>
    match j.object_get key with
    | some child =>
      let (ok, child) := get_set f path child
      (ok, j.object_put key child)
    | none =>
      if j.is_object then
        let (ok, child) := get_set f path (object [])
        (ok, j.object_put key child)
      else (false, j)

/-- The path leads over objects, as far as there is something, to an object. -/
def settable : Path → Json → Bool
  | [], j => j.is_object
  | key :: path, j => j.is_object && settable path ((j.object_get key).getD (object []))

theorem shown_nil (j : Json) : j.shown [] = some j.shallow := rfl

theorem shown_cons (j : Json) (key : String) (path : Path) :
    j.shown (key :: path) = (j.object_get key).bind (fun child => child.shown path) := by
  unfold shown
  cases hget : j.object_get key with
  | none => simp [node_at, hget]
  | some child => simp [node_at, hget]

theorem shown_empty_cons (key : String) (path : Path) : (object []).shown (key :: path) = none := by
  rw [shown_cons]
  rfl

variable {j : Json}

theorem shallow_of_is_object (h : j.is_object = true) : j.shallow = object [] := by
  obtain ⟨members, rfl⟩ := (is_object_iff j).mp h
  rfl

theorem shallow_object_put (j : Json) (key : String) (value : Json) : (j.object_put key value).shallow = j.shallow := by
  cases j <;> rfl

theorem shown_object_put_self (h : j.is_object = true) (key : String) (value : Json) (path : Path) :
    (j.object_put key value).shown (key :: path) = value.shown path := by
  rw [shown_cons, object_get_object_put h, if_pos rfl]
  rfl

theorem shown_object_put_of_ne (j : Json) {key other : String} (h : other ≠ key) (value : Json) (path : Path) :
    (j.object_put key value).shown (other :: path) = j.shown (other :: path) := by
  cases hobject : j.is_object with
  | true => rw [shown_cons, shown_cons, object_get_object_put hobject, if_neg h]
  | false =>
    cases j with
    | object members => simp [is_object] at hobject
    | _ => rfl

theorem settable_empty (path : Path) : settable path (object []) = true := by
  induction path with
  | nil => rfl
  | cons key path ih => exact ih

theorem node_at_of_shown {value : Json} {path : Path} (hvalue : value.is_object = false)
    (h : j.shown path = some value) : j.node_at path = some value := by
  unfold shown at h
  obtain ⟨node, hnode, hshallow⟩ := map_eq_some_iff.mp h
  have hsame : node = value := by
    subst hshallow
    cases node with
    | object members => simp [shallow, is_object] at hvalue
    | _ => rfl
  exact hsame ▸ hnode

theorem shown_above {path rest : Path} {key : String} {value : Json}
    (h : j.node_at (path ++ key :: rest) = some value) : j.shown path = some (object []) := by
  rw [node_at_append] at h
  obtain ⟨node, hnode, hbelow⟩ := bind_eq_some_iff.mp h
  obtain ⟨child, hchild, _⟩ := bind_eq_some_iff.mp hbelow
  unfold shown
  rw [hnode, map_some, shallow_of_is_object (is_object_of_object_get hchild)]

section

variable (key : String) (value : Json)

theorem get_set_ok (path : Path) (j : Json) : (get_set (object_set key value) path j).1 = settable path j := by
  induction path generalizing j with
  | nil => rfl
  | cons first path ih =>
    unfold get_set settable
    cases hget : j.object_get first with
    | some child => simp [ih, is_object_of_object_get hget]
    | none =>
      cases hobject : j.is_object with
      | true => simp [ih]
      | false => simp

variable {j : Json}

theorem get_set_cons {first : String} (h : j.is_object = true) (f : Json → Bool × Json) (path : Path) :
    (get_set f (first :: path) j).2 =
      j.object_put first (get_set f path ((j.object_get first).getD (object []))).2 := by
  simp only [get_set]
  cases j.object_get first with
  | some child => rfl
  | none => simp [h]

theorem get_set_not_object {first : String} (h : j.is_object = false) (f : Json → Bool × Json)
    (path : Path) : get_set f (first :: path) j = (false, j) := by
  cases j with
  | object members => simp [is_object] at h
  | _ => rfl

theorem get_set_below (path : Path) (h : settable path j = true) (rest : Path) :
    (get_set (object_set key value) path j).2.node_at (path ++ key :: rest) = value.node_at rest := by
  induction path generalizing j with
  | nil =>
    have hobject : j.is_object = true := h
    simp [get_set, object_set, node_at, object_get_object_put hobject]
  | cons first path ih =>
    simp only [settable, Bool.and_eq_true] at h
    rw [get_set_cons h.1, List.cons_append, node_at, object_get_object_put h.1, if_pos rfl]
    exact ih h.2

theorem get_set_above (path : Path) {other : Path} (h : settable path j = true) (habove : other <+: path) :
    (get_set (object_set key value) path j).2.shown other = some (object []) := by
  obtain ⟨rest, rfl⟩ := habove
  cases hrest : rest ++ [key] with
  | nil => simp at hrest
  | cons first tail =>
    have hbelow := get_set_below key value (other ++ rest) h []
    rw [append_assoc, hrest] at hbelow
    exact shown_above hbelow

theorem get_set_beside {f : Json → Bool × Json} {path other : Path} (j : Json) (habove : ¬ other <+: path)
    (hbelow : ∀ j rest, other = path ++ rest → (f j).2.shown rest = j.shown rest) :
    (get_set f path j).2.shown other = j.shown other := by
  induction path generalizing j other with
  | nil => exact hbelow j other rfl
  | cons first path ih =>
    cases hobject : j.is_object with
    | false => rw [get_set_not_object hobject]
    | true =>
      rw [get_set_cons hobject]
      cases other with
      | nil => exact absurd nil_prefix habove
      | cons head other =>
        by_cases hhead : head = first
        · subst hhead
          have hrest : ¬ other <+: path := by
            intro hprefix
            exact habove (cons_prefix_cons.mpr ⟨rfl, hprefix⟩)
          rw [shown_object_put_self hobject, ih _ hrest]
          · rw [shown_cons]
            cases hget : j.object_get head with
            | some child => rfl
            | none =>
              cases other with
              | nil => exact absurd nil_prefix hrest
              | cons next other => exact shown_empty_cons next other
          intro j rest hother
          exact hbelow j rest (by rw [hother, List.cons_append])
        · exact shown_object_put_of_ne j hhead _ other

theorem get_set_unrelated {path other : Path} (j : Json) (habove : ¬ other <+: path)
    (hbelow : ¬ path ++ [key] <+: other) :
    (get_set (object_set key value) path j).2.shown other = j.shown other := by
  apply get_set_beside j habove
  intro j rest hother
  cases rest with
  | nil =>
    rw [hother, List.append_nil] at habove
    exact absurd (prefix_refl path) habove
  | cons head rest =>
    apply shown_object_put_of_ne
    rintro rfl
    apply hbelow
    exact ⟨rest, by rw [hother, append_assoc, singleton_append]⟩

theorem get_set_refused (path : Path) (h : settable path j = false) (other : Path) :
    (get_set (object_set key value) path j).2.shown other = j.shown other := by
  induction path generalizing j other with
  | nil =>
    have hobject : j.is_object = false := h
    cases j with
    | object members => simp [is_object] at hobject
    | _ => rfl
  | cons first path ih =>
    cases hobject : j.is_object with
    | false => rw [get_set_not_object hobject]
    | true =>
      simp only [settable, hobject, Bool.true_and] at h
      rw [get_set_cons hobject]
      cases other with
      | nil => rw [shown_nil, shown_nil, shallow_object_put]
      | cons head other =>
        by_cases hhead : head = first
        · subst hhead
          rw [shown_object_put_self hobject, ih h, shown_cons]
          cases hget : j.object_get head with
          | some child => rfl
          | none =>
            rw [hget, getD_none, settable_empty] at h
            exact absurd h (by decide)
        · exact shown_object_put_of_ne j hhead _ other

theorem get_set_stored (path : Path) (h : j.node_at (path ++ [key]) = some value) (other : Path) :
    (get_set (object_set key value) path j).2.shown other = j.shown other := by
  cases hok : settable path j with
  | false => exact get_set_refused key value path hok other
  | true =>
    by_cases habove : other <+: path
    · rw [get_set_above key value path hok habove]
      obtain ⟨rest, rfl⟩ := habove
      cases hrest : rest ++ [key] with
      | nil => simp at hrest
      | cons first tail =>
        rw [append_assoc, hrest] at h
        exact (shown_above h).symm
    by_cases hbelow : path ++ [key] <+: other
    · obtain ⟨rest, rfl⟩ := hbelow
      unfold shown
      rw [append_assoc, singleton_append, get_set_below key value path hok rest]
      have hsame : j.node_at (path ++ key :: rest) = value.node_at rest := by
        rw [show path ++ key :: rest = path ++ [key] ++ rest by simp, node_at_append, h]
        rfl
      rw [hsame]
    · exact get_set_unrelated key value j habove hbelow

end

theorem is_object_of_shown_nil (h : j.shown [] = some (object [])) : j.is_object = true := by
  revert h
  rw [shown_nil]
  cases j <;> simp [shallow, is_object]

theorem settable_of_shown {path : Path}
    (h : ∀ above, above <+: path → ∀ v, j.shown above = some v → v = object []) : settable path j = true := by
  induction path generalizing j with
  | nil =>
    have hself := h [] (prefix_refl _) _ (shown_nil j)
    exact is_object_of_shown_nil (by rw [shown_nil, hself])
  | cons key path ih =>
    have hself := h [] nil_prefix _ (shown_nil j)
    have hobject : j.is_object = true := is_object_of_shown_nil (by rw [shown_nil, hself])
    simp only [settable, hobject, Bool.true_and]
    cases hget : j.object_get key with
    | none => exact settable_empty path
    | some child =>
      apply ih
      intro above habove v hv
      apply h (key :: above) (cons_prefix_cons.mpr ⟨rfl, habove⟩) v
      rw [shown_cons, hget]
      exact hv

end Json

end openvocs
