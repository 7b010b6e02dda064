import Openvocs.VocsDb.LoopExport
import Openvocs.VocsDb.Placed

open Option

namespace openvocs.vocs_db

/-- A copy without some of its members. -/
def strip (keys : List String) (val : Json) : Json := keys.foldl (fun copy key => copy.object_erase key) val

/-- `parent` of a node of the tree. -/
def parent_of : Path → Option Path
  | [] => none
  | key :: path => some (key :: path).dropLast

/-- The members that are not exported of a loop, and of its domain and project. -/
def hidden_of_loop : List String := ["roles", "users", "sip"]

def hidden_of_scope : List String := ["projects", "loops", "roles", "users"]

/-- Sets the copy of a domain or project in the exported loop, if there is one. -/
def put_scope (key : String) (scope : Option Path) (db : Db) (copy : Json) : Json :=
  match scope.bind db.node with
  | some val => copy.object_put key (strip hidden_of_scope val)
  | none => copy

/-- `project` and `domain` of `add_loop_and_domain_to_result` for the object that holds
    the object with the loop. -/
def project_and_domain (project_or_domain : Path) : Option Path × Option Path :=
  match parent_of project_or_domain with
  | some domain_projects => (some project_or_domain, parent_of domain_projects)
  | none => (none, some project_or_domain)

/-- `add_loop_and_domain_to_result`. A node outside of the tree has no parents. -/
def add_loop_and_domain_to_result (db : Db) (_key : String) (loop : Ptr) : Option (Option Json) :=
  (db.read loop).map fun val =>
    let copy := strip hidden_of_loop val
    match loop with
    | .node path =>
      match (parent_of path).bind parent_of with
      | none => some copy
      | some project_or_domain =>
        let (project, domain) := project_and_domain project_or_domain
        some (put_scope "project" project db (put_scope "domain" domain db copy))
    | _ => some copy

def get_all_loops_incl_domain (db : Db) : Option Json := export_loops (add_loop_and_domain_to_result db) db

/-- Where a loop is: in a domain, or in a project of a domain. -/
inductive LoopPlace where
  | domain (domain : String)
  | project (domain project : String)

def LoopPlace.domain_path : LoopPlace → Path
  | .domain id => [id]
  | .project id _ => [id]

def LoopPlace.project_path : LoopPlace → Option Path
  | .domain _ => none
  | .project id project_id => some [id, "projects", project_id]

/-- The place of the node of a loop. -/
def LoopPlace.path (place : LoopPlace) (loop : String) : Path :=
  (place.project_path.getD place.domain_path) ++ ["loops", loop]

/-- The entry of a loop in the result shows its domain and its project, and nothing of
    the members that are not exported. -/
structure ShowsPlace (db : Db) (place : LoopPlace) (entry : Json) : Prop where
  domain : entry.object_get "domain" = (db.node place.domain_path).map (strip hidden_of_scope)
  project : entry.object_get "project" = (place.project_path.bind db.node).map (strip hidden_of_scope)
  hidden : ∀ key ∈ hidden_of_loop, entry.object_get key = none

section

variable {keys : List String}

theorem object_get_strip (val : Json) (key : String) :
    (strip keys val).object_get key = if key ∈ keys then none else val.object_get key := by
  induction keys generalizing val with
  | nil => simp [strip]
  | cons first keys ih =>
    have hcons : strip (first :: keys) val = strip keys (val.object_erase first) := rfl
    rw [hcons, ih, Json.object_get_object_erase]
    by_cases hfirst : key = first
    · simp [hfirst]
    · simp [hfirst]

@[simp] theorem is_object_strip (val : Json) : (strip keys val).is_object = val.is_object := by
  induction keys generalizing val with
  | nil => rfl
  | cons first keys ih =>
    have hcons : strip (first :: keys) val = strip keys (val.object_erase first) := rfl
    rw [hcons, ih, Json.is_object_object_erase]

end

section

variable {db : Db}

@[simp] theorem is_object_put_scope (key : String) (scope : Option Path) (copy : Json) :
    (put_scope key scope db copy).is_object = copy.is_object := by
  unfold put_scope
  split
  · rw [Json.is_object_object_put]
  · rfl

theorem object_get_put_scope {key : String} {scope : Option Path} {copy : Json} (h : copy.is_object = true)
    (other : String) :
    (put_scope key scope db copy).object_get other =
      if other = key ∧ (scope.bind db.node).isSome then (scope.bind db.node).map (strip hidden_of_scope)
      else copy.object_get other := by
  unfold put_scope
  cases scope.bind db.node with
  | none => simp
  | some val => simp [Json.object_get_object_put h]

theorem parents_of_domain_loop (domain loop : String) :
    (parent_of [domain, "loops", loop]).bind parent_of = some [domain] := rfl

theorem parents_of_project_loop (domain project loop : String) :
    (parent_of [domain, "projects", project, "loops", loop]).bind parent_of = some [domain, "projects", project] := rfl

theorem project_loop_shows {domain project loop : String} {val : Json}
    (hnode : db.node [domain, "projects", project, "loops", loop] = some val) (hobject : val.is_object = true) :
    ∃ entry, add_loop_and_domain_to_result db loop (.node [domain, "projects", project, "loops", loop]) =
        some (some entry) ∧ ShowsPlace db (.project domain project) entry := by
  have hhas : db.has [domain, "projects", project, "loops", loop] := isSome_iff_exists.mpr ⟨val, hnode⟩
  have hproject : db.has [domain, "projects", project] := Db.has_of_below ⟨["loops", loop], rfl⟩ hhas
  have hdomain : db.has [domain] := Db.has_of_below ⟨["projects", project, "loops", loop], rfl⟩ hhas
  have hread : db.read (.node [domain, "projects", project, "loops", loop]) = some val := hnode
  have hcopy : (strip hidden_of_loop val).is_object = true := by rw [is_object_strip, hobject]
  have hcopy' : (put_scope "domain" (some [domain]) db (strip hidden_of_loop val)).is_object = true := by
    rw [is_object_put_scope, hcopy]
  refine ⟨put_scope "project" (some [domain, "projects", project]) db
    (put_scope "domain" (some [domain]) db (strip hidden_of_loop val)), ?_, ?_, ?_, ?_⟩
  · simp only [add_loop_and_domain_to_result, hread, map_some, parents_of_project_loop]
    rfl
  · rw [object_get_put_scope hcopy', if_neg (by simp), object_get_put_scope hcopy, if_pos ⟨rfl, hdomain⟩]
    rfl
  · rw [object_get_put_scope hcopy', if_pos ⟨rfl, hproject⟩]
    rfl
  intro key hkey
  have hne : key ≠ "project" ∧ key ≠ "domain" := by
    constructor
    · rintro rfl
      exact absurd hkey (by decide)
    rintro rfl
    exact absurd hkey (by decide)
  rw [object_get_put_scope hcopy', if_neg (fun h => hne.1 h.1), object_get_put_scope hcopy,
    if_neg (fun h => hne.2 h.1), object_get_strip, if_pos hkey]

theorem domain_loop_entry {domain loop : String} {val : Json} (hnode : db.node [domain, "loops", loop] = some val) :
    add_loop_and_domain_to_result db loop (.node [domain, "loops", loop]) =
      some (some (put_scope "project" (some [domain]) db (strip hidden_of_loop val))) := by
  have hread : db.read (.node [domain, "loops", loop]) = some val := hnode
  simp only [add_loop_and_domain_to_result, hread, map_some, parents_of_domain_loop]
  rfl

theorem domain_loop_not_shows {domain loop : String} {val : Json} (hnode : db.node [domain, "loops", loop] = some val) :
    ¬ ShowsPlace db (.domain domain) (put_scope "project" (some [domain]) db (strip hidden_of_loop val)) := by
  have hhas : db.has [domain, "loops", loop] := isSome_iff_exists.mpr ⟨val, hnode⟩
  have hdomain : db.has [domain] := Db.has_of_below ⟨["loops", loop], rfl⟩ hhas
  obtain ⟨scope, hscope⟩ := isSome_iff_exists.mp hdomain
  intro h
  have hentry : (put_scope "project" (some [domain]) db (strip hidden_of_loop val)).is_object = true := by
    have hget := h.domain
    rw [LoopPlace.domain_path, hscope, map_some] at hget
    exact Json.is_object_of_object_get hget
  rw [is_object_put_scope] at hentry
  have hproject := h.project
  rw [object_get_put_scope hentry, if_pos ⟨rfl, hdomain⟩] at hproject
  simp [hscope, LoopPlace.project_path] at hproject

end

/-- The exported list shows a loop at its place. -/
def ShownAtPlace (db : Db) (loop : String) : Prop :=
  ∃ result entry place, get_all_loops_incl_domain db = some result ∧ result.object_get loop = some entry ∧
    db.index_get .loop loop = some (.node (LoopPlace.path place loop)) ∧ ShowsPlace db place entry

theorem add_loop_and_domain_isSome_iff (db : Db) (loop : String) (ptr : Ptr) :
    (add_loop_and_domain_to_result db loop ptr).isSome = true ↔ (db.read ptr).isSome = true := by
  simp [add_loop_and_domain_to_result]

theorem node_of_indexed {db : Db} {loop : String} {path : Path} {result : Json}
    (h : get_all_loops_incl_domain db = some result) (hget : db.index_get .loop loop = some (.node path)) :
    ∃ val, db.node path = some val := by
  have hdefined := export_loops_spec.mp (isSome_iff_exists.mpr ⟨result, h⟩) loop _ hget
  exact isSome_iff_exists.mp ((add_loop_and_domain_isSome_iff db loop _).mp hdefined)

/-- For every database and every loop of the index: the entry of the loop shows its
    domain and its project if and only if the loop is an object in a project, and no
    loop of the index has been freed. A loop of a domain is never shown right. -/
theorem loop_shown_at_place_iff (db : Db) (loop : String) {ptr : Ptr} (hptr : db.index_get .loop loop = some ptr) :
    ShownAtPlace db loop ↔
      (∀ other ptr, db.index_get .loop other = some ptr → (db.read ptr).isSome = true) ∧
        (∃ domain project, ptr = .node [domain, "projects", project, "loops", loop]) ∧
        (db.read ptr).any Json.is_object = true := by
  constructor
  · rintro ⟨result, entry, place, hresult, hentry, hget, hshows⟩
    have hread : ∀ other ptr, db.index_get .loop other = some ptr → (db.read ptr).isSome = true := by
      intro other ptr hother
      have hdefined := export_loops_spec.mp (isSome_iff_exists.mpr ⟨result, hresult⟩) other ptr hother
      exact (add_loop_and_domain_isSome_iff db other ptr).mp hdefined
    obtain rfl := some.inj (hptr.symm.trans hget)
    rw [object_get_export_loops hresult, hget] at hentry
    obtain ⟨val, hval⟩ := node_of_indexed hresult hget
    cases place with
    | domain domain =>
      -- the parent of the domain is taken for the projects of a domain
      have hmade := @domain_loop_entry db domain loop val hval
      have hsame : some (put_scope "project" (some [domain]) db (strip hidden_of_loop val)) = some entry := by
        simpa [LoopPlace.path, LoopPlace.project_path, LoopPlace.domain_path, hmade] using hentry
      cases hsame
      exact absurd hshows (domain_loop_not_shows hval)
    | project domain project =>
      refine ⟨hread, ⟨domain, project, rfl⟩, ?_⟩
      have hnode : db.read (.node (LoopPlace.path (.project domain project) loop)) = some val := hval
      rw [hnode, any_some]
      have hhas : db.has [domain, "projects", project, "loops", loop] := isSome_iff_exists.mpr ⟨val, hval⟩
      have hdomain : db.has [domain] := Db.has_of_below ⟨["projects", project, "loops", loop], rfl⟩ hhas
      obtain ⟨scope, hscope⟩ := isSome_iff_exists.mp hdomain
      have hobject : entry.is_object = true := by
        have hshown := hshows.domain
        rw [LoopPlace.domain_path, hscope, map_some] at hshown
        exact Json.is_object_of_object_get hshown
      have hsame : some (put_scope "project" (some [domain, "projects", project]) db
          (put_scope "domain" (some [domain]) db (strip hidden_of_loop val))) = some entry := by
        rw [← hentry]
        simp only [bind_some, add_loop_and_domain_to_result, hnode, map_some, join_some]
        rfl
      cases hsame
      simpa using hobject
  · rintro ⟨hread, ⟨domain, project, rfl⟩, hobject⟩
    obtain ⟨val, hval, hobject⟩ := (Option.any_eq_true _ _).mp hobject
    obtain ⟨entry, hmade, hshows⟩ := project_loop_shows hval hobject
    have hdefined : (get_all_loops_incl_domain db).isSome = true := by
      refine export_loops_spec.mpr (fun other ptr hother => ?_)
      exact (add_loop_and_domain_isSome_iff db other ptr).mpr (hread other ptr hother)
    obtain ⟨result, hresult⟩ := isSome_iff_exists.mp hdefined
    refine ⟨result, entry, .project domain project, hresult, ?_, hptr, hshows⟩
    rw [object_get_export_loops hresult, hptr]
    simp [hmade]

def one_project_loop : Db where
  domains := some (.object [("d", .object [("projects", .object [("p", .object [("loops",
    .object [("l", .object [])])])])])])
  index
    | .loop => [("l", .node ["d", "projects", "p", "loops", "l"])]
    | _ => []

theorem loop_shown_at_place_iff_one : ShownAtPlace one_project_loop "l" ↔
      (∀ other ptr, one_project_loop.index_get .loop other = some ptr → (one_project_loop.read ptr).isSome = true) ∧
        (∃ domain project, Ptr.node ["d", "projects", "p", "loops", "l"] =
          .node [domain, "projects", project, "loops", "l"]) ∧
        (one_project_loop.read (.node ["d", "projects", "p", "loops", "l"])).any Json.is_object = true :=
  loop_shown_at_place_iff one_project_loop "l" rfl

/-- The loop of a domain is exported with the domain as its project and without a
    domain. -/
theorem domain_exported_as_project :
    ((inject_auth (.object [("d", .object [("name", .string "D"), ("loops", .object [("l", .object [])])])])
        Db.empty).bind fun next => get_all_loops_incl_domain next.2).any (fun result =>
      decide ((result.node_at ["l", "project", "name"]).bind Json.string_get = some "D") &&
        (result.node_at ["l", "domain"]).isNone) = true := by
  decide +kernel

end openvocs.vocs_db
