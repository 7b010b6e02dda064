import Openvocs.VocsDb.Sip

open List Option

namespace openvocs.vocs_db

open Json assoc

/-- The whitelist of a loop in an object with loops. -/
def whitelist_of (loops : Json) (id : String) : Option Json :=
  ((loops.object_get id).bind (fun loop => loop.object_get "sip")).bind (fun sip => sip.object_get "whitelist")

def whitelisted (loops : Json) (id : String) : List Json := ((whitelist_of loops id).map Json.array_items).getD []

/-- All whitelists are arrays of permissions that can be read. -/
def ValidWhitelists (loops : Json) : Prop :=
  ∀ id whitelist, whitelist_of loops id = some whitelist →
    ∃ items, whitelist = .array items ∧ ∀ item ∈ items, (sip_permission_from_json item).isSome

/-- An old permission equals a new one. -/
def same_permission (old new : Json) : Bool :=
  (sip_permission_from_json old).any fun p => (sip_permission_from_json new).any fun q => sip_permission_equals p q

/-- The old permissions that equal no new one. -/
def dropped (old new : List Json) : List Json := old.filter (fun item => !new.any (same_permission item))

/-- What `*out` says about a loop. -/
structure LoopDiff where
  permit : Option Json := none
  revoke : List Json := []

def diff_of (loopdata : Json) : LoopDiff where
  permit := loopdata.object_get "permit"
  revoke := ((loopdata.object_get "revoke").map Json.array_items).getD []

def diff (out : Processing) (id : String) : LoopDiff := (((processing_object out).object_get id).map diff_of).getD {}

/-- `*out` is an object with objects. -/
structure AllObjects (out : Processing) : Prop where
  is_object : (processing_object out).is_object = true
  loopdata : ∀ id data, (processing_object out).object_get id = some data → data.is_object = true

section

variable {old new : Json} {out : Processing} {id loop : String}

variable {loopdata : Json}

theorem AllObjects.processing_put (h : AllObjects out) (loop : String)
    (hdata : loopdata.is_object = true) : AllObjects (processing_put out loop loopdata) where
  is_object := by
    rw [processing_object, vocs_db.processing_put, getD_some, is_object_object_put]
    exact h.is_object
  loopdata id data hget := by
    rw [processing_object, vocs_db.processing_put, getD_some, object_get_object_put h.is_object] at hget
    split at hget
    · cases hget
      exact hdata
    · exact h.loopdata id data hget

theorem diff_processing_put (h : AllObjects out) (loop : String) (loopdata : Json) (id : String) :
    diff (processing_put out loop loopdata) id = if id = loop then diff_of loopdata else diff out id := by
  rw [diff, processing_object, processing_put, getD_some, object_get_object_put h.is_object]
  split
  · rfl
  · rfl

theorem diff_of_put_permit (h : loopdata.is_object = true) (whitelist : Json) :
    diff_of (loopdata.object_put "permit" whitelist) = { diff_of loopdata with permit := some whitelist } := by
  simp [diff_of, object_get_object_put h]

theorem diff_of_put_revoke (h : loopdata.is_object = true) (items : List Json) :
    diff_of (loopdata.object_put "revoke" (.array items)) = { diff_of loopdata with revoke := items } := by
  simp [diff_of, object_get_object_put h, Json.array_items]

variable {items : List Json}

theorem found_eq_any {item : Json} (hitem : (sip_permission_from_json item).isSome)
    (hitems : ∀ new ∈ items, (sip_permission_from_json new).isSome) (found : Bool) :
    items.foldlM (fun found new => do
      let old_permission ← sip_permission_from_json item
      let new_permission ← sip_permission_from_json new
      pure (found || sip_permission_equals old_permission new_permission)) found =
    some (found || items.any (same_permission item)) := by
  obtain ⟨p, hp⟩ := isSome_iff_exists.mp hitem
  induction items generalizing found with
  | nil => simp
  | cons new rest ih =>
    obtain ⟨q, hq⟩ := isSome_iff_exists.mp (hitems new mem_cons_self)
    have hrest := ih (fun other hmem => hitems other (mem_cons_of_mem _ hmem)) (found || sip_permission_equals p q)
    have hsame : same_permission item new = sip_permission_equals p q := by simp [same_permission, hp, hq]
    rw [foldlM_cons, any_cons, hsame, ← Bool.or_assoc, ← hrest]
    simp [hp, hq]

theorem revoke_calls_eq {item loopdata : Json} (hitem : (sip_permission_from_json item).isSome)
    (hpermit : loopdata.object_get "permit" = some (.array items))
    (hitems : ∀ new ∈ items, (sip_permission_from_json new).isSome) :
    revoke_calls item loopdata = some
      (if items.any (same_permission item) then loopdata
       else loopdata.object_put "revoke" (.array ((diff_of loopdata).revoke ++ [item]))) := by
  simp only [revoke_calls, hpermit, map_some, Json.array_items, getD_some, found_eq_any hitem hitems false,
    Bool.false_or, some.injEq]
  rfl

theorem revoke_all_spec (hitems : ∀ new ∈ items, (sip_permission_from_json new).isSome)
    {olds : List Json} (holds : ∀ item ∈ olds, (sip_permission_from_json item).isSome)
    (hobject : loopdata.is_object = true) (hpermit : loopdata.object_get "permit" = some (.array items)) :
    (revoke_all olds loopdata).is_object = true ∧
      diff_of (revoke_all olds loopdata) = ⟨some (.array items), (diff_of loopdata).revoke ++ dropped olds items⟩ := by
  induction olds generalizing loopdata with
  | nil => simp [revoke_all, hobject, diff_of, hpermit, dropped]
  | cons item rest ih =>
    have hrest := fun other hmem => holds other (mem_cons_of_mem _ hmem)
    rw [revoke_all, revoke_calls_eq (holds item mem_cons_self) hpermit hitems]
    cases hany : items.any (same_permission item) with
    | true =>
      obtain ⟨hobject', hdiff⟩ := ih hrest hobject hpermit
      refine ⟨hobject', hdiff.trans ?_⟩
      simp [dropped, hany]
    | false =>
      have hput : (loopdata.object_put "revoke" (.array ((diff_of loopdata).revoke ++ [item]))).object_get "permit" =
          some (.array items) := by
        rw [object_get_object_put hobject, if_neg (by decide)]
        exact hpermit
      obtain ⟨hobject', hdiff⟩ := ih hrest (by rwa [is_object_object_put]) hput
      refine ⟨hobject', hdiff.trans ?_⟩
      rw [diff_of_put_revoke hobject]
      simp [dropped, hany]

end

/-- A function on `*out` that changes the data of each loop by another function. -/
structure Changes (g : Processing → Processing) (change : String → LoopDiff → LoopDiff) : Prop where
  objects : ∀ out, AllObjects out → AllObjects (g out)
  diff_eq : ∀ out, AllObjects out → ∀ id, diff (g out) id = change id (diff out id)

/-- A change of some loops. -/
def on_loops (ids : List String) (change : String → LoopDiff → LoopDiff) (id : String) (d : LoopDiff) : LoopDiff :=
  if id ∈ ids then change id d else d

theorem Changes.comp {g g' : Processing → Processing} {change change' : String → LoopDiff → LoopDiff}
    (h : Changes g change) (h' : Changes g' change') : Changes (fun out => g' (g out)) (fun id d => change' id (change id d)) where
  objects out hout := h'.objects _ (h.objects out hout)
  diff_eq out hout id := by rw [h'.diff_eq _ (h.objects out hout), h.diff_eq out hout]

theorem Changes.foldl {step : Processing → String × Json → Processing} {change : String → LoopDiff → LoopDiff}
    (hchange : ∀ id d, change id (change id d) = change id d) {d : List (String × Json)}
    (h : ∀ entry ∈ d, Changes (fun out => step out entry) (on_loops [entry.1] change)) :
    Changes (fun out => d.foldl step out) (on_loops (d.map Prod.fst) change) := by
  induction d with
  | nil => exact ⟨fun out hout => hout, fun out hout id => by simp [on_loops]⟩
  | cons entry rest ih =>
    have hhead := h entry mem_cons_self
    have hrest := ih (fun other hmem => h other (mem_cons_of_mem _ hmem))
    refine ⟨fun out hout => (hhead.comp hrest).objects out hout, fun out hout id => ?_⟩
    have hboth := (hhead.comp hrest).diff_eq out hout id
    rw [foldl_cons, hboth]
    simp only [on_loops, map_cons, mem_cons, not_mem_nil, or_false]
    by_cases hid : id = entry.1
    · rw [if_pos hid, hchange, ite_self, if_pos (Or.inl hid)]
    rw [if_neg hid]
    simp only [hid, false_or]

theorem Changes.repeated {pass : Processing → Processing} {change : String → LoopDiff → LoopDiff}
    (hchange : ∀ id d, change id (change id d) = change id d) (h : Changes pass change) {d : List (String × Json)}
    (hd : d ≠ []) : Changes (fun out => d.foldl (fun out _ => pass out) out) change := by
  induction d with
  | nil => exact absurd rfl hd
  | cons entry rest ih =>
    cases rest with
    | nil => exact h
    | cons other rest =>
      have hrest := h.comp (ih (cons_ne_nil other rest))
      exact ⟨hrest.objects, fun out hout id => (hrest.diff_eq out hout id).trans (hchange id _)⟩

/-- What a visit of an old loop leaves; without a new whitelist there is an empty object. -/
def visited_diff (old new : Json) (id : String) (_d : LoopDiff) : LoopDiff :=
  match whitelist_of new id with
  | none => {}
  | some whitelist => ⟨some whitelist, dropped (whitelisted old id) (whitelisted new id)⟩

/-- What a visit of a new loop leaves. -/
def added_diff (old new : Json) (id : String) (d : LoopDiff) : LoopDiff :=
  if (old.object_get id).isSome then d
  else
    match whitelist_of new id with
    | none => d
    | some whitelist => { d with permit := some whitelist }

theorem added_diff_twice (old new : Json) (id : String) (d : LoopDiff) :
    added_diff old new id (added_diff old new id d) = added_diff old new id d := by
  simp only [added_diff]
  cases (old.object_get id).isSome with
  | true => rfl
  | false => cases whitelist_of new id <;> rfl

theorem check_old_loop_ok (new : Json) (key : String) (loop : Json) (out : Processing) :
    (check_old_loop_in_new_loops new key loop out).1 = (whitelist_of new key).isSome := by
  rw [check_old_loop_in_new_loops, update_sip_parameter_processing, whitelist_of]
  split
  · next hnone => rw [hnone]; rfl
  · next hsome => rw [hsome]; rfl

theorem check_old_loop_changes {old new : Json} (hold : ValidWhitelists old) (hnew : ValidWhitelists new) {key : String}
    {loop : Json} (hloop : old.object_get key = some loop) :
    Changes (fun out => (check_old_loop_in_new_loops new key loop out).2) (on_loops [key] (visited_diff old new)) := by
  have holds : (((loop.object_get "sip").bind (fun sip => sip.object_get "whitelist")).map Json.array_items).getD [] =
      whitelisted old key := by
    rw [whitelisted, whitelist_of, hloop]
    rfl
  obtain ⟨data, hobject, hdiff, hput⟩ : ∃ data : Json, data.is_object = true ∧ diff_of data = visited_diff old new key {} ∧
      ∀ out, (check_old_loop_in_new_loops new key loop out).2 = processing_put out key data := by
    cases hwhitelist : whitelist_of new key with
    | none =>
      refine ⟨.object [], rfl, by rw [visited_diff, hwhitelist]; rfl, fun out => ?_⟩
      rw [whitelist_of] at hwhitelist
      rw [check_old_loop_in_new_loops, update_sip_parameter_processing, hwhitelist]
    | some whitelist =>
      obtain ⟨items, rfl, hitems⟩ := hnew key whitelist hwhitelist
      have holditems : ∀ item ∈ whitelisted old key, (sip_permission_from_json item).isSome := by
        intro item hmem
        rw [whitelisted] at hmem
        cases hw : whitelist_of old key with
        | none => simp [hw] at hmem
        | some whitelist =>
          obtain ⟨items, rfl, hitems⟩ := hold key whitelist hw
          exact hitems item (by simpa [hw, Json.array_items] using hmem)
      have hpermit : (object_put (.object []) "permit" (.array items)).object_get "permit" = some (.array items) := by
        rw [object_get_object_put rfl, if_pos rfl]
      obtain ⟨hobject, hdiff⟩ := revoke_all_spec hitems holditems rfl hpermit
      refine ⟨_, hobject, hdiff.trans ?_, fun out => ?_⟩
      · have hnewitems : whitelisted new key = items := by simp [whitelisted, hwhitelist, Json.array_items]
        rw [visited_diff, hwhitelist, hnewitems]
        rfl
      rw [whitelist_of] at hwhitelist
      rw [check_old_loop_in_new_loops, update_sip_parameter_processing, hwhitelist]
      simp only [holds]
  refine ⟨fun out hout => ?_, fun out hout id => ?_⟩
  · rw [hput]
    exact hout.processing_put key hobject
  rw [hput, diff_processing_put hout, on_loops, hdiff]
  simp only [mem_singleton]
  by_cases hid : id = key
  · subst hid
    rfl
  · rw [if_neg hid, if_neg hid]

theorem check_new_loop_ok {old new : Json} (hnew : ValidWhitelists new) {key : String} {loop : Json}
    (hloop : new.object_get key = some loop) (out : Processing) : (check_new_loop_in_old_loops old key loop out).1 = true := by
  have hwhitelist : (loop.object_get "sip").bind (fun sip => sip.object_get "whitelist") = whitelist_of new key := by
    rw [whitelist_of, hloop]
    rfl
  rw [check_new_loop_in_old_loops]
  split
  · rfl
  rw [add_sip_permission_for_loop, hwhitelist]
  cases hget : whitelist_of new key with
  | none => rfl
  | some whitelist =>
    obtain ⟨items, rfl, -⟩ := hnew key whitelist hget
    rfl

theorem check_new_loop_changes {old new : Json} (hnew : ValidWhitelists new) {key : String} {loop : Json}
    (hloop : new.object_get key = some loop) :
    Changes (fun out => (check_new_loop_in_old_loops old key loop out).2) (on_loops [key] (added_diff old new)) := by
  have hwhitelist : (loop.object_get "sip").bind (fun sip => sip.object_get "whitelist") = whitelist_of new key := by
    rw [whitelist_of, hloop]
    rfl
  have hsame : ∀ out id, (∀ d, added_diff old new key d = d) → diff out id = on_loops [key] (added_diff old new) id (diff out id) := by
    intro out id hkept
    rw [on_loops]
    split
    · next hmem => rw [mem_singleton.mp hmem, hkept]
    · rfl
  cases hold : old.object_get key with
  | some old_loop =>
    refine ⟨fun out hout => by simpa only [check_new_loop_in_old_loops, hold] using hout, fun out hout id => ?_⟩
    rw [check_new_loop_in_old_loops, hold]
    exact hsame out id (fun d => by rw [added_diff, hold]; rfl)
  | none =>
    cases hget : whitelist_of new key with
    | none =>
      have hstep : ∀ out, (check_new_loop_in_old_loops old key loop out).2 = out := by
        intro out
        rw [check_new_loop_in_old_loops, hold]
        simp only [add_sip_permission_for_loop, hwhitelist, hget]
      refine ⟨fun out hout => by rwa [hstep], fun out hout id => ?_⟩
      rw [hstep]
      exact hsame out id (fun d => by rw [added_diff, hold, hget]; rfl)
    | some whitelist =>
      obtain ⟨items, rfl, -⟩ := hnew key whitelist hget
      have hstep : ∀ out, (check_new_loop_in_old_loops old key loop out).2 = processing_put out key
          ((((processing_object out).object_get key).getD (.object [])).object_put "permit" (.array items)) := by
        intro out
        rw [check_new_loop_in_old_loops, hold]
        simp only [add_sip_permission_for_loop, hwhitelist, hget]
      have hobject : ∀ out, AllObjects out → (((processing_object out).object_get key).getD (.object [])).is_object = true := by
        intro out hout
        cases hdata : (processing_object out).object_get key with
        | none => rfl
        | some data => exact hout.loopdata key data hdata
      refine ⟨fun out hout => ?_, fun out hout id => ?_⟩
      · rw [hstep]
        exact hout.processing_put key (by rw [is_object_object_put]; exact hobject out hout)
      rw [hstep, diff_processing_put hout, diff_of_put_permit (hobject out hout), on_loops]
      simp only [mem_singleton]
      split
      · next hid =>
        subst hid
        rw [added_diff, hold, hget, diff]
        cases (processing_object out).object_get id <;> rfl
      · rfl

/-- The old loops that have a new whitelist. -/
def still_listed (new : Json) (entry : String × Json) : Bool := (whitelist_of new entry.1).isSome

/-- What a pass over the old and the new loops changes. -/
def pass_diff (old new : List (String × Json)) (id : String) (d : LoopDiff) : LoopDiff :=
  added_diff (.object old) (.object new) id
    (on_loops ((assoc.visited (still_listed (.object new)) (assoc.entries old)).map Prod.fst)
      (visited_diff (.object old) (.object new)) id d)

theorem processing_for_each_eq {f : String → Json → Processing → Bool × Processing} (ok : String × Json → Bool)
    {members : List (String × Json)} (hok : ∀ entry ∈ assoc.entries members, ∀ out, (f entry.1 entry.2 out).1 = ok entry)
    (out : Processing) : processing_for_each f (.object members) out =
      ((assoc.entries members).all ok,
        (assoc.visited ok (assoc.entries members)).foldl (fun out entry => (f entry.1 entry.2 out).2) out) := by
  have hwalk := walk_eq_foldl_visited (fun key val out => some (f key val out)) ok
    (fun out entry => (f entry.1 entry.2 out).2)
    (fun entry hmem out => congrArg some (Prod.ext (hok entry hmem out) rfl)) out
  simp only [processing_for_each, object_for_each, object_entries]
  rw [hwalk]
  rfl

variable {old new : List (String × Json)}

theorem check_for_sip_update_changes (hold : ValidWhitelists (.object old))
    (hnew : ValidWhitelists (.object new)) (key : String) (val : Json) :
    Changes (fun out => (check_for_sip_update (some (.object old)) (.object new) key val out).2) (pass_diff old new) := by
  have hfirst : Changes (fun out => (processing_for_each (check_old_loop_in_new_loops (.object new)) (.object old) out).2)
      (on_loops ((assoc.visited (still_listed (.object new)) (assoc.entries old)).map Prod.fst)
        (visited_diff (.object old) (.object new))) := by
    simp only [processing_for_each_eq (still_listed (.object new)) (fun entry _ out => check_old_loop_ok _ entry.1 entry.2 out)]
    have htwice : ∀ id d, visited_diff (.object old) (.object new) id (visited_diff (.object old) (.object new) id d) =
        visited_diff (.object old) (.object new) id d := fun id d => rfl
    refine Changes.foldl htwice (fun entry hmem => ?_)
    exact check_old_loop_changes hold hnew ((assoc.mem_entries_iff old entry.1 entry.2).mp (mem_of_mem_visited hmem))
  have hsecond : Changes (fun out => (processing_for_each (check_new_loop_in_old_loops (.object old)) (.object new) out).2)
      (added_diff (.object old) (.object new)) := by
    have hget : ∀ entry ∈ assoc.entries new, (Json.object new).object_get entry.1 = some entry.2 :=
      fun entry hmem => (assoc.mem_entries_iff new entry.1 entry.2).mp hmem
    simp only [processing_for_each_eq (fun _ => true) (fun entry hmem out => check_new_loop_ok hnew (hget entry hmem) out),
      visited_eq_self (fun _ => true) (fun _ _ => rfl)]
    have hwalk := Changes.foldl (added_diff_twice (.object old) (.object new))
      (fun entry hmem => check_new_loop_changes hnew (hget entry hmem))
    refine ⟨hwalk.objects, fun out hout id => (hwalk.diff_eq out hout id).trans ?_⟩
    -- the other loops have no new whitelist
    rw [on_loops]
    split
    · rfl
    next hid =>
    have hnone : (Json.object new).object_get id = none := by
      rw [assoc.mem_keys_iff, Bool.not_eq_true, isSome_eq_false_iff, isNone_iff_eq_none] at hid
      exact hid
    simp [added_diff, whitelist_of, hnone]
  exact hfirst.comp hsecond

/-- Nothing is known of any loop yet, as at the beginning of an update. -/
structure Blank (out : Processing) : Prop extends AllObjects out where
  diff_eq : ∀ id, diff out id = {}

theorem blank_none : Blank none where
  is_object := rfl
  loopdata id data hget := by cases hget
  diff_eq id := rfl

theorem pass_diff_twice (old new : List (String × Json)) (id : String) (d : LoopDiff) :
    pass_diff old new id (pass_diff old new id d) = pass_diff old new id d := by
  simp only [pass_diff, on_loops]
  split
  · rfl
  · rw [added_diff_twice]

theorem pass_diff_eq_empty {id : String} (hnone : whitelist_of (.object new) id = none) :
    pass_diff old new id {} = {} := by
  simp only [pass_diff, on_loops, visited_diff, added_diff, hnone, ite_self]

theorem check_sip_processing_diff (hold : ValidWhitelists (.object old))
    (hnew : ValidWhitelists (.object new)) {out : Processing} (hout : Blank out) (id : String) :
    diff (check_sip_processing (some (.object old)) (.object new) out).2 id = pass_diff old new id {} := by
  have hpasses : (check_sip_processing (some (.object old)) (.object new) out).2 = (assoc.entries new).foldl
      (fun out entry => (check_for_sip_update (some (.object old)) (.object new) entry.1 entry.2 out).2) out := by
    rw [check_sip_processing, processing_for_each_eq (fun _ => true) (fun entry _ out => rfl),
      visited_eq_self (fun _ => true) (fun _ _ => rfl)]
  rw [hpasses]
  by_cases hempty : assoc.entries new = []
  · have hnone : whitelist_of (.object new) id = none := by
      have hkey : id ∉ (assoc.entries new).map Prod.fst := by simp [hempty]
      rw [assoc.mem_keys_iff, Bool.not_eq_true, isSome_eq_false_iff, isNone_iff_eq_none] at hkey
      simp [whitelist_of, Json.object_get, hkey]
    rw [hempty, foldl_nil, hout.diff_eq, pass_diff_eq_empty hnone]
  have hpass := check_for_sip_update_changes hold hnew "" .null
  have hall := (hpass.repeated (pass_diff_twice old new) hempty).diff_eq out hout.toAllObjects id
  rw [hout.diff_eq] at hall
  exact hall

/-- What is expected of the data of a loop. -/
structure LoopDiff.Complete (old new : Json) (id : String) (d : LoopDiff) : Prop where
  permit : ∀ whitelist, whitelist_of new id = some whitelist → d.permit = some whitelist
  revoke : d.revoke = dropped (whitelisted old id) (whitelisted new id)

/-- The old loops from the first one on that has no new whitelist. -/
def not_reached (old new : List (String × Json)) : List (String × Json) :=
  (assoc.entries old).dropWhile (still_listed (.object new))

section

variable {old new : List (String × Json)} {id : String}

theorem dropped_nil (items : List Json) : dropped items [] = items := by simp [dropped]

theorem whitelisted_of_none {loops : Json} (hnone : whitelist_of loops id = none) : whitelisted loops id = [] := by
  rw [whitelisted, hnone]
  rfl

theorem complete_of_reached {entry : String × Json}
    (hmem : entry ∈ (assoc.entries old).takeWhile (still_listed (.object new))) :
    (pass_diff old new entry.1 {}).Complete (.object old) (.object new) entry.1 := by
  obtain ⟨hvisited, hlisted⟩ := assoc.mem_takeWhile_iff_visited.mp hmem
  obtain ⟨whitelist, hwhitelist⟩ := isSome_iff_exists.mp hlisted
  have hold : ((Json.object old).object_get entry.1).isSome = true := by
    have hget := (assoc.mem_entries_iff old entry.1 entry.2).mp (mem_of_mem_visited hvisited)
    simp [Json.object_get, hget]
  have hdiff : pass_diff old new entry.1 {} =
      ⟨some whitelist, dropped (whitelisted (.object old) entry.1) (whitelisted (.object new) entry.1)⟩ := by
    rw [pass_diff, added_diff, hold, if_pos rfl, on_loops, if_pos (List.mem_map_of_mem hvisited), visited_diff, hwhitelist]
  rw [hdiff]
  exact ⟨fun other hother => hwhitelist.symm.trans hother, rfl⟩

theorem pass_diff_of_not_reached {entry : String × Json} (hmem : entry ∈ not_reached old new) :
    pass_diff old new entry.1 {} = {} := by
  have hentries : entry ∈ assoc.entries old := (dropWhile_sublist _).mem hmem
  have hold : ((Json.object old).object_get entry.1).isSome = true := by
    have hget := (assoc.mem_entries_iff old entry.1 entry.2).mp hentries
    simp [Json.object_get, hget]
  rw [pass_diff, added_diff, hold, if_pos rfl, on_loops]
  split
  · next hkey =>
    obtain ⟨other, hvisited, hkey⟩ := List.mem_map.mp hkey
    -- a visited loop with a new whitelist is another one
    cases hwhitelist : whitelist_of (.object new) entry.1 with
    | none => rw [visited_diff, hwhitelist]
    | some whitelist =>
      have hreached : other ∈ (assoc.entries old).takeWhile (still_listed (.object new)) :=
        assoc.mem_takeWhile_iff_visited.mpr ⟨hvisited, by rw [still_listed, hkey, hwhitelist]; rfl⟩
      have hnodup := entries_keys_nodup old
      rw [← takeWhile_append_dropWhile (p := still_listed (.object new)) (l := assoc.entries old), map_append,
        nodup_append] at hnodup
      exact absurd hkey (hnodup.2.2 other.1 (List.mem_map_of_mem hreached) entry.1 (List.mem_map_of_mem hmem))
  · rfl

theorem complete_of_not_old (hold : (Json.object old).object_get id = none) :
    (pass_diff old new id {}).Complete (.object old) (.object new) id := by
  have hunvisited : id ∉ (assoc.visited (still_listed (.object new)) (assoc.entries old)).map Prod.fst := by
    intro hmem
    obtain ⟨entry, hvisited, rfl⟩ := List.mem_map.mp hmem
    have hget := (assoc.mem_entries_iff old entry.1 entry.2).mp (mem_of_mem_visited hvisited)
    rw [Json.object_get, hget] at hold
    cases hold
  have hnothing : whitelisted (.object old) id = [] := whitelisted_of_none (by rw [whitelist_of, hold]; rfl)
  have hdiff : pass_diff old new id {} = { permit := whitelist_of (.object new) id } := by
    rw [pass_diff, on_loops, if_neg hunvisited, added_diff, hold]
    cases whitelist_of (.object new) id <;> rfl
  rw [hdiff]
  exact ⟨fun whitelist hwhitelist => hwhitelist, by rw [hnothing]; rfl⟩

end

/-- The diff is complete if and only if, from the first old loop on that has no new
    whitelist, no old loop has a new whitelist or an old permission. -/
theorem sip_diff_complete_when (old new : List (String × Json)) (out : Processing) (hout : Blank out)
    (hold : ValidWhitelists (.object old)) (hnew : ValidWhitelists (.object new)) :
    (∀ id, (diff (check_sip_processing (some (.object old)) (.object new) out).2 id).Complete (.object old) (.object new) id) ↔
      ∀ entry ∈ not_reached old new,
        whitelist_of (.object new) entry.1 = none ∧ whitelisted (.object old) entry.1 = [] := by
  simp only [check_sip_processing_diff hold hnew hout]
  constructor
  · intro hcomplete entry hmem
    obtain ⟨hpermit, hrevoke⟩ := hcomplete entry.1
    rw [pass_diff_of_not_reached hmem] at hpermit hrevoke
    have hnone : whitelist_of (.object new) entry.1 = none := by
      cases hwhitelist : whitelist_of (.object new) entry.1 with
      | none => rfl
      | some whitelist => cases hpermit whitelist hwhitelist
    rw [whitelisted_of_none hnone, dropped_nil] at hrevoke
    exact ⟨hnone, hrevoke.symm⟩
  · intro hcondition id
    cases hget : (Json.object old).object_get id with
    | none => exact complete_of_not_old hget
    | some loop =>
      have hentry : (id, loop) ∈ assoc.entries old := (assoc.mem_entries_iff old id loop).mpr hget
      rw [← takeWhile_append_dropWhile (p := still_listed (.object new)) (l := assoc.entries old),
        mem_append] at hentry
      obtain hreached | hunreached := hentry
      · exact complete_of_reached hreached
      · obtain ⟨hnone, hnothing⟩ := hcondition (id, loop) hunreached
        rw [pass_diff_eq_empty hnone]
        refine ⟨fun whitelist hwhitelist => ?_, ?_⟩
        · rw [hnone] at hwhitelist
          cases hwhitelist
        · rw [hnothing]
          rfl

/-- A loop with a whitelist. -/
def listed (items : List Json) : Json := .object [("sip", .object [("whitelist", .array items)])]

def caller_item : Json := .object [("caller", .string "+49"), ("loop", .string "a")]

theorem validWhitelists_listed {items : List Json} (hitems : ∀ item ∈ items, (sip_permission_from_json item).isSome) :
    ValidWhitelists (.object [("a", listed items)]) := by
  intro id whitelist hwhitelist
  rw [whitelist_of, Json.object_get, lookup_cons_eq] at hwhitelist
  split at hwhitelist
  · cases hwhitelist
    exact ⟨items, rfl, hitems⟩
  · cases hwhitelist

theorem caller_item_valid : ∀ item ∈ [caller_item], (sip_permission_from_json item).isSome := by
  intro item hmem
  rw [mem_singleton.mp hmem]
  rfl

theorem sip_diff_complete_when_emptied :
    (diff (check_sip_processing (some (.object [("a", listed [caller_item])])) (.object [("a", listed [])]) none).2
      "a").Complete (.object [("a", listed [caller_item])]) (.object [("a", listed [])]) "a" :=
  (sip_diff_complete_when [("a", listed [caller_item])] [("a", listed [])] none blank_none
    (validWhitelists_listed caller_item_valid) (validWhitelists_listed (fun _ hmem => absurd hmem not_mem_nil))).mpr
    (fun _ hmem => absurd hmem not_mem_nil) "a"

/-- The permissions of a loop are not revoked when its new version has no whitelist. -/
theorem revocation_missed : ¬ ∀ old new, ValidWhitelists (.object old) → ValidWhitelists (.object new) → ∀ id,
    (diff (check_sip_processing (some (.object old)) (.object new) none).2 id).Complete (.object old) (.object new) id := by
  intro h
  have hold := validWhitelists_listed caller_item_valid
  have hnew : ValidWhitelists (.object [("a", .object [])]) := by
    intro id whitelist hwhitelist
    rw [whitelist_of, Json.object_get, lookup_cons_eq] at hwhitelist
    split at hwhitelist <;> cases hwhitelist
  have hrevoke := (h _ _ hold hnew "a").revoke
  rw [check_sip_processing_diff hold hnew blank_none, pass_diff_eq_empty rfl] at hrevoke
  have hdropped : dropped (whitelisted (.object [("a", listed [caller_item])]) "a")
      (whitelisted (.object [("a", .object [])]) "a") = [caller_item] := rfl
  rw [hdropped] at hrevoke
  cases hrevoke

end openvocs.vocs_db
