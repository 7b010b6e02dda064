import Openvocs.Lib.Linked

/-!
The loops over a list take their number of rounds as fuel and give `none` when it is used up.
-/

open List Option

namespace openvocs.node

open linked

variable {ν : Type} [DecidableEq ν]

def unplug (s : Nodes ν) (node : ν) : Nodes ν :=
  let s :=
    if s.head = some node then
      { s with head := s.next node }.point_prev (s.next node) none
    else
      (s.point_next (s.prev node) (s.next node)).point_prev (s.next node) (s.prev node)
  (s.point_prev (some node) none).point_next (some node) none

def is_included (s : Nodes ν) (node : ν) : Nat → Option ν → Option Bool
  | _, none => some false
  | 0, some _ => none
  | fuel + 1, some next => if next = node then some true else is_included s node fuel (s.next next)

/-- The node in front of `x`, looked for from a node on. -/
def node_before (s : Nodes ν) (x : ν) : Nat → Option ν → Option (Option ν)
  | _, none => some none
  | 0, some _ => none
  | fuel + 1, some prev =>
    if s.next prev = some x then some (some prev) else node_before s x fuel (s.next prev)

/-- `ov_node_insert_before`. When nothing in the list leads to `x`, the node stays unplugged. -/
def insert_before (fuel : Nat) (s : Nodes ν) (node x : ν) : Option (Bool × Nodes ν) :=
  if node = x then some (false, s)
  else
    match is_included s x fuel s.head with
    | none => none
    | some false => some (false, s)
    | some true =>
      let s := unplug s node
      if s.head = some x then
        let s := ((s.point_prev (some x) (some node)).point_next (some node) (some x)).point_prev
          (some node) none
        some (true, { s with head := some node })
      else
        match node_before s x fuel s.head with
        | none => none
        | some none => some (false, s)
        | some (some prev) =>
          let s := (s.point_next (some prev) (some node)).point_next (some node) (some x)
          some (true, (s.point_prev (some x) (some node)).point_prev (some node) (some prev))

def remove_if_included (fuel : Nat) (s : Nodes ν) (node : ν) : Option (Nodes ν) :=
  match is_included s node fuel s.head with
  | none => none
  | some true => some (unplug s node)
  | some false => some s

variable {s : Nodes ν} {xs ys : List ν} {node x : ν} {fuel : Nat}

theorem is_included_of_mem {before : Option ν} (h : Segment s before xs none) (hx : x ∈ xs)
    (hfuel : xs.length ≤ fuel) : is_included s x fuel xs.head? = some true := by
  induction xs generalizing before fuel with
  | nil => simp at hx
  | cons y xs ih =>
    cases fuel with
    | zero => simp at hfuel
    | succ fuel =>
      obtain ⟨-, hnext, hrest⟩ := h
      rw [head?_cons, is_included]
      by_cases hy : y = x
      · rw [if_pos hy]
      rw [if_neg hy, hnext, or_none]
      apply ih hrest
      · exact (mem_cons.mp hx).resolve_left (fun heq => hy heq.symm)
      · simpa using hfuel

theorem node_before_eq {before : Option ν} {prev : ν}
    (h : Segment s before (xs ++ prev :: x :: ys) none) (hnodup : (xs ++ prev :: x :: ys).Nodup)
    (hfuel : xs.length < fuel) :
    node_before s x fuel (xs ++ prev :: x :: ys).head? = some (some prev) := by
  induction xs generalizing before fuel with
  | nil =>
    obtain ⟨fuel, rfl⟩ := Nat.exists_eq_add_of_lt hfuel
    have hnext : s.next prev = some x := by simpa using h.2.1
    simp [node_before, hnext]
  | cons y xs ih =>
    cases fuel with
    | zero => simp at hfuel
    | succ fuel =>
      rw [List.cons_append] at h hnodup ⊢
      obtain ⟨-, hnext, hrest⟩ := h
      have hne : (xs ++ prev :: x :: ys).head? ≠ some x := by
        rw [nodup_cons] at hnodup
        cases xs with
        | nil =>
          intro heq
          simp_all
        | cons z xs =>
          intro heq
          have hzx : z = x := by simpa using heq
          have := (nodup_cons.mp hnodup.2).1
          simp [hzx] at this
      rw [head?_cons, node_before, hnext, or_none, if_neg hne]
      exact ih hrest (nodup_cons.mp hnodup).2 (by simpa using hfuel)

theorem unplug_holds (h : Holds s (xs ++ node :: ys)) : Holds (unplug s node) (xs ++ ys) := by
  obtain ⟨hprev, hnext⟩ := h.links_at
  obtain ⟨hleft, hright⟩ := segment_append.mp h.links
  obtain ⟨-, -, hright⟩ := hright
  obtain ⟨hxs, hnys, hdisjoint⟩ := nodup_append.mp h.nodup
  obtain ⟨hnode, hys⟩ := nodup_cons.mp hnys
  have hnodexs : node ∉ xs := fun hmem => hdisjoint node hmem node (by simp) rfl
  have hfresh : ∀ y ∈ some node, y ∉ xs ++ ys := by
    rintro y heq
    rw [← some_inj.mp heq]
    simp [hnodexs, hnode]
  have hnodup : (xs ++ ys).Nodup := by
    refine nodup_append.mpr ⟨hxs, hys, fun a ha b hb => ?_⟩
    exact hdisjoint a ha b (by simp [hb])
  cases hlast : xs.getLast? with
  | none =>
    -- the node is the first one
    have hnil : xs = [] := getLast?_eq_none_iff.mp hlast
    subst hnil
    have hhead : s.head = some node := by simpa using h.head
    have hys' := (hright.point_first hys none)
    refine ⟨hnodup, ?_, ?_⟩
    · simp [unplug, hhead, hnext]
    simp only [unplug, hhead, if_true, hnext]
    apply Segment.point_next_of_not_mem _ (by simpa using hfresh)
    apply Segment.point_prev_of_not_mem _ (by simpa using hfresh)
    exact hys'.congr (by simp) (by intro y _; cases ys <;> rfl)
  | some last =>
    have hmem : last ∈ xs := mem_of_getLast? hlast
    have hhead : s.head = xs.head? := by
      rw [h.head]
      cases xs with
      | nil => simp at hmem
      | cons => rfl
    have hne : s.head ≠ some node := by
      rw [hhead]
      exact fun heq => hnodexs (mem_of_head? heq)
    refine ⟨hnodup, ?_, ?_⟩
    · simp only [unplug, hne, if_false, Nodes.point_next_head, Nodes.point_prev_head]
      rw [hhead]
      cases xs with
      | nil => simp at hmem
      | cons => rfl
    simp only [unplug, hne, if_false, hnext, hprev]
    apply Segment.point_next_of_not_mem _ hfresh
    apply Segment.point_prev_of_not_mem _ hfresh
    refine segment_append.mpr ⟨?_, ?_⟩
    · apply Segment.point_prev_of_not_mem
      · rw [or_none]
        exact hleft.point_last hxs ys.head?
      · exact fun y hy hyxs => hdisjoint y hyxs y (by simp [mem_of_head? hy]) rfl
    rw [or_none]
    have hout : ∀ y ∈ xs.getLast?, y ∉ ys :=
      fun y hy hyys => hdisjoint y (mem_of_getLast? hy) y (by simp [hyys]) rfl
    exact (hright.point_next_of_not_mem hout ys.head?).point_first hys _

theorem remove_if_included_holds (h : Holds s (xs ++ node :: ys)) (hfuel : (xs ++ node :: ys).length ≤ fuel) :
    ∃ t, remove_if_included fuel s node = some t ∧ Holds t (xs ++ ys) := by
  have hincluded : is_included s node fuel s.head = some true := by
    rw [h.head]
    exact is_included_of_mem h.links (mem_append_right _ mem_cons_self) hfuel
  rw [remove_if_included, hincluded]
  exact ⟨_, rfl, unplug_holds h⟩

theorem link_first_holds {vs : List ν} (h : Holds s (x :: vs)) (hnode : node ∉ x :: vs) :
    Holds { ((s.point_prev (some x) (some node)).point_next (some node) (some x)).point_prev
      (some node) none with head := some node } (node :: x :: vs) := by
  have hout : ∀ y ∈ some node, y ∉ x :: vs := by
    rintro y heq
    rwa [← some_inj.mp heq]
  refine ⟨nodup_cons.mpr ⟨hnode, h.nodup⟩, rfl, by simp, by simp, ?_⟩
  have hrest := h.links.point_first h.nodup (some node)
  have hrest := (hrest.point_next_of_not_mem hout (some x)).point_prev_of_not_mem hout none
  exact hrest.congr (fun _ _ => rfl) (fun _ _ => rfl)

theorem link_behind_holds {us vs : List ν} {prev : ν} (h : Holds s (us ++ prev :: x :: vs))
    (hnode : node ∉ us ++ prev :: x :: vs) :
    Holds ((((s.point_next (some prev) (some node)).point_next (some node) (some x)).point_prev
      (some x) (some node)).point_prev (some node) (some prev)) (us ++ prev :: node :: x :: vs) := by
  have hsplit : us ++ prev :: x :: vs = (us ++ [prev]) ++ x :: vs := by simp
  have hlinks := h.links
  have hnodup := h.nodup
  rw [hsplit] at hlinks hnodup hnode
  obtain ⟨hleft, hright⟩ := segment_append.mp hlinks
  obtain ⟨hus, hvs, hdisjoint⟩ := nodup_append.mp hnodup
  simp only [mem_append, not_or] at hnode
  have hnodeLeft : ∀ y ∈ some node, y ∉ us ++ [prev] := by
    rintro y heq
    rw [← some_inj.mp heq]
    simpa using hnode.1
  have hnodeRight : ∀ y ∈ some node, y ∉ x :: vs := by
    rintro y heq
    rw [← some_inj.mp heq]
    exact hnode.2
  have hxLeft : ∀ y ∈ some x, y ∉ us ++ [prev] := by
    rintro y heq hmem
    exact hdisjoint y hmem x (by simp) (some_inj.mp heq).symm
  have hprevRight : ∀ y ∈ some prev, y ∉ x :: vs := by
    rintro y heq hmem
    exact hdisjoint prev (by simp) y hmem (some_inj.mp heq)
  have hgoal : us ++ prev :: node :: x :: vs = (us ++ [prev]) ++ node :: x :: vs := by simp
  rw [hgoal]
  refine ⟨?_, ?_, segment_append.mpr ⟨?_, by simp, ?_, ?_⟩⟩
  · refine nodup_append.mpr ⟨hus, nodup_cons.mpr ⟨hnode.2, hvs⟩, ?_⟩
    intro a ha b hb
    rcases mem_cons.mp hb with rfl | hb
    · rintro rfl
      exact hnodeLeft a rfl ha
    · exact hdisjoint a ha b hb
  · simp only [Nodes.point_prev_head, Nodes.point_next_head, h.head]
    cases us <;> rfl
  · have hset := hleft.point_last hus (some node)
    rw [getLast?_concat] at hset
    have hset := hset.point_next_of_not_mem hnodeLeft (some x)
    exact (hset.point_prev_of_not_mem hxLeft (some node)).point_prev_of_not_mem hnodeLeft (some prev)
  · simp
  have hset := hright.point_next_of_not_mem hprevRight (some node)
  have hset := (hset.point_next_of_not_mem hnodeRight (some x)).point_first hvs (some node)
  exact hset.point_prev_of_not_mem hnodeRight (some prev)

theorem insert_before_holds {us vs : List ν} (h : Holds s (xs ++ node :: ys))
    (hsplit : xs ++ ys = us ++ x :: vs) (hfuel : (xs ++ node :: ys).length ≤ fuel) :
    ∃ t, insert_before fuel s node x = some (true, t) ∧ Holds t (us ++ node :: x :: vs) := by
  have hmem : x ∈ xs ++ ys := by simp [hsplit]
  have hincluded : is_included s x fuel s.head = some true := by
    rw [h.head]
    apply is_included_of_mem h.links _ hfuel
    simp only [mem_append, mem_cons] at hmem ⊢
    tauto
  have hnode : node ∉ xs ++ ys := by
    have hperm : (xs ++ node :: ys).Perm (node :: (xs ++ ys)) := perm_middle
    exact (nodup_cons.mp (hperm.nodup_iff.mp h.nodup)).1
  have hne : node ≠ x := by
    rintro rfl
    exact hnode hmem
  have hout := unplug_holds h
  rw [hsplit] at hout hnode
  simp only [insert_before, if_neg hne, hincluded]
  cases us using List.reverseRecOn with
  | nil =>
    have hhead : (unplug s node).head = some x := by simpa using hout.head
    simp only [hhead, if_true]
    exact ⟨_, rfl, link_first_holds hout hnode⟩
  | append_singleton us prev =>
    simp only [append_assoc, singleton_append] at hout hnode ⊢
    have hhead : (unplug s node).head ≠ some x := by
      rw [hout.head]
      intro heq
      have hnodup := hout.nodup
      cases us with
      | nil => simp_all
      | cons z us =>
        have hzx : z = x := by simpa using heq
        simp [hzx] at hnodup
    have hbefore : node_before (unplug s node) x fuel (unplug s node).head = some (some prev) := by
      rw [hout.head]
      apply node_before_eq hout.links hout.nodup
      have hlength : (xs ++ ys).length = (us ++ [prev] ++ x :: vs).length := by rw [hsplit]
      simp only [length_append, length_cons, length_nil] at hfuel hlength
      omega
    simp only [hhead, if_false, hbefore]
    exact ⟨_, rfl, link_behind_holds hout hnode⟩

end openvocs.node
