import Openvocs.Ice.Nomination

open List Option

namespace openvocs.ice.nomination

open Session

set_option linter.unusedSectionVars false

variable {ν κ : Type} [DecidableEq ν] [DecidableEq κ]

/-- No pair is nominated that was not. A nominated pair in a list was there before. -/
structure Unmarked (s t : Session ν κ) : Prop where
  controlling : t.controlling = s.controlling
  count : t.count = s.count
  nominated : ∀ p, (t.pair p).nominated = true → (s.pair p).nominated = true
  pairs : ∀ i p, p ∈ (t.stream i).pairs → (t.pair p).nominated = true → p ∈ (s.stream i).pairs

/-- Moreover no pair is selected that was not. -/
structure Quiet (s t : Session ν κ) : Prop extends Unmarked s t where
  selected : ∀ i p, (t.stream i).selected = some p → (s.stream i).selected = some p

variable {s t u : Session ν κ}

theorem Unmarked.trans (h : Unmarked s t) (h' : Unmarked t u) : Unmarked s u where
  controlling := h'.controlling.trans h.controlling
  count := h'.count.trans h.count
  nominated p hp := h.nominated p (h'.nominated p hp)
  pairs i p hmem hp := h.pairs i p (h'.pairs i p hmem hp) (h'.nominated p hp)

theorem Quiet.trans (h : Quiet s t) (h' : Quiet t u) : Quiet s u :=
  ⟨h.toUnmarked.trans h'.toUnmarked, fun i p hp => h.selected i p (h'.selected i p hp)⟩

theorem Quiet.refl (s : Session ν κ) : Quiet s s :=
  ⟨⟨rfl, rfl, fun _ h => h, fun _ _ h _ => h⟩, fun _ _ h => h⟩

theorem quiet_of_eq (hcontrolling : t.controlling = s.controlling) (hcount : t.count = s.count)
    (hpair : t.pair = s.pair) (hstream : t.stream = s.stream) : Quiet s t := by
  refine ⟨⟨hcontrolling, hcount, fun p hp => ?_, fun i p hmem _ => ?_⟩, fun i p hp => ?_⟩
  · rwa [hpair] at hp
  · rwa [hstream] at hmem
  · rwa [hstream] at hp

theorem set_pair_quiet (p : ν) {f : Pair κ → Pair κ}
    (hf : (f (s.pair p)).nominated = true → (s.pair p).nominated = true) : Quiet s (s.set_pair p f) := by
  refine ⟨⟨rfl, rfl, fun q hq => ?_, fun _ _ hmem _ => hmem⟩, fun _ _ hq => hq⟩
  by_cases hqp : q = p
  · subst hqp
    rw [set_pair_self] at hq
    exact hf hq
  · rwa [set_pair_of_ne f hqp] at hq

theorem set_state_quiet (p : ν) (state : PairState) : Quiet s (s.set_state p state) :=
  set_pair_quiet p id

variable (i : Nat)

theorem set_stream_unmarked {f : Stream ν κ → Stream ν κ}
    (hpairs : ∀ p ∈ (f (s.stream i)).pairs, p ∈ (s.stream i).pairs) : Unmarked s (s.set_stream i f) := by
  refine ⟨rfl, rfl, fun _ hq => hq, fun j q hmem _ => ?_⟩
  by_cases hji : j = i
  · subst hji
    rw [set_stream_self] at hmem
    exact hpairs q hmem
  · rwa [set_stream_of_ne f hji] at hmem

theorem set_stream_quiet {f : Stream ν κ → Stream ν κ}
    (hpairs : ∀ p ∈ (f (s.stream i)).pairs, p ∈ (s.stream i).pairs)
    (hselected : ∀ p, (f (s.stream i)).selected = some p → (s.stream i).selected = some p) :
    Quiet s (s.set_stream i f) := by
  refine ⟨set_stream_unmarked i hpairs, fun j q hq => ?_⟩
  by_cases hji : j = i
  · subst hji
    rw [set_stream_self] at hq
    exact hselected q hq
  · rwa [set_stream_of_ne f hji] at hq

theorem foldl_quiet {α : Type} {f : Session ν κ → α → Session ν κ} (hf : ∀ s a, Quiet s (f s a))
    (list : List α) : Quiet s (list.foldl f s) := by
  induction list generalizing s with
  | nil => exact .refl s
  | cons a list ih => exact (hf s a).trans ih

theorem pair_free_quiet (p : ν) : Quiet s (s.pair_free p) := by
  apply set_stream_quiet
  · exact fun q hq => mem_of_mem_erase hq
  intro q hq
  dsimp only at hq
  split at hq
  · cases hq
  · exact hq

theorem push_trigger_quiet (p : ν) : Quiet s (s.push_trigger i p) :=
  set_stream_quiet i (fun _ hq => hq) (fun _ hq => hq)

theorem drop_unselected_quiet : Quiet s (drop_unselected s) := by
  apply foldl_quiet
  intro s i
  apply foldl_quiet
  intro s p
  split
  · exact .refl s
  · exact pair_free_quiet p

theorem trickle_candidates_quiet : Quiet s (s.trickle_candidates i) := by
  unfold trickle_candidates
  split
  · exact .refl s
  dsimp only
  split
  · refine Quiet.trans ?_ (set_stream_quiet i (fun _ hq => hq) (fun _ hq => hq))
    exact quiet_of_eq rfl rfl rfl rfl
  · exact quiet_of_eq rfl rfl rfl rfl

theorem session_unfreeze_quiet : Quiet s (session_unfreeze s) := by
  unfold session_unfreeze
  split
  · exact .refl s
  · exact foldl_quiet (fun s (entry : ν × unfreeze.Pair) => set_state_quiet entry.1 entry.2.state) _

theorem unfreeze_foundation_quiet (foundation : List Byte) : Quiet s (unfreeze_foundation foundation s) := by
  apply foldl_quiet
  intro s i
  apply foldl_quiet
  intro s p
  split
  · exact set_state_quiet p .waiting
  · exact .refl s

variable (w : World ν κ)

theorem send_binding_request_quiet (p : ν) : Quiet s (send_binding_request w p s).1 := by
  unfold send_binding_request
  split
  · exact set_state_quiet p .failed
  have hsent : Quiet s (s.set_pair p Pair.sent) := set_pair_quiet p id
  dsimp only
  split
  · exact hsent.trans (set_state_quiet p .failed)
  · exact hsent

theorem next_check_quiet (j : Nat) : Quiet s (next_check j s).1 := by
  unfold next_check
  split
  · dsimp only
    exact set_stream_quiet j (fun _ hq => hq) (fun _ hq => hq)
  · exact .refl s

theorem set_timer_quiet : Quiet s (set_timer w s).1 := by
  unfold set_timer
  split
  · exact .refl s
  split
  · exact quiet_of_eq rfl rfl rfl rfl
  · exact .refl s

theorem reschedule_session_quiet : Quiet s (reschedule_session w s).1 := by
  have htimer := @set_timer_quiet ν κ _ _ s w
  unfold reschedule_session
  split
  · rename_i heq
    rw [heq] at htimer
    exact htimer.trans session_unfreeze_quiet
  rename_i heq
  rw [heq] at htimer
  exact htimer

theorem perform_connectivity_check_quiet (rounds i : Nat) {ok : Bool}
    (h : perform_connectivity_check w rounds i s = some (t, ok)) : Quiet s t := by
  induction rounds generalizing i s with
  | zero => cases h
  | succ rounds ih =>
    rw [perform_connectivity_check] at h
    split at h
    · obtain rfl := (Prod.mk.inj (some.inj h)).1.symm
      exact reschedule_session_quiet w
    rename_i j _
    have hnext := @next_check_quiet ν κ _ _ s j
    split at h
    · rename_i popped heq
      rw [heq] at hnext
      split at h
      · exact hnext.trans (ih (j + 1) h)
      obtain rfl := (Prod.mk.inj (some.inj h)).1.symm
      exact hnext.trans (reschedule_session_quiet w)
    rename_i popped p heq
    rw [heq] at hnext
    split at h
    · cases h
    split at h
    · exact (hnext.trans (set_state_quiet p .failed)).trans (ih 0 h)
    have hsend := @send_binding_request_quiet ν κ _ _ popped w p
    split at h
    · rename_i sent hsent
      rw [hsent] at hsend
      exact ((hnext.trans hsend).trans (set_state_quiet p .failed)).trans (ih j h)
    rename_i sent hsent
    rw [hsent] at hsend
    obtain rfl := (Prod.mk.inj (some.inj h)).1.symm
    exact (hnext.trans hsend).trans (set_timer_quiet w)

theorem checklists_run_quiet (h : checklists_run w s = some t) : Quiet s t := by
  unfold checklists_run at h
  split at h
  · rw [← some.inj h]
    exact quiet_of_eq rfl rfl rfl rfl
  split at h
  · rw [← some.inj h]
    exact .refl s
  split at h
  · cases h
  · rename_i checked hcheck
    rw [← some.inj h]
    have hchecked := perform_connectivity_check_quiet w w.rounds 0 hcheck
    exact (session_unfreeze_quiet.trans hchecked).trans (quiet_of_eq rfl rfl rfl rfl)
  rename_i checked hcheck
  rw [← some.inj h]
  have hchecked := perform_connectivity_check_quiet w w.rounds 0 hcheck
  exact (session_unfreeze_quiet.trans hchecked).trans (quiet_of_eq rfl rfl rfl rfl)

theorem pair_create_quiet (p : ν) (l r : κ) : Quiet s (pair_create i p l r s) := by
  refine ⟨⟨rfl, rfl, fun q hq => ?_, fun j q hmem hq => ?_⟩, fun j q hq => ?_⟩
  · by_cases hqp : q = p
    · subst hqp
      simp [pair_create] at hq
    · simpa [pair_create, hqp] using hq
  · by_cases hqp : q = p
    · subst hqp
      simp [pair_create] at hq
    by_cases hji : j = i
    · subst hji
      simpa [pair_create, hqp] using hmem
    rw [pair_create, set_stream_of_ne _ hji] at hmem
    exact hmem
  by_cases hji : j = i
  · subst hji
    simpa [pair_create] using hq
  rw [pair_create, set_stream_of_ne _ hji] at hq
  exact hq

theorem stream_order_quiet : Quiet s (stream_order i s) := by
  apply set_stream_quiet
  · intro p hp
    rw [(perm_insertionSort _ _).mem_iff, mem_reverse] at hp
    exact hp
  · exact fun _ hq => hq

theorem stream_prune_quiet : Quiet s (stream_prune i s) := by
  apply foldl_quiet
  intro s p
  split
  · exact .refl s
  · exact pair_free_quiet p

theorem add_reflexive_quiet (p : ν) (l r : κ) : Quiet s (add_reflexive i p l r s) :=
  (((pair_create_quiet i p l r).trans (set_state_quiet p .success)).trans (stream_order_quiet i)).trans
    (stream_prune_quiet i)

theorem add_remote_quiet (r : Request ν κ) (p : ν) (c : κ) (foundation : List Byte) :
    Quiet s (add_remote r p c foundation s) := by
  refine Quiet.trans ?_ (set_state_quiet p .waiting)
  refine Quiet.trans ?_ (add_reflexive_quiet r.stream p r.base c)
  refine Quiet.trans ?_ (set_stream_quiet r.stream (fun _ hq => hq) (fun _ hq => hq))
  exact quiet_of_eq rfl rfl rfl rfl

theorem add_local_quiet (r : Success ν κ) (p : ν) (c : κ) (foundation : List Byte) (priority : BitVec 32) :
    Quiet s (add_local r p c foundation priority s) := by
  refine Quiet.trans ?_ (push_trigger_quiet r.stream p)
  refine Quiet.trans ?_ (add_reflexive_quiet r.stream p c _)
  refine Quiet.trans ?_ (set_stream_quiet r.stream (fun _ hq => hq) (fun _ hq => hq))
  exact quiet_of_eq rfl rfl rfl rfl

theorem handshake_active_quiet (p : ν) : Quiet s (handshake_active w p s) := by
  unfold handshake_active
  split
  · exact .refl s
  · exact set_state_quiet p .failed

theorem trigger_check_quiet (p : ν) : Quiet s (trigger_check i p s) := by
  unfold trigger_check
  split
  · exact set_pair_quiet p id
  split
  · exact .refl s
  refine Quiet.trans ?_ (set_stream_quiet i (fun _ hq => hq) (fun _ hq => hq))
  exact (push_trigger_quiet i p).trans (set_state_quiet p .waiting)

theorem succeed_quiet (p : ν) : Quiet s (succeed i p s) := by
  refine Quiet.trans ?_ (unfreeze_foundation_quiet _)
  refine Quiet.trans ?_ (push_trigger_quiet i p)
  refine Quiet.trans ?_ (set_stream_quiet i (fun _ hq => hq) (fun _ hq => hq))
  exact set_pair_quiet p id

/-- A relation that quiet steps keep, and in a controlling session also the selection of pairs. -/
structure Rule (R : Session ν κ → Session ν κ → Prop) : Prop where
  trans : ∀ {s t u}, R s t → R t u → R s u
  quiet : ∀ {s t}, Quiet s t → R s t
  select : ∀ {s t}, s.controlling = true → Unmarked s t → R s t
  controlling : ∀ {s t}, R s t → t.controlling = s.controlling

theorem complete_rule {R : Session ν κ → Session ν κ → Prop} (hR : Rule R) (w : World ν κ) (i : Nat)
    (p : ν) : R s (complete w i p s) := by
  unfold complete
  split
  · exact hR.quiet (.refl s)
  split
  · exact hR.quiet (set_stream_quiet i (fun _ hq => hq) (fun _ hq => hq))
  rename_i hcontrolling
  rw [Bool.not_eq_true, Bool.not_eq_false'] at hcontrolling
  refine hR.select hcontrolling ?_
  refine Unmarked.trans ?_ (set_stream_unmarked i (fun _ hq => hq))
  refine Unmarked.trans ?_ (set_state_quiet p .success).toUnmarked
  split
  · refine Unmarked.trans ?_ (handshake_active_quiet w p).toUnmarked
    exact set_stream_unmarked i (fun _ hq => hq)
  · exact set_stream_unmarked i (fun _ hq => hq)

section rule

variable {R : Session ν κ → Session ν κ → Prop} (hR : Rule R)
  {update : Nat → Session ν κ → Option (Session ν κ)} (hupdate : ∀ i s t, update i s = some t → R s t)

include hR hupdate

theorem update_streams_rule (streams : List Nat) {completed failed : Bool}
    (h : update_streams update streams s = some (t, completed, failed)) : R s t := by
  induction streams generalizing s completed failed with
  | nil =>
    obtain rfl := (Prod.mk.inj (some.inj h)).1.symm
    exact hR.quiet (.refl _)
  | cons i streams ih =>
    rw [update_streams, bind_eq_some_iff] at h
    obtain ⟨mid, hmid, hrest⟩ := h
    obtain ⟨⟨last, completed', failed'⟩, hlast, heq⟩ := map_eq_some_iff.mp hrest
    obtain rfl : last = t := (Prod.mk.inj heq).1
    refine hR.trans ?_ (ih hlast)
    split at hmid
    · exact hupdate i s mid hmid
    rw [← some.inj hmid]
    exact hR.quiet (.refl s)

theorem session_update_rule (h : session_update update s = some t) : R s t := by
  unfold session_update at h
  split at h
  · rw [← some.inj h]
    exact hR.quiet (.refl s)
  rw [bind_eq_some_iff] at h
  obtain ⟨⟨mid, completed, failed⟩, hmid, hrest⟩ := h
  have hstreams := update_streams_rule hR hupdate _ hmid
  dsimp only at hrest
  split at hrest
  · cases hrest
  split at hrest
  · rw [← some.inj hrest]
    refine hR.trans hstreams (hR.quiet (Quiet.trans ?_ drop_unselected_quiet))
    exact quiet_of_eq rfl rfl rfl rfl
  rw [← some.inj hrest]
  exact hstreams

theorem update_and_run_rule (w : World ν κ) (h : update_and_run update w s = some t) : R s t := by
  rw [update_and_run, bind_eq_some_iff] at h
  obtain ⟨mid, hmid, hrun⟩ := h
  exact hR.trans (session_update_rule hR hupdate hmid) (hR.quiet (checklists_run_quiet w hrun))

theorem check_pair_rule (w : World ν κ) (r : Request ν κ) (p : ν)
    (huse : (s.controlling && r.use_candidate) = false) (h : check_pair update w r p s = some t) : R s t := by
  unfold check_pair at h
  split at h
  · cases h
  have htrigger := @trigger_check_quiet ν κ _ _ s r.stream p
  dsimp only at h
  rw [htrigger.controlling, huse, if_neg Bool.false_ne_true] at h
  exact hR.trans (hR.quiet htrigger) (update_and_run_rule hR hupdate w h)

theorem answer_pairs_rule (w : World ν κ) (r : Request ν κ) (room : Nat) (pairs : List ν)
    (huse : (s.controlling && r.use_candidate) = false) (h : answer_pairs update w r room pairs s = some t) :
    R s t := by
  induction pairs generalizing s room with
  | nil =>
    rw [answer_pairs] at h
    exact update_and_run_rule hR hupdate w h
  | cons p pairs ih =>
    cases room with
    | zero => exact check_pair_rule hR hupdate w r p huse h
    | succ room =>
      rw [answer_pairs, bind_eq_some_iff] at h
      obtain ⟨mid, hmid, hrest⟩ := h
      have hanswer := check_pair_rule hR hupdate w r p huse hmid
      split at hrest
      · refine hR.trans hanswer (ih room ?_ hrest)
        rw [hR.controlling hanswer, huse]
      · cases hrest

theorem process_success_response_rule (w : World ν κ) (r : Success ν κ)
    (h : process_success_response update w r s = some t) : R s t := by
  have hdone {p : ν} {mid : Session ν κ} (hmid : Quiet s mid)
      (h : session_update update (complete w r.stream p (succeed r.stream p mid)) = some t) : R s t := by
    have hcomplete := hR.trans (hR.quiet (hmid.trans (succeed_quiet r.stream p))) (complete_rule hR w r.stream p)
    exact hR.trans hcomplete (session_update_rule hR hupdate h)
  have hsame (h : some s = some t) : R s t := some.inj h ▸ hR.quiet (.refl s)
  unfold process_success_response at h
  dsimp only at h
  split at h
  · cases h
  split at h
  · exact hsame h
  split at h
  · exact hsame h
  split at h
  · exact hdone (.refl s) h
  split at h
  · exact hsame h
  split at h
  · cases h
  · exact hdone (add_local_quiet r _ _ _ _) h

theorem process_error_response_rule (r : Failure ν) (h : process_error_response update r s = some t) : R s t := by
  have hfailed : Quiet s (s.set_state r.pair .failed) := set_state_quiet r.pair .failed
  unfold process_error_response at h
  split at h
  · cases h
  split at h
  · rw [← some.inj h]
    exact hR.quiet (.refl s)
  split at h
  · cases h
  dsimp only at h
  refine hR.trans ?_ (session_update_rule hR hupdate h)
  apply hR.quiet
  split
  · refine Quiet.trans ?_ (set_stream_quiet r.stream (fun _ hq => hq) (fun _ hq => hq))
    refine hfailed.trans (set_pair_quiet r.pair ?_)
    exact fun hq => absurd hq Bool.false_ne_true
  · exact hfailed

end rule

/-- The pairs that an accepted request is processed on. -/
def processed (s : Session ν κ) (r : Request ν κ) : List ν :=
  match matching_pairs s r, r.created with
  | [], none => []
  | [], some (p, _, _) => [p]
  | p :: pairs, _ => p :: pairs

/-- The event is an authentic request with USE-CANDIDATE that is processed on the pair. -/
def Asked (s : Session ν κ) (e : Event ν κ) (p : ν) : Prop :=
  match e with
  | .request _ r => r.use_candidate = true ∧ r.authentic = true ∧ check_roles s r = .agree ∧ p ∈ processed s r
  | _ => False

section rule

variable {R : Session ν κ → Session ν κ → Prop} (hR : Rule R)
  {update : Nat → Session ν κ → Option (Session ν κ)} (hupdate : ∀ i s t, update i s = some t → R s t)

include hR hupdate

theorem process_stun_request_rule (w : World ν κ) (r : Request ν κ)
    (hasked : s.controlling = true → ∀ p, ¬ Asked s (.request w r) p)
    (h : process_stun_request update w r s = some t) : R s t := by
  have hsame (h : some s = some t) : R s t := some.inj h ▸ hR.quiet (.refl s)
  unfold process_stun_request at h
  split at h
  · exact hsame h
  rename_i hauthentic
  rw [Bool.not_eq_true, Bool.not_eq_false'] at hauthentic
  split at h
  · exact hsame h
  · exact hsame h
  · cases h
  rename_i hroles
  have huse {p : ν} (hp : p ∈ processed s r) : (s.controlling && r.use_candidate) = false := by
    cases hcontrolling : s.controlling with
    | false => rfl
    | true =>
      cases hcandidate : r.use_candidate with
      | false => rfl
      | true => exact absurd ⟨hcandidate, hauthentic, hroles, hp⟩ (hasked hcontrolling p)
  split at h
  · exact hsame h
  · rename_i p c foundation hmatching hcreated
    split at h
    · cases h
    have hadd := @add_remote_quiet ν κ _ _ s r p c foundation
    refine hR.trans (hR.quiet hadd) (answer_pairs_rule hR hupdate w r w.room _ ?_ h)
    rw [hadd.controlling]
    apply @huse p
    rw [processed, hmatching, hcreated]
    exact mem_singleton_self p
  rename_i p _ hmatching
  refine answer_pairs_rule hR hupdate w r w.room _ (@huse p ?_) h
  rw [processed, hmatching]
  exact mem_cons_self

theorem step_rule (e : Event ν κ) (hasked : s.controlling = true → ∀ p, ¬ Asked s e p)
    (hidle : ∀ t, e = .meanwhile t → Quiet s t) (h : step update e s = some t) : R s t := by
  cases e with
  | request w r => exact process_stun_request_rule hR hupdate w r hasked h
  | success w r => exact process_success_response_rule hR hupdate w r h
  | failure r => exact process_error_response_rule hR hupdate r h
  | update i => exact hupdate i s t h
  | meanwhile u => exact hR.quiet (some.inj h ▸ hidle u rfl)

end rule

/-- Pairs were freed, and nothing else was done. -/
structure Freed (s t : Session ν κ) : Prop extends Quiet s t where
  nominate_started : t.nominate_started = s.nominate_started
  pair : t.pair = s.pair
  members : ∀ i p, p ∈ (t.stream i).pairs → p ∈ (s.stream i).pairs
  valid : ∀ i p, p ∈ (t.stream i).valid → p ∈ (s.stream i).valid

theorem Freed.refl (s : Session ν κ) : Freed s s := ⟨.refl s, rfl, rfl, fun _ _ h => h, fun _ _ h => h⟩

theorem Freed.trans (h : Freed s t) (h' : Freed t u) : Freed s u :=
  ⟨h.toQuiet.trans h'.toQuiet, h'.nominate_started.trans h.nominate_started, h'.pair.trans h.pair,
    fun i p hp => h.members i p (h'.members i p hp), fun i p hp => h.valid i p (h'.valid i p hp)⟩

theorem pair_free_freed (p : ν) : Freed s (s.pair_free p) := by
  have herased (i : Nat) : ((s.pair_free p).stream i).pairs.Sublist (s.stream i).pairs ∧
      ((s.pair_free p).stream i).valid.Sublist (s.stream i).valid := by
    by_cases hi : i = (s.pair p).stream
    · subst hi
      rw [Session.pair_free, set_stream_self]
      exact ⟨erase_sublist, erase_sublist⟩
    rw [Session.pair_free, set_stream_of_ne _ hi]
    exact ⟨List.Sublist.refl _, List.Sublist.refl _⟩
  exact ⟨pair_free_quiet p, rfl, rfl, fun i _ hq => (herased i).1.subset hq, fun i _ hq => (herased i).2.subset hq⟩

theorem free_unchecked_freed : Freed s (s.free_unchecked i) := by
  unfold free_unchecked
  generalize (s.stream i).pairs = pairs
  induction pairs generalizing s with
  | nil => exact .refl s
  | cons p pairs ih =>
    rw [foldl_cons]
    split
    · exact (pair_free_freed p).trans ih
    · exact ih

/-- The pair may be nominated by an update of the stream. -/
structure Nominable (s : Session ν κ) (i : Nat) (p : ν) : Prop where
  controlling : s.controlling = true
  nominate_started : s.nominate_started = true
  valid : p ∈ (s.stream i).valid
  eligible : s.eligible p = true

theorem Freed.nominable {i : Nat} {p : ν} (h : Freed s t) (hp : Nominable t i p) : Nominable s i p where
  controlling := h.controlling ▸ hp.controlling
  nominate_started := h.nominate_started ▸ hp.nominate_started
  valid := h.valid i p hp.valid
  eligible := by
    have heligible := hp.eligible
    rwa [Session.eligible, h.pair] at heligible

theorem update_loop_freed {i : Nat} (fuel : Nat) {v selected found : Option ν} (hstart : Freed s u)
    (hselected : ∀ p ∈ selected, Nominable s i p) (h : update_loop i fuel v selected u = some (t, found)) :
    Freed s t ∧ ∀ p ∈ found, Nominable s i p := by
  induction fuel generalizing v selected u with
  | zero =>
    cases v with
    | none =>
      obtain ⟨rfl, rfl⟩ := Prod.mk.inj (some.inj h)
      exact ⟨hstart, hselected⟩
    | some v => cases h
  | succ fuel ih =>
    cases v with
    | none =>
      obtain ⟨rfl, rfl⟩ := Prod.mk.inj (some.inj h)
      exact ⟨hstart, hselected⟩
    | some v =>
      rw [update_loop] at h
      split at h
      · cases h
      rename_i hthere
      dsimp only at h
      split at h
      · exact ih (hstart.trans (free_unchecked_freed i)) hselected h
      rename_i hnominated
      split at h
      · rename_i hcounts
        rw [Bool.and_eq_true, Bool.and_eq_true] at hcounts
        have hv : Nominable s i v := by
          refine hstart.nominable ⟨hcounts.1.1, hcounts.1.2, ?_, ?_⟩
          · exact not_not.mp (not_or.mp hthere).1
          rw [Session.eligible, Bool.eq_false_iff.mpr hnominated, Bool.not_false, Bool.true_and]
          exact hcounts.2
        have hsome : ∀ p ∈ some v, Nominable s i p := fun p hp => some.inj hp ▸ hv
        split at h
        · exact ih hstart hsome h
        split at h
        · cases h
        split at h
        · exact ih hstart hsome h
        · exact ih hstart hselected h
      · exact ih hstart hselected h

/-- The update of a stream comes to its valid pairs. -/
structure Walks (s : Session ν κ) (i : Nat) : Prop where
  local_gathered : (s.stream i).local_gathered = true
  not_failed : ¬ ((s.stream i).remote_gathered = true ∧ ∀ p ∈ (s.stream i).pairs, (s.pair p).state = .failed)

theorem note_completed_freed : Freed s (s.set_stream i Stream.note_completed) := by
  have hsame (j : Nat) : ((s.set_stream i Stream.note_completed).stream j).pairs = (s.stream j).pairs ∧
      ((s.set_stream i Stream.note_completed).stream j).valid = (s.stream j).valid := by
    by_cases hji : j = i
    · subst hji
      rw [set_stream_self]
      exact ⟨rfl, rfl⟩
    rw [set_stream_of_ne _ hji]
    exact ⟨rfl, rfl⟩
  refine ⟨set_stream_quiet i (fun _ hq => hq) (fun _ hq => hq), rfl, rfl, fun j p hp => ?_, fun j p hp => ?_⟩
  · rwa [(hsame j).1] at hp
  · rwa [(hsame j).2] at hp

theorem stream_update_cases {i : Nat} (h : stream_update i s = some t) :
    Quiet s t ∨ ∃ mid p, Freed s mid ∧ Nominable s i p ∧ Walks s i ∧ t = nominate i p mid := by
  have hnoted := @note_completed_freed ν κ _ _ s i
  unfold stream_update at h
  dsimp only at h
  rw [set_stream_self, set_stream_pair] at h
  split at h
  · rw [← some.inj h]
    exact .inl (hnoted.toQuiet.trans (trickle_candidates_quiet i))
  rename_i hgathered
  rw [Bool.not_eq_true, Bool.not_eq_false'] at hgathered
  split at h
  · rw [← some.inj h]
    exact .inl (hnoted.toQuiet.trans (set_stream_quiet i (fun _ hq => hq) (fun _ hq => hq)))
  rename_i hfailed
  split at h
  · cases h
  · rename_i walked hloop
    rw [← some.inj h]
    exact .inl (update_loop_freed _ hnoted (by simp) hloop).1.toQuiet
  rename_i walked p hloop
  obtain ⟨hfreed, hfound⟩ := update_loop_freed _ hnoted (by simp) hloop
  split at h
  · rw [← some.inj h]
    exact .inr ⟨walked, p, hfreed, hfound p rfl, ⟨hgathered, hfailed⟩, rfl⟩
  · cases h

/-- At most one pair of each stream is nominated. -/
def One (s : Session ν κ) : Prop :=
  ∀ i < s.count, ∀ p ∈ (s.stream i).pairs, ∀ q ∈ (s.stream i).pairs,
    (s.pair p).nominated = true → (s.pair q).nominated = true → p = q

/-- No pair is nominated in the stream of `p`. -/
def Alone (s : Session ν κ) (p : ν) : Prop :=
  ∀ j < s.count, p ∈ (s.stream j).pairs → ∀ q ∈ (s.stream j).pairs, (s.pair q).nominated = false

/-- What an update of the stream `i` may nominate has no nominated pair in its stream. -/
def Sole (s : Session ν κ) (i : Nat) : Prop :=
  Walks s i → ∀ p ∈ (s.stream i).valid, Nominable s i p → Alone s p

instance (s : Session ν κ) (p : ν) : Decidable (Alone s p) :=
  inferInstanceAs (Decidable (∀ j < s.count, p ∈ (s.stream j).pairs → ∀ q ∈ (s.stream j).pairs, _))

instance (s : Session ν κ) (i : Nat) : Decidable (Walks s i) :=
  decidable_of_iff ((s.stream i).local_gathered = true ∧ ¬ ((s.stream i).remote_gathered = true ∧
      ∀ p ∈ (s.stream i).pairs, (s.pair p).state = .failed))
    ⟨fun h => ⟨h.1, h.2⟩, fun h => ⟨h.1, h.2⟩⟩

instance (s : Session ν κ) (i : Nat) (p : ν) : Decidable (Nominable s i p) :=
  decidable_of_iff
    (s.controlling = true ∧ s.nominate_started = true ∧ p ∈ (s.stream i).valid ∧ s.eligible p = true)
    ⟨fun h => ⟨h.1, h.2.1, h.2.2.1, h.2.2.2⟩, fun h => ⟨h.1, h.2, h.3, h.4⟩⟩

instance (s : Session ν κ) (i : Nat) : Decidable (Sole s i) :=
  inferInstanceAs (Decidable (Walks s i → ∀ p ∈ (s.stream i).valid, Nominable s i p → Alone s p))

/-- `ov_ice_stream_update`, for calls that nominate in streams without a nominated pair only. -/
def careful_update (i : Nat) (s : Session ν κ) : Option (Session ν κ) :=
  if Sole s i then stream_update i s else none

/-- The role stays, and at most one pair of a stream is nominated if that was so. -/
structure Fair (s t : Session ν κ) : Prop where
  controlling : t.controlling = s.controlling
  count : t.count = s.count
  one : One s → One t

theorem Unmarked.fair (h : Unmarked s t) : Fair s t where
  controlling := h.controlling
  count := h.count
  one hone i hi p hp q hq hpn hqn :=
    hone i (h.count ▸ hi) p (h.pairs i p hp hpn) q (h.pairs i q hq hqn) (h.nominated p hpn) (h.nominated q hqn)

theorem fair_rule : Rule (@Fair ν κ) where
  trans h h' := ⟨h'.controlling.trans h.controlling, h'.count.trans h.count, fun hone => h'.one (h.one hone)⟩
  quiet h := h.toUnmarked.fair
  select _ h := h.fair
  controlling h := h.controlling

/-- A session that is not controlling nominates and selects nothing. -/
structure Passive (s t : Session ν κ) : Prop where
  controlling : t.controlling = s.controlling
  quiet : s.controlling = false → Quiet s t

theorem passive_rule : Rule (@Passive ν κ) where
  trans h h' := by
    refine ⟨h'.controlling.trans h.controlling, fun hcontrolled => ?_⟩
    exact (h.quiet hcontrolled).trans (h'.quiet (h.controlling.trans hcontrolled))
  quiet h := ⟨h.controlling, fun _ => h⟩
  select hcontrolling h := by
    refine ⟨h.controlling, fun hcontrolled => ?_⟩
    rw [hcontrolling] at hcontrolled
    cases hcontrolled
  controlling h := h.controlling

theorem nominate_pair (p q : ν) :
    ((nominate i p s).pair q).nominated = true → q = p ∨ (s.pair q).nominated = true := by
  intro hq
  by_cases hqp : q = p
  · exact .inl hqp
  rw [nominate, set_pair_of_ne _ hqp] at hq
  exact .inr hq

theorem nominate_pairs (j : Nat) (p : ν) : ((nominate i p s).stream j).pairs = (s.stream j).pairs := by
  rw [nominate, set_pair_stream, push_trigger]
  by_cases hji : j = i
  · subst hji
    rw [set_stream_self]
  · rw [set_stream_of_ne _ hji]

theorem stream_update_passive (s t : Session ν κ) (h : stream_update i s = some t) : Passive s t := by
  obtain hquiet | ⟨mid, p, hfreed, hp, -, rfl⟩ := stream_update_cases h
  · exact passive_rule.quiet hquiet
  refine ⟨hfreed.controlling, fun hcontrolled => ?_⟩
  rw [hp.controlling] at hcontrolled
  cases hcontrolled

theorem careful_update_fair (s t : Session ν κ) (h : careful_update i s = some t) : Fair s t := by
  unfold careful_update at h
  split at h
  · rename_i hsole
    obtain hquiet | ⟨mid, p, hfreed, hp, hwalks, rfl⟩ := stream_update_cases h
    · exact hquiet.toUnmarked.fair
    have hfresh := hsole hwalks p hp.valid hp
    refine ⟨hfreed.controlling, hfreed.count, fun hone j hj a ha b hb han hbn => ?_⟩
    rw [nominate_pairs] at ha hb
    have ha' := hfreed.members j a ha
    have hb' := hfreed.members j b hb
    have hj' : j < s.count := hfreed.count ▸ hj
    rcases nominate_pair i p a han with hap | han' <;> rcases nominate_pair i p b hbn with hbp | hbn'
    · exact hap.trans hbp.symm
    · rw [hfreed.pair, hfresh j hj' (hap ▸ ha') b hb'] at hbn'
      cases hbn'
    · rw [hfreed.pair, hfresh j hj' (hbp ▸ hb') a ha'] at han'
      cases han'
    rw [hfreed.pair] at han' hbn'
    exact hone j hj' a ha' b hb' han' hbn'
  · cases h

/-- What is claimed of a step: a session that is not controlling nominates and selects for
USE-CANDIDATE and for nothing else, a controlling one does not look at it, and has at most one
nominated pair in a stream. -/
structure Followed (s : Session ν κ) (e : Event ν κ) (t : Session ν κ) : Prop where
  asked : s.controlling = false → ∀ p, Asked s e p →
    (t.pair p).nominated = true ∧ ∃ i q, Asked s e q ∧ (t.stream i).selected = some q
  nominated : s.controlling = false → ∀ p, (t.pair p).nominated = true → (s.pair p).nominated = false →
    Asked s e p
  selected : s.controlling = false → ∀ i p, (t.stream i).selected = some p → (s.stream i).selected ≠ some p →
    Asked s e p
  ignored : s.controlling = true → ∀ w r, e = .request w r →
    step stream_update (.request w { r with use_candidate := false }) s = some t
  one : s.controlling = true → One s → One t

/-- The step is not a request with USE-CANDIDATE, and all its updates are careful ones. What happens
meanwhile nominates and selects no pair. -/
structure Undisturbed (s : Session ν κ) (e : Event ν κ) : Prop where
  not_asked : ∀ p, ¬ Asked s e p
  careful : ∀ t, step stream_update e s = some t → step careful_update e s = some t
  idle : ∀ t, e = .meanwhile t → Quiet s t

theorem request_ignored {w : World ν κ} {r : Request ν κ}
    (update : Nat → Session ν κ → Option (Session ν κ)) (hasked : ∀ p, ¬ Asked s (.request w r) p) :
    step update (.request w { r with use_candidate := false }) s = step update (.request w r) s := by
  cases huse : r.use_candidate with
  | false =>
    have hr : { r with use_candidate := false } = r := by rw [← huse]
    rw [hr]
  | true =>
    have hnone : r.authentic = true → check_roles s r = .agree → processed s r = [] := by
      intro hauthentic hroles
      rw [eq_nil_iff_forall_not_mem]
      exact fun p hp => hasked p ⟨huse, hauthentic, hroles, hp⟩
    have hroles : check_roles s { r with use_candidate := false } = check_roles s r := rfl
    have hmatching : matching_pairs s { r with use_candidate := false } = matching_pairs s r := rfl
    rw [step, step, process_stun_request, process_stun_request, hroles, hmatching]
    cases hauthentic : r.authentic with
    | false => rfl
    | true =>
      cases hagree : check_roles s r with
      | unreadable => rfl
      | conflict => rfl
      | change => rfl
      | agree =>
        have hempty := hnone hauthentic hagree
        rw [processed] at hempty
        cases hpairs : matching_pairs s r with
        | cons p pairs =>
          rw [hpairs] at hempty
          cases hempty
        | nil =>
          cases hcreated : r.created with
          | some created =>
            rw [hpairs, hcreated] at hempty
            cases hempty
          | none => rfl

theorem Undisturbed.fair {e : Event ν κ} (h : Undisturbed s e) (hstep : step stream_update e s = some t) : Fair s t :=
  step_rule fair_rule careful_update_fair e (fun _ => h.not_asked) h.idle (h.careful t hstep)

theorem Undisturbed.followed {e : Event ν κ} (h : Undisturbed s e) (hstep : step stream_update e s = some t) :
    Followed s e t := by
  have hpassive : Passive s t :=
    step_rule passive_rule stream_update_passive e (fun _ => h.not_asked) h.idle hstep
  refine ⟨fun _ p hp => absurd hp (h.not_asked p), fun hcontrolled p hp hpn => ?_, fun hcontrolled i p hp hpn => ?_,
    fun _ w r he => ?_, fun _ => (h.fair hstep).one⟩
  · rw [(hpassive.quiet hcontrolled).nominated p hp] at hpn
    cases hpn
  · exact absurd ((hpassive.quiet hcontrolled).selected i p hp) hpn
  subst he
  rw [request_ignored stream_update h.not_asked]
  exact hstep

/-- In a run of undisturbed steps every step follows the role, and at most one pair of a stream is
nominated at its end. -/
theorem nomination_follows_role {es : List (Event ν κ)} (hone : One s)
    (hundisturbed : machine.along (step stream_update) Undisturbed es s)
    (hrun : machine.run (step stream_update) es s = some t) :
    One t ∧ t.controlling = s.controlling ∧
      machine.along (step stream_update)
        (fun s e => ∀ t, step stream_update e s = some t → Followed s e t) es s := by
  have hend := machine.run_invariant (fun u => One u ∧ u.controlling = s.controlling) Undisturbed
    (fun s e t hs he hstep => ⟨(he.fair hstep).one hs.1, (he.fair hstep).controlling.trans hs.2⟩)
    es ⟨hone, rfl⟩ hundisturbed hrun
  refine ⟨hend.1, hend.2, machine.along_mono ?_ hundisturbed⟩
  intro s e he t hstep
  exact he.followed hstep

/-- A session with some successful pairs, whose next connectivity check is due later. -/
def session_of {ν : Type} (controlling : Bool) (pairs valid : List ν) : Session ν Unit where
  controlling := controlling
  nominate_started := true
  trickling_started := true
  tiebreaker := 0
  state := .running
  connectivity := true
  count := 1
  stream := fun _ =>
    { pairs := pairs, valid := valid, trigger := [], selected := none, state := .running, stun := .init, dtls := .init,
      srtp := .init, dtls_active := false, local_gathered := true, remote_gathered := true,
      local_candidates := [()], remote_candidates := [()] }
  pair := fun _ =>
    { stream := 0, state := .success, priority := 0, success_count := 5, local_candidate := (), remote_candidate := () }
  candidate := fun _ => { addr := [], port := 0, gathered := true, foundation := [], priority := 0 }

theorem one_pair_nominated :
    ∃ t, machine.run (step stream_update) [.update 0] (session_of true [()] [()]) = some t ∧
      (t.pair ()).nominated = true ∧ One t := by
  have hundisturbed :
      machine.along (step stream_update) Undisturbed [.update 0] (session_of true [()] [()]) := by
    refine ⟨⟨fun _ h => h, fun t h => ?_, fun t h => by cases h⟩, fun _ _ => trivial⟩
    rw [step, careful_update, if_pos (by decide)]
    exact h
  refine ⟨_, rfl, rfl, ?_⟩
  exact (nomination_follows_role (fun _ _ _ _ _ _ _ _ => rfl) hundisturbed rfl).1

/-- A request with USE-CANDIDATE, from a session in one of the roles. -/
def use_candidate (controlling : Bool) : Request Unit Unit where
  stream := 0
  base := ()
  addr := []
  port := 0
  authentic := true
  controlling := if controlling then some (some 1) else none
  controlled := if controlling then none else some (some 1)
  use_candidate := true
  priority := 0
  created := none

/-- A system that sends what it is asked to. -/
def sending : World Unit Unit where
  sends := fun _ _ => true
  handshakes := fun _ _ => true
  timer := fun _ => true
  rounds := 1
  room := 100

/-- A controlling session selects the pair of a request with USE-CANDIDATE, one that is not
controlling does not, and two updates nominate two pairs. -/
theorem nomination_not_followed :
    (∃ t, step stream_update (.request sending (use_candidate false)) (session_of true [()] []) = some t ∧
      (t.stream 0).selected = some () ∧
      ¬ Followed (session_of true [()] []) (.request sending (use_candidate false)) t) ∧
    (∃ t, step stream_update (.request sending (use_candidate true)) (session_of false [()] []) = some t ∧
      (t.stream 0).selected = none ∧
      ¬ Followed (session_of false [()] []) (.request sending (use_candidate true)) t) ∧
    ∃ t, machine.run (step stream_update) [.update 0, .update 0]
        (session_of true [false, true] [false, true]) = some t ∧ ¬ One t := by
  refine ⟨⟨_, rfl, rfl, fun hfollowed => ?_⟩, ⟨_, rfl, rfl, fun hfollowed => ?_⟩, _, rfl, fun hone => ?_⟩
  · have hsame := hfollowed.ignored rfl sending (use_candidate false) rfl
    have hselected := congrArg (Option.map fun t => (t.stream 0).selected) hsame
    revert hselected
    decide
  · have hasked : Asked (session_of false [()] []) (.request sending (use_candidate true)) () :=
      ⟨rfl, rfl, rfl, mem_singleton_self ()⟩
    have hnominated := (hfollowed.asked rfl () hasked).1
    revert hnominated
    decide
  · have hsame := hone 0 (by decide) false (by decide) true (by decide) (by decide) (by decide)
    cases hsame

end openvocs.ice.nomination
