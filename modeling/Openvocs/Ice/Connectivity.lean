import Openvocs.Ice.Nomination
import Mathlib.Algebra.Order.BigOperators.Group.List

open List

namespace openvocs.ice.nomination

open Session

set_option linter.unusedSectionVars false

variable {ν κ : Type} [DecidableEq ν] [DecidableEq κ] (w : World ν κ)

/-- A pair fails in a round: it was checked too often, or its check could not be sent. -/
inductive Fails (s : Session ν κ) (p : ν) : Session ν κ → Prop
  | timed_out {j : Nat} {popped : Session ν κ} (hj : j < s.count) (hnext : next_check j s = (popped, some p))
      (hstate : (popped.pair p).state = .progress) (hover : 100 < (popped.pair p).progress_count.toNat) :
      Fails s p (popped.set_state p .failed)
  | refused {j : Nat} {popped sent : Session ν κ} (hj : j < s.count) (hnext : next_check j s = (popped, some p))
      (hsend : send_binding_request w p popped = (sent, false)) : Fails s p (sent.set_state p .failed)

/-- The pairs that fail in a round, one after the other. -/
inductive Checks : Session ν κ → List ν → Session ν κ → Prop
  | nil (s : Session ν κ) : Checks s [] s
  | cons {s t u : Session ν κ} {p : ν} {failed : List ν} (hfails : Fails w s p t) (hrest : Checks t failed u) :
      Checks s (p :: failed) u

/-- The end of a round: one check is sent, or there is nothing to check. -/
inductive Ends (s : Session ν κ) : Option ν → Session ν κ → Bool → Prop
  | sent {j : Nat} {p : ν} {popped checked t : Session ν κ} {ok : Bool} (hnext : next_check j s = (popped, some p))
      (hsend : send_binding_request w p popped = (checked, true)) (htimer : set_timer w checked = (t, ok)) :
      Ends s (some p) t ok
  | idle {t : Session ν κ} {ok : Bool} (h : reschedule_session w s = (t, ok)) : Ends s none t ok

/-- The pairs that the streams can come to were not freed. -/
def Live (s : Session ν κ) : Prop :=
  ∀ i < s.count, ∀ p, p ∈ (s.stream i).trigger ∨ p ∈ (s.stream i).pairs → s.alive p = true

/-- What is left to check in a stream. -/
def stream_load (s : Session ν κ) (i : Nat) : Nat :=
  (s.stream i).trigger.length + (s.stream i).pairs.countP fun p => (s.pair p).state = .waiting

def load (s : Session ν κ) : Nat := ((range s.count).map (stream_load s)).sum

variable {w} {s t u : Session ν κ} {j : Nat} {p : ν}

/-- The next pair is taken out of the trigger list, or it is one that waits. -/
structure Next (j : Nat) (p : ν) (s popped : Session ν κ) : Prop where
  pair : popped.pair = s.pair
  count : popped.count = s.count
  pairs : ∀ i, (popped.stream i).pairs = (s.stream i).pairs
  trigger : ∀ i, (popped.stream i).trigger <+ (s.stream i).trigger
  taken : (popped.stream j).trigger.length < (s.stream j).trigger.length ∧ p ∈ (s.stream j).trigger ∨
    p ∈ (s.stream j).pairs ∧ (s.pair p).state = .waiting

theorem next_check_some (h : next_check j s = (t, some p)) : Next j p s t := by
  unfold next_check at h
  split at h
  · rename_i q hlast
    obtain ⟨rfl, heq⟩ := Prod.mk.inj h
    obtain rfl := Option.some.inj heq
    have hne : (s.stream j).trigger ≠ [] := by
      intro hnil
      rw [hnil] at hlast
      cases hlast
    refine ⟨rfl, rfl, fun i => ?_, fun i => ?_, .inl ⟨?_, mem_of_getLast? hlast⟩⟩
    · by_cases hi : i = j
      · rw [hi, set_stream_self]
      · rw [set_stream_of_ne _ hi]
    · by_cases hi : i = j
      · rw [hi, set_stream_self]
        exact dropLast_sublist _
      · rw [set_stream_of_ne _ hi]
    rw [set_stream_self, length_dropLast]
    exact Nat.sub_lt (length_pos_iff.mpr hne) Nat.one_pos
  obtain ⟨rfl, hfind⟩ := Prod.mk.inj h
  exact ⟨rfl, rfl, fun _ => rfl, fun _ => .refl _, .inr ⟨mem_of_find?_eq_some hfind,
    of_decide_eq_true (find?_some hfind :)⟩⟩

/-- What a pair that fails changes. -/
structure Drops (j : Nat) (p : ν) (s t : Session ν κ) : Prop where
  next : ∃ popped, Next j p s popped ∧ t.stream = popped.stream ∧ t.count = popped.count
  failed : (t.pair p).state = .failed
  stream : (t.pair p).stream = (s.pair p).stream
  others : ∀ q, q ≠ p → t.pair q = s.pair q

theorem Fails.drops (h : Fails w s p t) : ∃ j < s.count, Drops j p s t := by
  cases h with
  | @timed_out j popped hj hnext hstate hover =>
    have hpopped := next_check_some hnext
    refine ⟨j, hj, ⟨popped, hpopped, rfl, rfl⟩, ?_, ?_, fun q hq => ?_⟩
    · rw [set_state, set_pair_self]
    · rw [set_state, set_pair_self, hpopped.pair]
    · rw [set_state, set_pair_of_ne _ hq, hpopped.pair]
  | @refused j popped sent hj hnext hsend =>
    have hpopped := next_check_some hnext
    have hsent : sent.stream = popped.stream ∧ sent.count = popped.count ∧
        (sent.pair p).stream = (popped.pair p).stream ∧ ∀ q, q ≠ p → sent.pair q = popped.pair q := by
      unfold send_binding_request at hsend
      dsimp only at hsend
      split at hsend
      · obtain rfl := (Prod.mk.inj hsend).1
        exact ⟨rfl, rfl, by simp [set_state], fun q hq => set_pair_of_ne _ hq⟩
      split at hsend
      · obtain rfl := (Prod.mk.inj hsend).1
        refine ⟨rfl, rfl, by simp [set_state, Pair.sent], fun q hq => ?_⟩
        rw [set_state, set_pair_of_ne _ hq, set_pair_of_ne _ hq]
      · cases (Prod.mk.inj hsend).2
    obtain ⟨hstream, hcount, hsame, hothers⟩ := hsent
    refine ⟨j, hj, ⟨popped, hpopped, hstream, hcount⟩, ?_, ?_, fun q hq => ?_⟩
    · rw [set_state, set_pair_self]
    · rw [set_state, set_pair_self, hsame, hpopped.pair]
    · rw [set_state, set_pair_of_ne _ hq, hothers q hq, hpopped.pair]

theorem Drops.live (h : Drops j p s t) (hlive : Live s) : Live t := by
  obtain ⟨popped, hnext, hstream, hcount⟩ := h.next
  intro i hi q hq
  rw [hcount, hnext.count] at hi
  rw [hstream, hnext.pairs] at hq
  have halive := hlive i hi q (hq.imp_left fun hmem => (hnext.trigger i).subset hmem)
  have hsame : (t.pair q).stream = (s.pair q).stream := by
    by_cases hqp : q = p
    · rw [hqp, h.stream]
    · rw [h.others q hqp]
  rw [alive, hsame, hstream, hnext.pairs]
  exact halive

theorem set_timer_armed (h : set_timer w s = (t, true)) : t.connectivity = true := by
  unfold set_timer at h
  split at h
  · obtain rfl := (Prod.mk.inj h).1
    assumption
  split at h
  · rw [← (Prod.mk.inj h).1]
  · cases (Prod.mk.inj h).2

theorem session_unfreeze_connectivity : (session_unfreeze s).connectivity = s.connectivity := by
  have hfold (entries : List (ν × unfreeze.Pair)) (s : Session ν κ) :
      (entries.foldl (fun s entry => s.set_state entry.1 entry.2.state) s).connectivity = s.connectivity := by
    induction entries generalizing s with
    | nil => rfl
    | cons entry entries ih => exact ih _
  unfold session_unfreeze
  split
  · rfl
  · exact hfold _ s

theorem Ends.armed {sent : Option ν} (h : Ends w s sent t true) : t.connectivity = true := by
  cases h with
  | sent hnext hsend htimer => exact set_timer_armed htimer
  | idle h =>
    unfold reschedule_session at h
    split at h
    · rename_i htimer
      rw [← (Prod.mk.inj h).1, session_unfreeze_connectivity, set_timer_armed htimer]
    · cases (Prod.mk.inj h).2

/-- A round, with the pairs that fail in it and the check that is sent. -/
structure Round (w : World ν κ) (s : Session ν κ) (failed : List ν) (sent : Option ν) (t : Session ν κ)
    (ok : Bool) : Prop where
  checked : ∃ mid, Checks w s failed mid ∧ Ends w mid sent t ok ∧
    ∀ q, (q ∈ failed → (mid.pair q).state = .failed) ∧ (q ∉ failed → mid.pair q = s.pair q)
  armed : ok = true → t.connectivity = true

end openvocs.ice.nomination
