import Openvocs.Vocs.SoundRun

namespace openvocs.vocs

open State

/-- Whatever lets a session hear or speak on a loop is granted by a switch. -/
def AllGranted (grants : Switch → Prop) (st : State) : Prop :=
  (∀ mixer uuid session loop, .mixer mixer uuid (.join session loop) ∈ st.out → Granted grants st .recv session loop) ∧
    ∀ uuid session loop, .proxy uuid (.talk session true loop) ∈ st.out → Granted grants st .send session loop

theorem AllGranted.of_quiet (grants : Switch → Prop) {st : State} (hquiet : ∀ o ∈ st.out, o.is_quiet) :
    AllGranted grants st := by
  refine ⟨fun mixer uuid session loop ho => ?_, fun uuid session loop ho => ?_⟩
  · have hjoin := hquiet _ ho
    simp [Output.is_quiet] at hjoin
  have htalk := hquiet _ ho
  simp [Output.is_quiet] at htalk

theorem AllGranted.effect {grants : Switch → Prop} {st st' : State} (h : AllGranted grants st)
    (heffect : Effect grants st st') : AllGranted grants st' := by
  refine ⟨fun mixer uuid session loop ho => ?_, fun uuid session loop ho => ?_⟩
  · obtain hold | hquiet | ⟨m, u, s, l, heq, hgranted⟩ | ⟨u, s, l, heq, hgranted⟩ := heffect.out _ ho
    · exact (h.1 mixer uuid session loop hold).mono heffect.switches
    · simp [Output.is_quiet] at hquiet
    · cases heq
      exact hgranted.mono heffect.switches
    · cases heq
  obtain hold | hquiet | ⟨m, u, s, l, heq, hgranted⟩ | ⟨u, s, l, heq, hgranted⟩ := heffect.out _ ho
  · exact (h.2 uuid session loop hold).mono heffect.switches
  · simp [Output.is_quiet] at hquiet
  · cases heq
  cases heq
  exact hgranted.mono heffect.switches

theorem Reaches.all_granted {st st' : State} (h : Reaches st st') : AllGranted (Permits st) st' := by
  obtain ⟨uuid, mid, hmid, hquiet, hown, hmoves⟩ := h
  have hinvariant : (Settled st' ∧ ∀ n, uuid = .own n → n < st'.uuids) ∧ AllGranted (Permits st) st' := by
    refine hmoves.invariant
      (fun s => (Settled s ∧ ∀ n, uuid = .own n → n < s.uuids) ∧ AllGranted (Permits st) s) (fun s s' hs hmove => ?_)
      ⟨⟨hmid, hown⟩, .of_quiet _ hquiet⟩
    obtain ⟨⟨hsettled, hown⟩, hgranted⟩ := hs
    have heffect := hmove.effect hsettled.owned
    exact ⟨⟨hsettled.move hown hmove, fun n hn => Nat.lt_of_lt_of_le (hown n hn) heffect.uuids⟩,
      hgranted.effect heffect⟩
  exact hinvariant.2

/-- In every run in which requests come with ids that are not in use and timeouts leave no login and no join
behind: when a mixer is asked to join a session to a loop, or the proxy to let it speak there, the client that
owns the session has a role and sent a switch for this loop that the permission of the role covered, to
receive at least, or to send. -/
theorem run_loop_access (config : Config) (db : vocs_db.Db) (es : List Event) (e : Event) (st st' : State)
    (hsingle : machine.along (step config) single_use (es ++ [e]) (State.init db))
    (hrun : run config es (State.init db) = some st) (hstep : step config e st = some st') :
    (∀ mixer uuid session loop, .mixer mixer uuid (.join session loop) ∈ st'.out →
      Granted (Permits st) st' .recv session loop) ∧
    ∀ uuid session loop, .proxy uuid (.talk session true loop) ∈ st'.out →
      Granted (Permits st) st' .send session loop := by
  obtain ⟨hbefore, hlast⟩ := (machine.along_append single_use es [e]).mp hsingle
  have hsettled := run_settled config db es hbefore hrun
  exact (step_reaches hsettled (hlast st hrun).1 hstep).all_granted

/-- A client asks to send on a loop where it may. -/
def switch_to_send : List Event :=
  [.mixer_register 1] ++ small_setup 3 "s" ++
    [simple_request 3 .switch_loop_state "7" [("loop", "both"), ("state", "send")]]

theorem run_loop_access_switch_to_send :
    machine.along (step small_config) single_use (switch_to_send ++ [.mixer_response 0 none .null {}])
        (State.init small_db) ∧
      ∃ st st', run small_config switch_to_send (State.init small_db) = some st ∧
        step small_config (.mixer_response 0 none .null {}) st = some st' ∧
        Granted (Permits st) st' .send "s" "both" := by
  have hsingle : machine.along (step small_config) single_use (switch_to_send ++ [.mixer_response 0 none .null {}])
      (State.init small_db) := by
    decide +kernel
  have hany : (run small_config switch_to_send (State.init small_db)).any (fun st =>
      (step small_config (.mixer_response 0 none .null {}) st).any (fun st' => st'.out.any (fun o => match o with
        | .proxy (.client uuid) command => decide (uuid = "7" ∧ command = .talk "s" true "both")
        | _ => false))) = true := by
    decide +kernel
  obtain ⟨st, hst, hnext⟩ := (Option.any_eq_true _ _).mp hany
  obtain ⟨st', hst', hsent⟩ := (Option.any_eq_true _ _).mp hnext
  obtain ⟨o, ho, hmatch⟩ := List.any_eq_true.mp hsent
  have htalk : Output.proxy (.client "7") (.talk "s" true "both") ∈ st'.out := by
    split at hmatch
    · obtain ⟨huuid, hcommand⟩ := of_decide_eq_true hmatch
      rw [huuid, hcommand] at ho
      exact ho
    · simp at hmatch
  exact ⟨hsingle, st, st', hst, hst',
    (run_loop_access small_config small_db switch_to_send _ st st' hsingle hst hst').2 _ _ _ htalk⟩

/-- A client asks to receive on a loop where it may not send, and sends a candidate with the same id and
another state in it. -/
def candidate_with_state : List Event :=
  [.mixer_register 1] ++ small_setup 3 "s" ++
    [simple_request 3 .switch_loop_state "7" [("loop", "listen"), ("state", "recv")],
     simple_request 3 .candidate "7" [("candidate", "c"), ("ufrag", "u"), ("state", "send")]]

/-- The proxy lets the client speak on the loop, and no request has asked for it. -/
theorem candidate_with_state_talks :
    ∃ st st', run small_config candidate_with_state (State.init small_db) = some st ∧
      step small_config (.mixer_response 0 none .null {}) st = some st' ∧
      .proxy (.client "7") (.talk "s" true "listen") ∈ st'.out ∧
      ∀ switch ∈ st'.switches, switch.loop = "listen" → switch.requested = .recv ∧ switch.permission = .recv := by
  have hany : (run small_config candidate_with_state (State.init small_db)).any (fun st =>
      (step small_config (.mixer_response 0 none .null {}) st).any (fun st' => st'.out.any (fun o => match o with
        | .proxy (.client uuid) command => decide (uuid = "7" ∧ command = .talk "s" true "listen")
        | _ => false) && decide (∀ switch ∈ st'.switches, switch.loop = "listen" →
          switch.requested = .recv ∧ switch.permission = .recv))) = true := by
    decide +kernel
  obtain ⟨st, hst, hnext⟩ := (Option.any_eq_true _ _).mp hany
  obtain ⟨st', hst', hboth⟩ := (Option.any_eq_true _ _).mp hnext
  obtain ⟨hsent, hswitches⟩ := (Bool.and_eq_true _ _).mp hboth
  obtain ⟨o, ho, hmatch⟩ := List.any_eq_true.mp hsent
  have htalk : Output.proxy (.client "7") (.talk "s" true "listen") ∈ st'.out := by
    split at hmatch
    · obtain ⟨huuid, hcommand⟩ := of_decide_eq_true hmatch
      rw [huuid, hcommand] at ho
      exact ho
    · simp at hmatch
  exact ⟨st, st', hst, hst', htalk, of_decide_eq_true hswitches⟩

end openvocs.vocs
