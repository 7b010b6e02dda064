import Openvocs.Vocs.DropComplete

namespace openvocs.vocs

open State

/-- The callbacks of the ICE proxy and the mixers that name a session. -/
inductive SessionEvent where
  | dropped
  | completed (success : Bool)
  | lost
  | acquired (uuid : Uuid) (error : Option Error)
  | released (error : Option Error)
  | leave (outside : Outside) (uuid : Uuid) (loop : String) (error : Option Error)
  | volume (uuid : Uuid) (loop : String) (error : Option Error)

namespace SessionEvent

def take (session : Session) (st : State) : SessionEvent → Option State
  | dropped => some (cb_frontend_session_dropped session st)
  | completed success => some (cb_frontend_session_completed session success st)
  | lost => some (cb_backend_mixer_lost session st)
  | acquired uuid error => some (cb_backend_mixer_acquired uuid session error st)
  | released error => some (cb_backend_mixer_released false session error st)
  | leave outside uuid loop error => cb_backend_mixer_leave outside uuid session loop error st
  | volume uuid loop error => some (cb_backend_mixer_volume uuid session loop error st)

/-- The id of the request that the callback answers. -/
def uuid : SessionEvent → Option Uuid
  | acquired uuid _ | leave _ uuid _ _ | volume uuid _ _ => some uuid
  | _ => none

/-- The callback drops whatever socket `vocs->sessions` has for its session. -/
def drops_unchecked : SessionEvent → Bool
  | dropped | completed false | lost => true
  | _ => false

end SessionEvent

/-- The clients are as they were but for the request of one id, and no socket is closed. -/
structure Harmless (uuid : Option Uuid) (before after : State) : Prop where
  connections : after.connections = before.connections
  loops : after.loops = before.loops
  broadcasts : after.broadcasts = before.broadcasts
  pending : ∀ other, uuid ≠ some other → after.pending other = before.pending other
  open_sockets : ∀ socket, .close socket ∉ after.out.drop before.out.length

namespace Harmless

variable {uuid : Option Uuid} {st st' : State}

theorem refl (uuid : Option Uuid) (st : State) : Harmless uuid st st :=
  ⟨rfl, rfl, rfl, fun _ _ => rfl, fun _ => by simp⟩

theorem async_unset (uuid : Uuid) (st : State) : Harmless (some uuid) st (st.async_unset uuid) where
  connections := rfl
  loops := rfl
  broadcasts := rfl
  pending other hother := by
    have hne : ¬ other = uuid := fun heq => hother (by rw [heq])
    simp only [State.pending, State.async_unset, assoc.lookup_erase, if_neg hne]
  open_sockets socket := by simp [State.async_unset]

theorem send (uuid : Option Uuid) (st : State) {o : Output} (ho : ∀ socket, o ≠ .close socket) :
    Harmless uuid st (st.send o) where
  connections := rfl
  loops := rfl
  broadcasts := rfl
  pending _ _ := rfl
  open_sockets socket := by simpa [State.send] using (ho socket).symm

end Harmless

theorem not_harmless_of_own {uuid : Option Uuid} {locked : Bool} {socket : Socket} {st after : State}
    (hown : ∃ mid : State, st.out <+: mid.out ∧ after = mid.drop_socket locked socket) : ¬ Harmless uuid st after := by
  obtain ⟨mid, ⟨sent, hsent⟩, rfl⟩ := hown
  have hout : (mid.drop_socket locked socket).out = st.out ++ (sent ++ [.close socket]) := by
    rw [← List.append_assoc, hsent]
    cases locked <;> rfl
  intro hharmless
  apply hharmless.open_sockets socket
  rw [hout, List.drop_left]
  simp

section

variable {session : Session} {st : State}

theorem Harmless.completed (hsession : st.sessions session = 0) :
    Harmless none st (cb_frontend_session_completed session true st) := by
  unfold cb_frontend_session_completed
  simp only [hsession, Bool.true_and, if_true, set_record]
  split
  · exact .refl none st
  split
  · exact .send none st (fun _ => by simp)
  · exact .refl none st

theorem Harmless.acquired (uuid : Uuid) (error : Option Error) (hsession : st.sessions session = 0) :
    Harmless (some uuid) st (cb_backend_mixer_acquired uuid session error st) := by
  have htaken : st.take_uuid.sessions session = 0 := hsession
  unfold cb_backend_mixer_acquired
  simp only [hsession, if_true]
  unfold release_mixer
  split
  · simp only [cb_backend_mixer_released, htaken, if_true]
    exact { refl (some uuid) st with }
  rename_i mixer hmixer
  have hsent := send (some uuid) st (o := .mixer mixer st.new_uuid (.release session)) (fun _ => by simp)
  exact { hsent with }

/-- A callback for a session that is not in `vocs->sessions` is harmless exactly
    when it looks at the socket before it drops it. -/
theorem unknown_session_harmless_when (e : SessionEvent) (session : Session) (st : State)
    (hsession : st.sessions session = 0) :
    ∃ after, e.take session st = some after ∧ (Harmless e.uuid st after ↔ e.drops_unchecked = false) := by
  cases e with
  | dropped =>
    have hharmful : ¬ Harmless none st _ := not_harmless_of_own (drop_with_mixer_own false false (st.sessions session) st)
    exact ⟨_, rfl, iff_of_false hharmful (by simp [SessionEvent.drops_unchecked])⟩
  | completed success =>
    cases success with
    | false =>
      have hharmful : ¬ Harmless none st _ := not_harmless_of_own (drop_with_mixer_own false false (st.sessions session) st)
      exact ⟨_, rfl, iff_of_false hharmful (by simp [SessionEvent.drops_unchecked])⟩
    | true => exact ⟨_, rfl, iff_of_true (.completed hsession) rfl⟩
  | lost =>
    have hharmful : ¬ Harmless none st _ := not_harmless_of_own (drop_without_mixer_own false true (st.sessions session) st)
    exact ⟨_, rfl, iff_of_false hharmful (by simp [SessionEvent.drops_unchecked])⟩
  | acquired uuid error => exact ⟨_, rfl, iff_of_true (.acquired uuid error hsession) rfl⟩
  | released error =>
    have hsame : SessionEvent.take session st (.released error) = some st := by
      simp only [SessionEvent.take, cb_backend_mixer_released, hsession, if_true]
    exact ⟨st, hsame, iff_of_true (.refl none st) rfl⟩
  | leave outside uuid loop error =>
    have hunset : SessionEvent.take session st (.leave outside uuid loop error) = some (st.async_unset uuid) := by
      have hsession' : (st.async_unset uuid).sessions session = 0 := hsession
      simp only [SessionEvent.take, cb_backend_mixer_leave, hsession', if_true]
    exact ⟨_, hunset, iff_of_true (.async_unset uuid st) rfl⟩
  | volume uuid loop error =>
    have hunset : SessionEvent.take session st (.volume uuid loop error) = some (st.async_unset uuid) := by
      have hsession' : (st.async_unset uuid).sessions session = 0 := hsession
      simp only [SessionEvent.take, cb_backend_mixer_volume, hsession', if_true]
    exact ⟨_, hunset, iff_of_true (.async_unset uuid st) rfl⟩

end

theorem unknown_session_harmless_when_left :
    ∃ after, SessionEvent.take "late" {} (.leave {} (.own 0) "both" none) = some after ∧ Harmless (some (.own 0)) {} after := by
  obtain ⟨after, htake, hiff⟩ := unknown_session_harmless_when (.leave {} (.own 0) "both" none) "late" {} rfl
  exact ⟨after, htake, hiff.mpr rfl⟩

/-- The server closes socket zero when the proxy reports the end of a session it does not know. -/
theorem unknown_session_closes_zero : ¬ Harmless none {} (cb_frontend_session_dropped "late" {}) :=
  not_harmless_of_own (drop_with_mixer_own false false 0 {})

end openvocs.vocs
