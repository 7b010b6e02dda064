import Mathlib.Data.Set.Insert
import Openvocs.Vocs.Drops

namespace openvocs.vocs

open State

def Output.is_broadcast : Output → Bool
  | .broadcast .. => true
  | _ => false

/-- The ways to `drop_connection`. The callbacks of the mixer and of the ICE proxy
    find the socket by its session. -/
inductive Route where
  | socket_close
  | logout (msg : Message)
  | timedout (request : Message)
  | mixer_lost (session : Session)
  | mixer_released (session : Session)
  | session_dropped (session : Session)
  | session_failed (session : Session)

namespace Route

/-- The route leads to a socket. -/
def leads (socket : Socket) (st : State) : Route → Prop
  | socket_close | logout _ | timedout _ => True
  | mixer_lost session | session_dropped session | session_failed session => st.sessions session = socket
  | mixer_released session => st.sessions session = socket ∧ socket ≠ 0

/-- The state in which the socket is dropped. -/
def take (socket : Socket) (st : State) : Route → Option State
  | socket_close => some (drop_connection socket st)
  | logout msg => (client_logout socket msg st).map Prod.snd
  | timedout request => some (async_timedout ⟨socket, request⟩ st)
  | mixer_lost session => some (cb_backend_mixer_lost session st)
  | mixer_released session => some (cb_backend_mixer_released false session none st)
  | session_dropped session => some (cb_frontend_session_dropped session st)
  | session_failed session => some (cb_frontend_session_completed session false st)

/-- The async store is locked by its invalidation run. -/
def locked : Route → Bool
  | timedout _ => true
  | _ => false

/-- The mixer of the session is released as well. -/
def releases : Route → Bool
  | mixer_lost _ | mixer_released _ => false
  | _ => true

end Route

/-- Nothing is left of a client, and the others were told. -/
structure Complete (socket : Socket) (before after : State) : Prop where
  connections : after.connections socket = {}
  participates : ∀ loop, after.participates socket loop = false
  broadcasts : ∀ name, after.broadcasts name socket = .unset
  async : ∀ entry ∈ after.async, entry.2.socket ≠ socket
  told : ∀ loop, (before.connections socket).loops loop ≠ .none →
    ∀ other, after.broadcasts loop other = .loop →
      ∃ content, .broadcast loop .loop content ∈ after.out.drop before.out.length ∧ content.state = some .none

/-- The sockets that a drop takes out of the broadcasts: its own, and the one that
    `vocs->sessions` has for its session when the mixer to be released is gone, so
    that `cb_backend_mixer_released` is called at once. -/
def gone (releases : Bool) (socket : Socket) (st : State) : Set Socket :=
  {other | other = socket ∨ releases = true ∧ other ≠ 0 ∧
    ∃ session, (st.connections socket).session = some session ∧ st.get_user session = none ∧
      st.sessions session = other}

/-- Some sockets are gone from the broadcasts and, where the store is not locked,
    from the pending requests. The others are as they were, and were told nothing. -/
structure Leaves (locked : Bool) (sockets : Set Socket) (st st' : State) : Prop where
  broadcasts : ∀ name socket, st'.broadcasts name socket = .loop ↔
    st.broadcasts name socket = .loop ∧ socket ∉ sockets
  async : ∀ socket, (∃ entry ∈ st'.async, entry.2.socket = socket) ↔
    (∃ entry ∈ st.async, entry.2.socket = socket) ∧ (socket ∈ sockets → locked = true)
  out : ∃ sent, st'.out = st.out ++ sent ∧ ∀ o ∈ sent, o.is_broadcast = false

namespace Leaves

variable {locked : Bool} {sockets others : Set Socket} {st st' st'' : State}

theorem trans (h : Leaves locked sockets st st') (h' : Leaves locked others st' st'') :
    Leaves locked (sockets ∪ others) st st'' where
  broadcasts name socket := by
    rw [h'.broadcasts, h.broadcasts, and_assoc, ← not_or]
    rfl
  async socket := by
    rw [h'.async, h.async, and_assoc, ← or_imp]
    rfl
  out := by
    obtain ⟨sent, hsent, hquiet⟩ := h.out
    obtain ⟨sent', hsent', hquiet'⟩ := h'.out
    refine ⟨sent ++ sent', by rw [hsent', hsent, List.append_assoc], fun o ho => ?_⟩
    obtain ho | ho := List.mem_append.mp ho
    · exact hquiet o ho
    · exact hquiet' o ho

theorem out_grows (h : Leaves locked sockets st st') : st.out <+: st'.out := by
  obtain ⟨sent, hsent, -⟩ := h.out
  exact ⟨sent, hsent.symm⟩

theorem stay (locked : Bool) (hbroadcasts : st'.broadcasts = st.broadcasts) (hasync : st'.async = st.async)
    (hout : ∃ sent, st'.out = st.out ++ sent ∧ ∀ o ∈ sent, o.is_broadcast = false) : Leaves locked ∅ st st' where
  broadcasts name socket := by simp [hbroadcasts]
  async socket := by simp [hasync]
  out := hout

theorem send (locked : Bool) (st : State) {o : Output} (ho : o.is_broadcast = false) :
    Leaves locked ∅ st (st.send o) :=
  stay locked rfl rfl ⟨[o], rfl, by simpa using ho⟩

theorem same (locked : Bool) (hbroadcasts : st'.broadcasts = st.broadcasts) (hasync : st'.async = st.async)
    (hout : st'.out = st.out) : Leaves locked ∅ st st' :=
  stay locked hbroadcasts hasync ⟨[], by simpa using hout, by simp⟩

theorem drop_socket (locked : Bool) (socket : Socket) (st : State) :
    Leaves locked {socket} st (st.drop_socket locked socket) where
  broadcasts name other := by
    have hunset : (st.drop_socket locked socket).broadcasts name other =
        Function.update (st.broadcasts name) socket .unset other := by
      cases locked <;> rfl
    rw [hunset]
    by_cases heq : other = socket <;> simp [heq]
  async other := by
    have hremaining : (st.drop_socket locked socket).async = remaining locked socket st.async := by cases locked <;> rfl
    rw [hremaining]
    cases locked with
    | true => simp [remaining]
    | false =>
      simp only [remaining, Bool.false_eq_true, if_false, List.mem_filter, decide_eq_true_eq, Set.mem_singleton_iff,
        imp_false]
      constructor
      · rintro ⟨entry, ⟨hentry, hne⟩, rfl⟩
        exact ⟨⟨entry, hentry, rfl⟩, hne⟩
      rintro ⟨⟨entry, hentry, rfl⟩, hne⟩
      exact ⟨entry, ⟨hentry, hne⟩, rfl⟩
  out := by
    refine ⟨[.close socket], ?_, by simp [Output.is_broadcast]⟩
    cases locked <;> rfl

theorem begin_drop (locked frontend : Bool) (session : Session) (st : State) :
    Leaves locked ∅ st (begin_drop frontend session st) := by
  cases frontend with
  | false => exact same locked rfl rfl rfl
  | true => exact stay locked rfl rfl ⟨[.proxy st.new_uuid (.drop_session session)], rfl, by simp [Output.is_broadcast]⟩

theorem drop_without_mixer (locked frontend : Bool) (socket : Socket) (st : State) :
    Leaves locked {socket} st (st.drop_without_mixer locked frontend socket) := by
  cases hsession : (st.connections socket).session with
  | none =>
    unfold State.drop_without_mixer drop_with
    rw [hsession]
    exact drop_socket locked socket st
  | some session =>
    rw [drop_without_mixer_eq hsession]
    have hclosed : Leaves locked ∅ (vocs.begin_drop frontend session st)
        ((vocs.begin_drop frontend session st).close_session session) := same locked rfl rfl rfl
    have hleaves := ((begin_drop locked frontend session st).trans hclosed).trans (drop_socket locked socket _)
    simpa using hleaves

end Leaves

namespace Leaves

variable {locked : Bool} {sockets : Set Socket} {st st' : State}

theorem release_mixer (locked : Bool) (uuid : Uuid) (session : Session) (st : State) :
    Leaves locked {other | other ≠ 0 ∧ st.get_user session = none ∧ st.sessions session = other} st
      (release_mixer locked uuid session st) := by
  unfold vocs.release_mixer
  cases hmixer : st.get_user session with
  | none =>
    have hreleased : Leaves locked {other | other ≠ 0 ∧ st.sessions session = other} st
        (cb_backend_mixer_released locked session none st) := by
      unfold cb_backend_mixer_released
      by_cases hzero : st.sessions session = 0
      · have hempty : {other | other ≠ 0 ∧ st.sessions session = other} = ∅ := by
          ext other
          simp only [hzero, Set.mem_ofPred_eq, Set.mem_empty_iff_false, iff_false, not_and]
          exact fun hne heq => hne heq.symm
        rw [hempty]
        simp only [hzero, if_true]
        exact same locked rfl rfl rfl
      have hsingle : {other | other ≠ 0 ∧ st.sessions session = other} = {st.sessions session} := by
        ext other
        simp only [Set.mem_ofPred_eq, Set.mem_singleton_iff]
        exact ⟨fun h => h.2.symm, fun h => ⟨by rwa [h], h.symm⟩⟩
      rw [hsingle]
      simp only [if_neg hzero]
      exact drop_without_mixer locked true _ st
    have hsame : Leaves locked ∅ (cb_backend_mixer_released locked session none st)
        ((cb_backend_mixer_released locked session none st).release_user session) := same locked rfl rfl rfl
    have hfree := hreleased.trans hsame
    simpa using hfree
  | some mixer =>
    have hempty : {other : Socket | other ≠ 0 ∧ some mixer = none ∧ st.sessions session = other} = ∅ := by
      ext other
      simp
    rw [hempty]
    exact stay locked rfl rfl ⟨[.mixer mixer uuid (.release session)], rfl, by simp [Output.is_broadcast]⟩

theorem drop_with_mixer (locked frontend : Bool) (socket : Socket) (st : State) :
    Leaves locked (gone true socket st) st (drop_with_mixer locked frontend socket st) := by
  cases hsession : (st.connections socket).session with
  | none =>
    have hgone : gone true socket st = {socket} := by
      ext other
      simp [gone, hsession]
    unfold vocs.drop_with_mixer drop_with
    rw [hsession, hgone]
    exact drop_socket locked socket st
  | some session =>
    rw [drop_with_mixer_eq hsession]
    have hbegun := begin_drop locked frontend session st
    have hreleased := release_mixer locked st.new_uuid session (vocs.begin_drop frontend session st)
    generalize hmid : vocs.begin_drop frontend session st = mid at hbegun hreleased
    have hsame : mid.get_user session = st.get_user session ∧ mid.sessions = st.sessions := by
      rw [← hmid]
      cases frontend <;> exact ⟨rfl, rfl⟩
    have hclosed : Leaves locked ∅ (vocs.release_mixer locked st.new_uuid session mid)
        ((vocs.release_mixer locked st.new_uuid session mid).close_session session) := same locked rfl rfl rfl
    have hleaves := ((hbegun.trans hreleased).trans hclosed).trans (drop_socket locked socket _)
    have hgone : gone true socket st =
        ∅ ∪ {other | other ≠ 0 ∧ mid.get_user session = none ∧ mid.sessions session = other} ∪ ∅ ∪ {socket} := by
      ext other
      simp only [gone, hsession, hsame, Option.some.injEq, exists_eq_left', true_and, Set.mem_ofPred_eq,
        Set.empty_union, Set.union_empty, Set.mem_union, Set.mem_singleton_iff]
      exact or_comm
    rw [hgone]
    exact hleaves

end Leaves

theorem drop_socket_own (locked : Bool) (socket : Socket) (st : State) :
    (st.drop_socket locked socket).connections socket = {} ∧
      (∀ loop, (st.drop_socket locked socket).participates socket loop = false) ∧
      ∀ name, (st.drop_socket locked socket).broadcasts name socket = .unset := by
  refine ⟨?_, fun loop => ?_, fun name => ?_⟩
  · cases locked <;> exact Function.update_self ..
  · have hloops : (st.drop_socket locked socket).loops = (st.close_participations socket).loops := by
      cases locked <;> rfl
    rw [participates_congr hloops, participates_close_participations, if_pos rfl]
  · cases locked <;> exact Function.update_self ..

theorem drop_with_own {release : Uuid → Session → State → State}
    (hrelease : ∀ uuid session (st : State), st.out <+: (release uuid session st).out) (locked frontend : Bool)
    (socket : Socket) (st : State) :
    ∃ mid : State, st.out <+: mid.out ∧ st.drop_with release locked frontend socket = mid.drop_socket locked socket := by
  unfold drop_with
  split
  · exact ⟨st, List.prefix_rfl, rfl⟩
  rename_i session hsession
  have hbegun : st.out <+: (begin_drop frontend session st).out := (Leaves.begin_drop false frontend session st).out_grows
  exact ⟨(release st.new_uuid session (begin_drop frontend session st)).close_session session,
    hbegun.trans (hrelease _ _ _), rfl⟩

theorem drop_with_mixer_own (locked frontend : Bool) (socket : Socket) (st : State) :
    ∃ mid : State, st.out <+: mid.out ∧ drop_with_mixer locked frontend socket st = mid.drop_socket locked socket :=
  drop_with_own (fun uuid session st => (Leaves.release_mixer locked uuid session st).out_grows) locked frontend socket st

theorem drop_without_mixer_own (locked frontend : Bool) (socket : Socket) (st : State) :
    ∃ mid : State, st.out <+: mid.out ∧ st.drop_without_mixer locked frontend socket = mid.drop_socket locked socket :=
  drop_with_own (fun _ _ _ => List.prefix_rfl) locked frontend socket st

theorem Complete.iff_of_leaves {locked : Bool} {sockets : Set Socket} {socket : Socket} {before begun after : State}
    (hbegun : Leaves locked ∅ before begun) (hleaves : Leaves locked sockets begun after)
    (hsocket : socket ∈ sockets) (hown : ∃ mid : State, begun.out <+: mid.out ∧ after = mid.drop_socket locked socket) :
    Complete socket before after ↔
      (locked = true → ∀ entry ∈ before.async, entry.2.socket ≠ socket) ∧
        ∀ loop, (before.connections socket).loops loop ≠ .none →
          ∀ other, before.broadcasts loop other = .loop → other ∈ sockets := by
  have hall := hbegun.trans hleaves
  rw [Set.empty_union] at hall
  have hasync : (∀ entry ∈ after.async, entry.2.socket ≠ socket) ↔
      (locked = true → ∀ entry ∈ before.async, entry.2.socket ≠ socket) := by
    have hiff := hall.async socket
    constructor
    · intro hnone hlocked entry hentry heq
      obtain ⟨entry', hentry', heq'⟩ := hiff.mpr ⟨⟨entry, hentry, heq⟩, fun _ => hlocked⟩
      exact hnone entry' hentry' heq'
    intro hnone entry hentry heq
    obtain ⟨⟨entry', hentry', heq'⟩, hlocked⟩ := hiff.mp ⟨entry, hentry, heq⟩
    exact hnone (hlocked hsocket) entry' hentry' heq'
  constructor
  · intro hcomplete
    refine ⟨hasync.mp hcomplete.async, fun loop hloop other hother => ?_⟩
    by_contra hstays
    obtain ⟨content, hmem, -⟩ := hcomplete.told loop hloop other ((hall.broadcasts loop other).mpr ⟨hother, hstays⟩)
    -- a drop sends no broadcast at all
    obtain ⟨sent, hsent, hquiet⟩ := hall.out
    rw [hsent, List.drop_left] at hmem
    have hbroadcast := hquiet _ hmem
    simp [Output.is_broadcast] at hbroadcast
  rintro ⟨hpending, halone⟩
  obtain ⟨mid, -, rfl⟩ := hown
  obtain ⟨hrecord, hparticipates, hunset⟩ := drop_socket_own locked socket mid
  refine ⟨hrecord, hparticipates, hunset, hasync.mpr hpending, fun loop hloop other hother => ?_⟩
  obtain ⟨hbefore, hstays⟩ := (hall.broadcasts loop other).mp hother
  exact absurd (halone loop hloop other hbefore) hstays

theorem drop_with_mixer_complete {before begun : State} (locked frontend : Bool) (socket : Socket)
    (hbegun : Leaves locked ∅ before begun) (hgone : gone true socket begun = gone true socket before) :
    Complete socket before (drop_with_mixer locked frontend socket begun) ↔
      (locked = true → ∀ entry ∈ before.async, entry.2.socket ≠ socket) ∧
        ∀ loop, (before.connections socket).loops loop ≠ .none →
          ∀ other, before.broadcasts loop other = .loop → other ∈ gone true socket before := by
  have hleaves := Leaves.drop_with_mixer locked frontend socket begun
  rw [hgone] at hleaves
  exact Complete.iff_of_leaves hbegun hleaves (Or.inl rfl) (drop_with_mixer_own locked frontend socket begun)

theorem drop_without_mixer_complete (socket : Socket) (st : State) :
    Complete socket st (st.drop_without_mixer false true socket) ↔
      (false = true → ∀ entry ∈ st.async, entry.2.socket ≠ socket) ∧
        ∀ loop, (st.connections socket).loops loop ≠ .none →
          ∀ other, st.broadcasts loop other = .loop → other ∈ gone false socket st := by
  have hgone : gone false socket st = {socket} := by
    ext other
    simp [gone]
  rw [hgone]
  exact Complete.iff_of_leaves (Leaves.same false rfl rfl rfl) (Leaves.drop_without_mixer false true socket st) rfl
    (drop_without_mixer_own false true socket st)

/-- A drop is complete when no one is left who would have to be told, and the store
    is not locked while another request of the client is pending. -/
theorem drop_complete_when (route : Route) (socket : Socket) (st : State) (hleads : route.leads socket st) :
    ∃ after, route.take socket st = some after ∧
      (Complete socket st after ↔
        (route.locked = true → ∀ entry ∈ st.async, entry.2.socket ≠ socket) ∧
          ∀ loop, (st.connections socket).loops loop ≠ .none →
            ∀ other, st.broadcasts loop other = .loop → other ∈ gone route.releases socket st) := by
  cases route with
  | socket_close =>
    exact ⟨_, rfl, drop_with_mixer_complete false true socket (.same false rfl rfl rfl) rfl⟩
  | logout msg =>
    refine ⟨_, rfl, ?_⟩
    have hsent := Leaves.send false st (o := .response socket msg .success) rfl
    cases (st.connections socket).client with
    | none => exact drop_with_mixer_complete false true socket hsent rfl
    | some client =>
      have hsame : Leaves false ∅ (st.respond socket msg .success) { st.respond socket msg .success with
          user_sessions := Function.update st.user_sessions client none } := .same false rfl rfl rfl
      have hclosed := hsent.trans hsame
      rw [Set.empty_union] at hclosed
      exact drop_with_mixer_complete false true socket hclosed rfl
  | timedout request =>
    have hsent := Leaves.send true st (o := .response socket request (.error Error.timeout)) rfl
    exact ⟨_, rfl, drop_with_mixer_complete true true socket hsent rfl⟩
  | mixer_lost session =>
    have heq : st.sessions session = socket := hleads
    subst heq
    exact ⟨_, rfl, drop_without_mixer_complete _ st⟩
  | mixer_released session =>
    obtain ⟨heq, hne⟩ : st.sessions session = socket ∧ socket ≠ 0 := hleads
    subst heq
    have hdropped : Route.take (st.sessions session) st (.mixer_released session) =
        some (st.drop_without_mixer false true (st.sessions session)) := by
      simp only [Route.take, cb_backend_mixer_released, if_neg hne]
    exact ⟨_, hdropped, drop_without_mixer_complete _ st⟩
  | session_dropped session =>
    have heq : st.sessions session = socket := hleads
    subst heq
    exact ⟨_, rfl, drop_with_mixer_complete false false _ (.same false rfl rfl rfl) rfl⟩
  | session_failed session =>
    have heq : st.sessions session = socket := hleads
    subst heq
    exact ⟨_, rfl, drop_with_mixer_complete false false _ (.same false rfl rfl rfl) rfl⟩

/-- The client of a session hears a loop, and so does another client where there is one. -/
def listeners (other : Bool) : State where
  connections socket :=
    if socket = 1 ∨ socket = 2 ∧ other = true then
      { user := some "alice", role := some "operator", session := if socket = 1 then some "s" else none
        loops := fun loop => if loop = "both" then .recv else .none }
    else {}
  sessions session := if session = "s" then 1 else 0
  loops loop :=
    if loop = "both" then
      some ([(1, ⟨none, "alice", "operator"⟩)] ++ if other then [(2, ⟨none, "alice", "operator"⟩)] else [])
    else none
  broadcasts name socket :=
    if name = "both" ∧ (socket = 1 ∨ socket = 2 ∧ other = true) then .loop else .unset

theorem drop_complete_when_alone :
    ∃ after, Route.take 1 (listeners false) (.mixer_lost "s") = some after ∧ Complete 1 (listeners false) after := by
  obtain ⟨after, htake, hiff⟩ := drop_complete_when (.mixer_lost "s") 1 (listeners false) rfl
  refine ⟨after, htake, hiff.mpr ⟨by simp [Route.locked], fun loop _ other hother => ?_⟩⟩
  have heq : other = 1 := by
    by_contra hne
    simp [listeners, hne] at hother
  exact Or.inl heq

/-- The other listener is not told. -/
theorem drop_tells_no_one : ¬ Complete 1 (listeners true) (drop_connection 1 (listeners true)) := by
  intro hcomplete
  have hconditions := (drop_with_mixer_complete false true 1 (.same false rfl rfl rfl) rfl).mp hcomplete
  obtain heq | ⟨-, -, session, hsession, -, hsocket⟩ := hconditions.2 "both" (by simp [listeners]) 2 rfl
  · exact absurd heq (by decide)
  · have hname : session = "s" := by simpa [listeners] using hsession.symm
    subst hname
    exact absurd hsocket (by decide)

end openvocs.vocs
