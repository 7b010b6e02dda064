import Mathlib.Data.Fintype.EquivFin
import Mathlib.Data.List.Perm.Basic
import Openvocs.Vocs.Sound

open List Option

namespace openvocs.vocs

open State

/-- A request is stored, or a message is under way, with the id. -/
def State.in_use (st : State) (uuid : Uuid) : Prop := uuid ∈ st.underway ∨ (st.pending uuid).isSome

instance (st : State) (uuid : Uuid) : Decidable (st.in_use uuid) :=
  inferInstanceAs (Decidable (_ ∨ _))

/-- The answer to a login or to a join is still to come under the id. -/
def State.expects (st : State) (uuid : Uuid) : Prop :=
  (∃ r ∈ st.ldap_requests, r.uuid = uuid) ∨ ∃ r ∈ st.mixer_requests, r.uuid = uuid ∧ r.command.callback = .join

instance (st : State) (uuid : Uuid) : Decidable (st.expects uuid) :=
  inferInstanceAs (Decidable (_ ∨ _))

/-- A request of the client is among those that have expired. -/
def State.expires (st : State) (expired : List Nat) (socket : Socket) : Prop :=
  ∃ entry ∈ st.async, entry.1 ∈ expired_uuids expired st ∧ entry.2.socket = socket

instance (st : State) (expired : List Nat) (socket : Socket) : Decidable (st.expires expired socket) :=
  inferInstanceAs (Decidable (∃ entry ∈ st.async, entry.1 ∈ expired_uuids expired st ∧ entry.2.socket = socket))

/-- The condition on a step under which answers find the requests they belong to: a
    request comes with an id that is not in use, and a client that is dropped because a
    request has expired leaves no other request in the store that expects the answer to
    a login or to a join. -/
def single_use (st : State) (e : Event) : Prop :=
  match e with
  | .request _ request msg _ => request.is_idless = true ∨ ∀ id ∈ msg.uuid, ¬st.in_use (.client id)
  | .timeout expired => ∀ entry ∈ st.async, st.expires expired entry.2.socket →
      entry.1 ∈ expired_uuids expired st ∨ ¬st.expects entry.1
  | _ => True

instance (st : State) (e : Event) : Decidable (single_use st e) := by
  unfold single_use
  split <;> infer_instance

/-- Nobody is gone between two steps. -/
abbrev Settled (st : State) : Prop := Sound (fun _ => False) st

theorem settled_init (db : vocs_db.Db) : Settled (State.init db) where
  nodup := by simp [State.underway, State.init]
  own := by simp [State.underway, State.init]
  callbacks := by simp [State.init]
  zero := rfl
  held := by simp [State.init]
  acquiring := by simp [State.init]
  releasing := by simp [State.init]
  used := by simp [State.init]
  owned := owned_init db
  fits := by simp [State.init]

section

variable {gone : Socket → Prop} {st st' : State} {uuid : Uuid}

theorem mem_async {data : Pending} (hpending : st.pending uuid = some data) : (uuid, data) ∈ st.async := by
  obtain ⟨before, after, heq, -⟩ := lookup_eq_some_iff.mp hpending
  rw [heq]
  exact mem_append_right _ mem_cons_self

theorem exists_unused (st : State) : ∃ id, ¬st.in_use (.client id) := by
  obtain ⟨id, hid⟩ := Infinite.exists_notMem_finset
    ((st.underway ++ st.async.map Prod.fst).filterMap fun uuid => uuid.casesOn some fun _ => none).toFinset
  refine ⟨id, fun huse => hid ?_⟩
  rw [List.mem_toFinset, mem_filterMap]
  refine ⟨.client id, mem_append.mpr ?_, rfl⟩
  obtain hunderway | hpending := huse
  · exact Or.inl hunderway
  obtain ⟨data, hdata⟩ := isSome_iff_exists.mp hpending
  exact Or.inr (List.mem_map.mpr ⟨_, mem_async hdata, rfl⟩)

theorem Sound.consume (h : Sound gone st) (hsteady : Steady st st') (hperm : st.underway.Perm (uuid :: st'.underway))
    (hmixer : st'.mixer_requests ⊆ st.mixer_requests) (hldap : st'.ldap_requests ⊆ st.ldap_requests)
    (hcallbacks : st'.callbacks = st.callbacks) (huuids : st'.uuids = st.uuids) (hasync : st'.async = st.async) :
    Sound gone st' ∧ uuid ∉ st'.underway ∧ ∀ n, uuid = .own n → n < st'.uuids := by
  have hnodup := nodup_cons.mp (hperm.nodup_iff.mp h.nodup)
  have htidy : Tidy st' := by
    refine ⟨hnodup.2, fun n hn => ?_, ?_⟩
    · rw [huuids]
      exact h.own n (hperm.mem_iff.mpr (mem_cons_of_mem _ hn))
    rw [hcallbacks]
    exact fun entry hentry r hr => h.callbacks entry hentry r (hmixer hr)
  refine ⟨h.steady hsteady htidy (fun r hr => Or.inl (hmixer hr)) fun other data hgone hmem => ?_, hnodup.1,
    fun n hn => ?_⟩
  · rw [hasync] at hmem
    exact hsteady.fits (h.fits other data hgone hmem) (fun r hr _ => hldap hr) (fun r hr _ => Or.inl (hmixer hr))
  rw [huuids]
  exact h.own n (hperm.mem_iff.mpr (hn ▸ mem_cons_self))

variable {i : Nat}

theorem perm_eraseIdx {α : Type} (f : α → Uuid) {l : List α} {r : α} (hr : l[i]? = some r)
    (before after : List Uuid) :
    (before ++ (l.map f ++ after)).Perm (f r :: (before ++ ((l.eraseIdx i).map f ++ after))) := by
  obtain ⟨hi, hget⟩ := List.getElem?_eq_some_iff.mp hr
  have hperm : l.Perm (r :: l.eraseIdx i) := by
    rw [← hget]
    exact (getElem_cons_eraseIdx_perm hi).symm
  have hmapped := ((hperm.map f).append_right after).append_left before
  exact hmapped.trans perm_middle

/-- What a run of the invalidation may do to the requests. -/
structure TimedOut (st st' : State) : Prop where
  async : st'.async ⊆ st.async
  ldap_requests : st'.ldap_requests = st.ldap_requests
  mixer_requests : ∀ r ∈ st'.mixer_requests, r ∈ st.mixer_requests ∨ r.command.callback ≠ .join
  out : ∀ o ∈ st'.out, o ∈ st.out ∨ o.is_quiet

theorem TimedOut.trans {st'' : State} (h : TimedOut st st') (h' : TimedOut st' st'') : TimedOut st st'' where
  async := List.Subset.trans h'.async h.async
  ldap_requests := h'.ldap_requests.trans h.ldap_requests
  mixer_requests r hr := by
    obtain hold | hother := h'.mixer_requests r hr
    · exact h.mixer_requests r hold
    · exact Or.inr hother
  out o ho := by
    obtain hold | hquiet := h'.out o ho
    · exact h.out o hold
    · exact Or.inr hquiet

theorem Sound.async_timedout (h : Sound gone st) (data : Pending) (hgone : gone data.socket) :
    Sound gone (async_timedout data st) ∧ TimedOut st (async_timedout data st) := by
  unfold vocs.async_timedout
  have hkeeps := Keeps.respond st data.socket data.value (.error Error.timeout)
  have hsound := h.keep hkeeps
  generalize st.respond data.socket data.value (.error Error.timeout) = mid at hkeeps hsound
  have hdropped := Dropped.drop_with_mixer hsound.owned true true data.socket
  refine ⟨hsound.drop_with_mixer true true (fun _ => hgone), ?_, ?_, fun r hr => ?_, fun o ho => ?_⟩
  · rw [hdropped.async, ← hkeeps.async]
    exact remaining_subset true data.socket mid.async
  · rw [hdropped.ldap_requests, hkeeps.ldap_requests]
  · rw [← hkeeps.mixer_requests]
    obtain hsame | ⟨session, -, hreleased⟩ := drop_with_mixer_booking mid true true data.socket
    · rw [hsame.mixer_requests] at hr
      exact Or.inl hr
    obtain hold | hrelease := hreleased.mem_requests r hr
    · exact Or.inl hold
    rw [hrelease]
    exact Or.inr (by simp [MixerCommand.callback])
  obtain hold | hquiet := hdropped.out o ho
  · exact hkeeps.out o hold
  · exact Or.inr hquiet

theorem Sound.invalidate (uuids : List Uuid) (h : Sound gone st)
    (hgone : ∀ uuid ∈ uuids, ∀ data, (uuid, data) ∈ st.async → gone data.socket) :
    Sound gone (invalidate uuids st) ∧ TimedOut st (invalidate uuids st) ∧
      ∀ entry ∈ (invalidate uuids st).async, entry.1 ∉ uuids := by
  induction uuids generalizing st with
  | nil =>
    simp only [vocs.invalidate]
    exact ⟨h, ⟨List.Subset.refl _, rfl, fun r hr => Or.inl hr, fun o ho => Or.inl ho⟩, by simp⟩
  | cons uuid uuids ih =>
    have hrest : ∀ other ∈ uuids, ∀ data, (other, data) ∈ st.async → gone data.socket :=
      fun other hother => hgone other (mem_cons_of_mem _ hother)
    unfold vocs.invalidate
    split
    · rename_i hnone
      obtain ⟨hsound, htimed, hkeys⟩ := ih h hrest
      refine ⟨hsound, htimed, fun entry hentry => ?_⟩
      rw [mem_cons, not_or]
      refine ⟨fun heq => ?_, hkeys entry hentry⟩
      exact not_mem_async hnone entry.2 (heq ▸ htimed.async hentry)
    rename_i data hpending
    have hsocket := hgone uuid mem_cons_self data (mem_async hpending)
    obtain ⟨hfirst, htimed⟩ := (h.unset uuid).async_timedout data hsocket
    have hunset : ∀ entry ∈ (vocs.async_timedout data (st.async_unset uuid)).async,
        entry ∈ st.async ∧ entry.1 ≠ uuid := by
      intro entry hentry
      simpa [State.async_unset, assoc.erase] using htimed.async hentry
    obtain ⟨hsound, htimed', hkeys⟩ := ih hfirst
      (fun other hother data' hmem => hrest other hother data' (hunset _ hmem).1)
    refine ⟨hsound, ?_, fun entry hentry => ?_⟩
    · have hstart : TimedOut st (st.async_unset uuid) :=
        ⟨filter_subset_self _, rfl, fun r hr => Or.inl hr, fun o ho => Or.inl ho⟩
      exact (hstart.trans htimed).trans htimed'
    rw [mem_cons, not_or]
    exact ⟨(hunset entry (htimed'.async hentry)).2, hkeys entry hentry⟩

theorem Sound.timeout (h : Settled st) {expired : List Nat} (hsingle : single_use st (.timeout expired)) :
    Settled (vocs.invalidate (expired_uuids expired st) st) ∧
      TimedOut st (vocs.invalidate (expired_uuids expired st) st) := by
  have hstart : Sound (st.expires expired) st :=
    { h with fits := fun uuid data _ hmem => h.fits uuid data (fun hgone => hgone) hmem }
  obtain ⟨hsound, htimed, hkeys⟩ := hstart.invalidate (expired_uuids expired st)
    (fun uuid huuid data hmem => ⟨(uuid, data), hmem, huuid, rfl⟩)
  refine ⟨{ hsound with fits := fun uuid data _ hmem => ?_ }, htimed⟩
  by_cases hgone : st.expires expired data.socket
  · have hexpects : ¬st.expects uuid := by
      obtain hexpired | hexpects := hsingle (uuid, data) (htimed.async hmem) hgone
      · exact absurd hexpired (hkeys _ hmem)
      · exact hexpects
    refine ⟨(h.fits uuid data (fun hfalse => hfalse) (htimed.async hmem)).key, fun r hr huuid => ?_,
      fun r hr huuid session loop hcommand => ?_⟩
    · rw [htimed.ldap_requests] at hr
      exact absurd (Or.inl ⟨r, hr, huuid⟩) hexpects
    have hcallback : r.command.callback = .join := by rw [hcommand]; rfl
    obtain hold | hother := htimed.mixer_requests r hr
    · exact absurd (Or.inr ⟨r, hold, huuid, hcallback⟩) hexpects
    · exact absurd hcallback hother
  · exact hsound.fits uuid data hgone hmem

/-- The switch was covered by the permission of its role, and the client that has sent it
    is the one that owns the session, still connected and with this role. -/
def Permits (st : State) (switch : Switch) : Prop :=
  permission_granted switch.permission switch.requested = true ∧ switch.socket ≠ 0 ∧
    st.sessions switch.session = switch.socket ∧ switch.connection = st.drops switch.socket ∧
    (st.connections switch.socket).role = some switch.role

/-- A step is over when a handler has made its moves, after a start at which no session
    was let into a loop. -/
def Reaches (st st' : State) : Prop :=
  ∃ uuid mid, Settled mid ∧ (∀ o ∈ mid.out, o.is_quiet) ∧ (∀ n, uuid = .own n → n < mid.uuids) ∧
    Moves uuid (Permits st) mid st'

variable {session : Session}

theorem SwitchOf.granted {data : Pending} {mixer : Socket} {loop : String}
    (h : SwitchOf st data mixer session loop)
    (hsend : permission_from_string (data.value.get "state") = .send) :
    Granted (Permits st) st .send session loop := by
  obtain ⟨hsocket, howner, -, -, switch, ⟨hmem, hgranted, hconnection, hrole⟩, hfrom, hsession, hloop, hrequested⟩ := h
  refine ⟨switch, hmem, ⟨hgranted, ?_, ?_, hconnection, hrole⟩, hsession, hloop, ?_⟩
  · rw [hfrom]
    exact hsocket
  · rw [hsession, hfrom]
    exact howner
  rw [hrequested, hsend]
  rfl

/-- What is known about a message to a mixer when its answer comes. -/
structure Answered (st : State) (r : MixerRequest) : Prop where
  new : r.uuid ∉ st.underway
  own : ∀ n, r.uuid = .own n → n < st.uuids
  callback : ∀ cb, st.callbacks.lookup r.uuid = some cb → cb = r.command.callback
  acquiring : ∀ session, r.command = .acquire session → session ∈ st.session_ids ∧
    (st.users session = 0 ∨ st.users session = r.mixer ∧ st.slots r.mixer = some (some session))
  releasing : ∀ session, r.command = .release session → session ∈ st.session_ids ∧ st.users session = 0
  switch : ∀ session loop, r.command = .join session loop → ∀ data, st.pending r.uuid = some data →
    SwitchOf st data r.mixer session loop

theorem Settled.acquire_failed {r : MixerRequest} (h : Settled st) (hr : Answered st r)
    (hcommand : r.command = .acquire session) (hout : st.out = []) {error : Error} {cb : Option Callback}
    (hresponse : (match cb with
      | none => some (close_mixer r.mixer (st.release_user session))
      | some cb => call_mixer_callback cb r.uuid session (some error) (st.release_user session)) = some st')
    (hcb : ∀ c, cb = some c → c = .acquired) : Reaches st st' := by
  obtain ⟨hknown, hbooked⟩ := hr.acquiring session hcommand
  have hheld : st.Held session := by
    obtain hzero | ⟨husers, hslot⟩ := hbooked
    · exact Or.inl hzero
    refine Or.inr ?_
    rw [husers, hslot]
  cases cb with
  | none =>
    cases hresponse
    obtain hzero | ⟨husers, hslot⟩ := hbooked
    · rw [h.release_user_eq hzero]
      exact ⟨r.uuid, st, h, by simp [hout], hr.own, Relation.ReflTransGen.single (.close r.mixer)⟩
    have huser : (st.release_user session).slot_user r.mixer = "" := by
      simp [State.slot_user, State.release_user, husers, hslot]
    rw [close_mixer_eq, if_pos huser]
    refine ⟨r.uuid, _, h.release_unregister husers hslot hknown, ?_, hr.own, Relation.ReflTransGen.refl⟩
    change ∀ o ∈ st.out, o.is_quiet
    simp [hout]
  | some cb =>
    cases hcb cb rfl
    cases hresponse
    by_cases hsession : st.sessions session = 0
    · have hmid : Settled (st.release_user session) := by
        refine h.release_user hheld hknown fun uuid data hgone hmem hsocket howner => ?_
        exact hsocket (howner.symm.trans hsession)
      have hfree : (st.release_user session).users session = 0 := by rw [users_release_user, if_pos rfl]
      refine ⟨r.uuid, st.release_user session, hmid, ?_, hr.own,
        Moves.cb_backend_mixer_acquired Relation.ReflTransGen.refl (Or.inl hfree) hknown⟩
      change ∀ o ∈ st.out, o.is_quiet
      simp [hout]
    -- the client is dropped, and with it every request that its mixer was asked for
    · have hdrop : cb_backend_mixer_acquired r.uuid session (some error) (st.release_user session) =
          (((st.async_unset r.uuid).drop_without_mixer false true (st.sessions session)).release_user session) := by
        rw [release_drop_without_mixer]
        have hsocket : (st.release_user session).sessions session ≠ 0 := hsession
        simp only [cb_backend_mixer_acquired, if_neg hsocket]
        rfl
      have hdropped := Dropped.drop_without_mixer (st.async_unset r.uuid) false true (st.sessions session)
      have hsame := SameBooking.drop_without_mixer (st.async_unset r.uuid) false true (st.sessions session)
      have hsound : Settled ((st.async_unset r.uuid).drop_without_mixer false true (st.sessions session)) :=
        Sound.drop_without_mixer (h.unset r.uuid) true _
      rw [hdrop]
      generalize (st.async_unset r.uuid).drop_without_mixer false true (st.sessions session) = mid at *
      have hmid : Settled (mid.release_user session) := by
        refine hsound.release_user ?_ ?_ fun uuid data hgone hmem hsocket howner => ?_
        · unfold State.Held
          rw [hsame.users, hsame.slots]
          exact hheld
        · rw [hdropped.session_ids]
          exact hknown
        have hne := hdropped.ne_of_unlocked hmem
        rw [hdropped.sessions] at howner
        split at howner
        · exact hsocket howner.symm
        · exact hne howner.symm
      refine ⟨r.uuid, mid.release_user session, hmid, fun o ho => ?_, fun n hn => ?_, Relation.ReflTransGen.refl⟩
      · obtain hold | hquiet := hdropped.out o ho
        · change o ∈ st.out at hold
          rw [hout] at hold
          simp at hold
        · exact hquiet
      · exact Nat.lt_of_lt_of_le (hr.own n hn) hdropped.uuids

theorem Reaches.of_moves {mid : State} (h : Settled mid) (hout : mid.out = [])
    (hown : ∀ n, uuid = .own n → n < mid.uuids) (hmoves : Moves uuid (Permits st) mid st') : Reaches st st' :=
  ⟨uuid, mid, h, by simp [hout], hown, hmoves⟩

theorem Settled.mixer_response {outside : Outside} {r : MixerRequest} {error : Option Error} {content : Json}
    (h : Settled st) (hr : Answered st r) (hout : st.out = [])
    (hresponse : mixer_response outside r error content st = some st') : Reaches st st' := by
  have hrefl : Moves r.uuid (Permits st) st st := Relation.ReflTransGen.refl
  have hnext : Moves r.uuid (Permits st) st (st.unregister_callback r.uuid) := hrefl.keep (.unregister_callback st _)
  have hcb := hr.callback
  have hkeyed : ∀ data, st.pending r.uuid = some data → ∀ id, data.value.uuid = some id → r.uuid = .client id :=
    fun data hdata => (h.fits r.uuid data (fun hfalse => hfalse) (mem_async hdata)).key
  simp only [vocs.mixer_response] at hresponse
  generalize st.callbacks.lookup r.uuid = cb at hcb hresponse
  split at hresponse
  · rename_i session hcommand
    rw [hcommand] at hcb
    cases error with
    | some error =>
      have hsettled : Settled (st.unregister_callback r.uuid) := h.keep (.unregister_callback st _)
      have hanswered : Answered (st.unregister_callback r.uuid) r :=
        ⟨hr.new, hr.own, fun c hc => by simp [State.unregister_callback, assoc.lookup_erase] at hc, hr.acquiring,
          hr.releasing, hr.switch⟩
      simp only [isSome_some, if_true] at hresponse
      exact hsettled.acquire_failed hanswered hcommand hout hresponse hcb
    | none =>
      simp only [isSome_none, Bool.false_eq_true, if_false] at hresponse
      obtain ⟨hknown, hbooked⟩ := hr.acquiring session hcommand
      split at hresponse
      · cases hresponse
        exact .of_moves h hout hr.own (hnext.tail (.close r.mixer))
      rename_i c
      cases hcb c rfl
      cases hresponse
      refine .of_moves h hout hr.own (hnext.cb_backend_mixer_acquired ?_ hknown)
      obtain hzero | ⟨husers, hslot⟩ := hbooked
      · exact Or.inl hzero
      refine Or.inr ?_
      change st.slots (st.users session) = _
      rw [husers, hslot]
  · rename_i session hcommand
    rw [hcommand] at hcb
    have hsettled : Settled (st.unregister_callback r.uuid) := h.keep (.unregister_callback st _)
    have hmid : Moves r.uuid (Permits st) st (if error.isSome then close_mixer r.mixer (st.unregister_callback r.uuid)
        else (st.unregister_callback r.uuid).release_user session) := by
      split
      · exact hnext.tail (.close r.mixer)
      rw [hsettled.release_user_eq (hr.releasing session hcommand).2]
      exact hnext
    split at hresponse
    · cases hresponse
      exact .of_moves h hout hr.own hmid
    rename_i c
    cases hcb c rfl
    cases hresponse
    exact .of_moves h hout hr.own (hmid.cb_backend_mixer_released session error)
  · rename_i session loop hcommand
    rw [hcommand] at hcb
    split at hresponse
    · cases hresponse
      exact .of_moves h hout hr.own (hnext.tail (.close r.mixer))
    rename_i c
    cases hcb c rfl
    refine .of_moves h hout hr.own (hnext.cb_backend_mixer_join hr.new hkeyed ?_ hresponse)
    intro data hdata hsend
    have hof := hr.switch session loop hcommand data hdata
    rw [show (st.unregister_callback r.uuid).slot_user r.mixer = session from slot_user_of_slots hof.2.2.2.1]
    exact hof.granted hsend
  · rename_i session loop hcommand
    rw [hcommand] at hcb
    split at hresponse
    · cases hresponse
      exact .of_moves h hout hr.own hnext
    rename_i c
    cases hcb c rfl
    exact .of_moves h hout hr.own (hnext.cb_backend_mixer_leave hresponse)
  · split at hresponse
    · cases hresponse
      exact .of_moves h hout hr.own hnext
    · cases hresponse
      exact .of_moves h hout hr.own (hnext.cb_backend_mixer_volume _ _ _)
    · simp at hresponse
  split at hresponse
  · cases hresponse
    exact .of_moves h hout hr.own hnext
  · cases hresponse
    exact .of_moves h hout hr.own (hnext.cb_backend_mixer_state _)
  · simp at hresponse

theorem Sound.know (h : Sound gone st) (hnamed : session ≠ "") (created_for : Session → Socket) :
    Sound gone { st with session_ids := st.session_ids ++ [session], created_for := created_for } where
  toTidy := ⟨h.nodup, h.own, h.callbacks⟩
  toBooked := h.toBooked.keep rfl rfl (subset_append_left _ _) h.held (fun r hr => Or.inl hr)
  owned := h.owned.know hnamed
  fits uuid data hgone hmem := by
    have hfits := h.fits uuid data hgone hmem
    exact ⟨hfits.key, hfits.login, hfits.switch⟩

theorem Booked.untouched (h : Booked st) (hnew : session ∉ st.session_ids) : st.Untouched session := by
  refine ⟨?_, fun r hr => ⟨fun hcommand => ?_, fun hcommand => ?_⟩⟩
  · by_contra husers
    exact hnew (h.used session husers)
  · exact hnew (h.acquiring r hr session hcommand).1
  · exact hnew (h.releasing r hr session hcommand).1

variable {config : Config}

section

variable (h : Settled st)

include h

theorem Settled.proxy_response {outside : Outside} {r : ProxyRequest} {result : ProxyResult} (hnew : r.uuid ∉ st.underway) (hown : ∀ n, r.uuid = .own n → n < st.uuids) (hout : st.out = [])
    (hresponse : proxy_response config outside r result st = some st') : Reaches st st' := by
  have hrefl : Moves r.uuid (Permits st) st st := Relation.ReflTransGen.refl
  have hkeyed : ∀ data, st.pending r.uuid = some data → ∀ id, data.value.uuid = some id → r.uuid = .client id :=
    fun data hdata => (h.fits r.uuid data (fun hfalse => hfalse) (mem_async hdata)).key
  simp only [vocs.proxy_response] at hresponse
  split at hresponse
  · split at hresponse
    · split at hresponse
      · simp at hresponse
      rename_i hsession
      obtain ⟨hnamed, hunknown⟩ := not_or.mp hsession
      cases hresponse
      have hfresh : new_session (st.view.know result.session) result.session := h.owned.new_session_know hunknown
      have huntouched := h.untouched hunknown
      have hmid := h.know hnamed (Function.update st.created_for result.session r.asker)
      have hstart : Moves r.uuid (Permits st) { st with
          session_ids := st.session_ids ++ [result.session]
          created_for := Function.update st.created_for result.session r.asker } _ := Relation.ReflTransGen.refl
      refine ⟨r.uuid, _, hmid, ?_, hown,
        hstart.cb_frontend_session_created hnew config outside result (fun _ => ⟨hfresh, huntouched⟩)⟩
      change ∀ o ∈ st.out, o.is_quiet
      simp [hout]
    rename_i herror
    cases hresponse
    refine .of_moves h hout hown (hrefl.cb_frontend_session_created hnew config outside result fun hnone => ?_)
    rw [hnone] at herror
    simp at herror
  · cases hresponse
    exact .of_moves h hout hown (hrefl.cb_frontend_session_update _)
  · cases hresponse
    exact .of_moves h hout hown (hrefl.drop_with false _)
  · cases hresponse
    exact .of_moves h hout hown (hrefl.cb_frontend_candidate _ _ _)
  · cases hresponse
    exact .of_moves h hout hown (hrefl.cb_frontend_end_of_candidates _ _)
  · exact .of_moves h hout hown (hrefl.cb_frontend_talk hnew hkeyed hresponse)
  cases hresponse
  exact .of_moves h hout hown (hrefl.cb_frontend_session_state hnew hkeyed _ _)

theorem Settled.client_request {socket : Socket} {request : Request} {msg : Message}
    {outside : Outside} (hout : st.out = [])
    (hsingle : single_use st (.request socket request msg outside))
    (hrequest : client_request config socket request msg outside st = some st') : Reaches st st' := by
  have hchoice : ∃ id, request.is_idless = true ∨ Uuid.client id ∉ st.underway ∧ st.pending (.client id) = none ∧
      ∀ other, msg.uuid = some other → Uuid.client id = .client other := by
    obtain hidless | hfresh := hsingle
    · exact ⟨"", Or.inl hidless⟩
    cases hid : msg.uuid with
    | none =>
      obtain ⟨id, hunused⟩ := exists_unused st
      refine ⟨id, Or.inr ⟨fun hmem => hunused (Or.inl hmem), ?_, by simp⟩⟩
      by_contra hsome
      exact hunused (Or.inr (isSome_iff_ne_none.mpr hsome))
    | some id =>
      have hunused := hfresh id hid
      refine ⟨id, Or.inr ⟨fun hmem => hunused (Or.inl hmem), ?_, by simp⟩⟩
      by_contra hsome
      exact hunused (Or.inr (isSome_iff_ne_none.mpr hsome))
  obtain ⟨id, hfresh⟩ := hchoice
  simp only [vocs.client_request] at hrequest
  split at hrequest
  · simp at hrequest
  rename_i hsocket
  have hprocess : ∀ r ∈ cb_client_process config outside request socket msg st,
      Moves (.client id) (Permits st) st r.2 := by
    refine Moves.cb_client_process Relation.ReflTransGen.refl hfresh hsocket h.zero (fun session hsession => ?_)
      fun switch hswitched hfrom hsession => ?_
    · exact ⟨h.owned.owner socket session hsession, h.held socket session hsession⟩
    obtain ⟨-, hgranted, hconnection, hrole⟩ := hswitched
    refine ⟨hgranted, ?_, ?_, hconnection, hrole⟩
    · rw [hfrom]
      exact hsocket
    rw [hfrom]
    exact h.owned.owner socket switch.session hsession
  have hown : ∀ n, Uuid.client id = .own n → n < st.uuids := by simp
  split at hrequest
  · simp at hrequest
  · rename_i heq
    cases hrequest
    exact .of_moves h hout hown (hprocess _ heq)
  rename_i heq
  cases hrequest
  exact .of_moves h hout hown ((hprocess _ heq).drop_connection socket)

theorem Settled.take_mixer_request {r : MixerRequest} (hr : st.mixer_requests[i]? = some r) :
    Settled { st with mixer_requests := st.mixer_requests.eraseIdx i } ∧
      Answered { st with mixer_requests := st.mixer_requests.eraseIdx i } r := by
  have hmem : r ∈ st.mixer_requests := mem_of_getElem? hr
  have hperm := perm_eraseIdx MixerRequest.uuid hr [] (st.proxy_requests.map ProxyRequest.uuid ++
    (st.ldap_requests.map LdapRequest.uuid ++ st.module_requests.map ModuleRequest.uuid))
  have hsteady : Steady st { st with mixer_requests := st.mixer_requests.eraseIdx i } :=
    .of_eq rfl rfl rfl rfl rfl rfl rfl rfl
  obtain ⟨hsettled, hnew, hown⟩ := h.consume hsteady hperm (eraseIdx_sublist _ _).subset (List.Subset.refl _)
    rfl rfl rfl
  refine ⟨hsettled, hnew, hown, fun cb hcb => ?_, h.acquiring r hmem, h.releasing r hmem,
    fun session loop hcommand data hdata => ?_⟩
  · obtain ⟨before, after, heq, -⟩ := lookup_eq_some_iff.mp hcb
    refine h.callbacks (r.uuid, cb) ?_ r hmem rfl
    change st.callbacks = _ at heq
    rw [heq]
    exact mem_append_right _ mem_cons_self
  · exact (h.fits r.uuid data (fun hfalse => hfalse) (mem_async hdata)).switch r hmem rfl session loop hcommand

theorem Settled.take_proxy_request {r : ProxyRequest} (hr : st.proxy_requests[i]? = some r) :
    Settled { st with proxy_requests := st.proxy_requests.eraseIdx i } ∧
      r.uuid ∉ { st with proxy_requests := st.proxy_requests.eraseIdx i : State }.underway ∧
      ∀ n, r.uuid = .own n → n < st.uuids := by
  have hperm := perm_eraseIdx ProxyRequest.uuid hr (st.mixer_requests.map MixerRequest.uuid)
    (st.ldap_requests.map LdapRequest.uuid ++ st.module_requests.map ModuleRequest.uuid)
  have hsteady : Steady st { st with proxy_requests := st.proxy_requests.eraseIdx i } :=
    .of_eq rfl rfl rfl rfl rfl rfl rfl rfl
  exact h.consume hsteady hperm (List.Subset.refl _) (List.Subset.refl _) rfl rfl rfl

theorem Settled.take_ldap_request {r : LdapRequest} (hr : st.ldap_requests[i]? = some r)
    (ldap_store : List Uuid) (binds : List (String × String)) :
    Settled { st with ldap_requests := st.ldap_requests.eraseIdx i, ldap_store := ldap_store, binds := binds } ∧
      ∀ n, r.uuid = .own n → n < st.uuids := by
  have hperm := perm_eraseIdx LdapRequest.uuid hr (st.mixer_requests.map MixerRequest.uuid ++
    st.proxy_requests.map ProxyRequest.uuid) (st.module_requests.map ModuleRequest.uuid)
  simp only [append_assoc] at hperm
  have hsteady : Steady st
      { st with ldap_requests := st.ldap_requests.eraseIdx i, ldap_store := ldap_store, binds := binds } :=
    .of_eq rfl rfl rfl rfl rfl rfl rfl rfl
  obtain ⟨hsettled, -, hown⟩ := h.consume hsteady hperm (List.Subset.refl _) (eraseIdx_sublist _ _).subset
    rfl rfl rfl
  exact ⟨hsettled, hown⟩

theorem Settled.take_module_request {r : ModuleRequest}
    (hr : st.module_requests[i]? = some r) :
    Settled { st with module_requests := st.module_requests.eraseIdx i } ∧ ∀ n, r.uuid = .own n → n < st.uuids := by
  have hperm := perm_eraseIdx ModuleRequest.uuid hr (st.mixer_requests.map MixerRequest.uuid ++
    (st.proxy_requests.map ProxyRequest.uuid ++ st.ldap_requests.map LdapRequest.uuid)) []
  simp only [append_assoc, List.append_nil] at hperm
  have hsteady : Steady st { st with module_requests := st.module_requests.eraseIdx i } :=
    .of_eq rfl rfl rfl rfl rfl rfl rfl rfl
  obtain ⟨hsettled, -, hown⟩ := h.consume hsteady hperm (List.Subset.refl _) (List.Subset.refl _) rfl rfl rfl
  exact ⟨hsettled, hown⟩

theorem handle_reaches {e : Event} (hout : st.out = []) (hsingle : single_use st e)
    (hhandle : handle config e st = some st') : Reaches st st' := by
  have hrefl : Moves (.client "") (Permits st) st st := Relation.ReflTransGen.refl
  have hclient : ∀ n, Uuid.client "" = .own n → n < st.uuids := by simp
  have hdone : ∀ {last : State}, Settled last → last.out = [] → Reaches st last := fun hlast hnone =>
    ⟨.client "", _, hlast, by simp [hnone], by simp, Relation.ReflTransGen.refl⟩
  cases e with
  | request socket request msg outside => exact h.client_request hout hsingle hhandle
  | socket_close socket =>
    cases hhandle
    exact .of_moves h hout hclient (hrefl.drop_connection socket)
  | timeout expired =>
    cases hhandle
    obtain ⟨hlast, htimed⟩ := h.timeout hsingle
    refine ⟨.client "", _, hlast, fun o ho => ?_, by simp, Relation.ReflTransGen.refl⟩
    obtain hold | hquiet := htimed.out o ho
    · rw [hout] at hold
      simp at hold
    · exact hquiet
  | ldap_result i granted outside =>
    simp only [handle] at hhandle
    split at hhandle
    · simp at hhandle
    rename_i r hr
    simp only [ldap_response] at hhandle
    split at hhandle
    · cases hhandle
      obtain ⟨hmid, hown⟩ := h.take_ldap_request hr (st.ldap_store.filter (fun uuid => decide (uuid ≠ r.uuid)))
        (if granted then st.binds ++ [(r.user, r.password)] else st.binds)
      exact .of_moves hmid hout hown (Moves.cb_ldap_authentication Relation.ReflTransGen.refl outside granted)
    · simp at hhandle
  | proxy_response i result outside =>
    simp only [handle] at hhandle
    split at hhandle
    · simp at hhandle
    rename_i r hr
    obtain ⟨hmid, hnew, hown⟩ := h.take_proxy_request hr
    exact hmid.proxy_response hnew hown hout hhandle
  | proxy_lost i =>
    cases hhandle
    refine hdone (h.less (.of_eq rfl rfl rfl rfl rfl rfl rfl rfl) ?_ (List.Subset.refl _) (List.Subset.refl _)
      (List.Subset.refl _) (Nat.le_refl _) (List.Subset.refl _)) hout
    exact List.Sublist.append (List.Sublist.refl _)
      (List.Sublist.append ((eraseIdx_sublist _ _).map _) (List.Sublist.refl _))
  | session_completed session success =>
    cases hhandle
    exact .of_moves h hout hclient (hrefl.cb_frontend_session_completed session success)
  | session_dropped session =>
    cases hhandle
    exact .of_moves h hout hclient (hrefl.drop_with false _)
  | candidate session info =>
    cases hhandle
    exact .of_moves h hout hclient (hrefl.keep (.send st rfl))
  | end_of_candidates session info =>
    cases hhandle
    exact .of_moves h hout hclient (hrefl.keep (.send st rfl))
  | mixer_register mixer =>
    have hlast := h.register_mixer hhandle
    refine hdone hlast ?_
    simp only [handle, register_mixer] at hhandle
    split at hhandle
    · cases hhandle
      exact hout
    · simp at hhandle
  | mixer_close mixer =>
    cases hhandle
    exact .of_moves h hout hclient (hrefl.tail (.close mixer))
  | mixer_response i error content outside =>
    simp only [handle] at hhandle
    split at hhandle
    · simp at hhandle
    rename_i r hr
    obtain ⟨hmid, hanswered⟩ := h.take_mixer_request hr
    exact hmid.mixer_response hanswered hout hhandle
  | callback_expired i =>
    cases hhandle
    exact .of_moves h hout hclient
      (hrefl.keep { Keeps.refl st with callbacks := (eraseIdx_sublist _ _).subset })
  | module_response i error content =>
    simp only [handle] at hhandle
    split at hhandle
    · simp at hhandle
    rename_i r hr
    cases hhandle
    obtain ⟨hmid, hown⟩ := h.take_module_request hr
    exact .of_moves hmid hout hown (Moves.module_response Relation.ReflTransGen.refl rfl error content)
  | user_session_expired client =>
    cases hhandle
    exact .of_moves h hout hclient (hrefl.keep { Keeps.refl st with })
  | database op =>
    obtain ⟨r, _, rfl⟩ := map_eq_some_iff.mp hhandle
    exact .of_moves h hout hclient (hrefl.keep { Keeps.refl st with })

theorem step_reaches {e : Event} (hsingle : single_use st e)
    (hstep : step config e st = some st') : Reaches st st' := by
  have hstart : Settled { st with out := [] } := h.keep { Keeps.refl st with out := by simp }
  have hsingle' : single_use { st with out := [] } e := by cases e <;> exact hsingle
  have hreaches := handle_reaches hstart rfl hsingle' hstep
  exact hreaches

end

/-- What every move does to the history and to what is sent out. -/
structure Effect (grants : Switch → Prop) (st st' : State) : Prop where
  uuids : st.uuids ≤ st'.uuids
  switches : st.switches ⊆ st'.switches
  out : ∀ o ∈ st'.out, o ∈ st.out ∨ o.is_quiet = true ∨
    (∃ mixer uuid session loop, o = .mixer mixer uuid (.join session loop) ∧ Granted grants st .recv session loop) ∨
    ∃ uuid session loop, o = .proxy uuid (.talk session true loop) ∧ Granted grants st .send session loop

variable {grants : Switch → Prop}

theorem Effect.of_eq (huuids : st'.uuids = st.uuids) (hswitches : st'.switches = st.switches)
    (hout : st'.out = st.out) : Effect grants st st' := by
  refine ⟨Nat.le_of_eq huuids.symm, ?_, fun o ho => Or.inl ?_⟩
  · rw [hswitches]
    exact List.Subset.refl _
  rw [hout] at ho
  exact ho

theorem Calm.effect (h : Calm st st') : Effect grants st st' := by
  refine ⟨h.uuids, ?_, fun o ho => ?_⟩
  · rw [h.switches]
    exact List.Subset.refl _
  obtain hold | hquiet := h.out o ho
  · exact Or.inl hold
  · exact Or.inr (Or.inl hquiet)

theorem Keeps.effect (h : Keeps st st') : Effect grants st st' := by
  refine ⟨h.uuids, h.switches, fun o ho => ?_⟩
  obtain hold | hquiet := h.out o ho
  · exact Or.inl hold
  · exact Or.inr (Or.inl hquiet)

theorem mem_out_send_message {cb : Callback} {command : MixerCommand} {o : Output}
    (ho : o ∈ (st.send_message cb uuid session command).2.out) :
    o ∈ st.out ∨ ∃ mixer, o = .mixer mixer uuid command := by
  simp only [State.send_message] at ho
  split at ho
  · exact Or.inl ho
  simp only [State.send_mixer, State.send, State.register_callback, mem_append, mem_singleton] at ho
  obtain hold | hsent := ho
  · exact Or.inl hold
  · exact Or.inr ⟨_, hsent⟩

theorem uuids_send_message (st : State) (cb : Callback) (uuid : Uuid) (session : Session) (command : MixerCommand) :
    (st.send_message cb uuid session command).2.uuids = st.uuids := by
  simp only [State.send_message]
  split <;> rfl

theorem Effect.send_message {cb : Callback} {command : MixerCommand}
    (hcommand : (∀ mixer, (Output.mixer mixer uuid command).is_quiet = true) ∨
      ∃ other loop, command = .join other loop ∧ Granted grants st .recv other loop) :
    Effect grants st (st.send_message cb uuid session command).2 := by
  refine ⟨Nat.le_of_eq (uuids_send_message st cb uuid session command).symm, ?_, fun o ho => ?_⟩
  · rw [(SameClients.send_message st cb uuid session command).switches]
    exact List.Subset.refl _
  obtain hold | ⟨mixer, hsent⟩ := mem_out_send_message ho
  · exact Or.inl hold
  rw [hsent]
  obtain hquiet | ⟨other, loop, hjoin, hgranted⟩ := hcommand
  · exact Or.inr (Or.inl (hquiet mixer))
  · exact Or.inr (Or.inr (Or.inl ⟨mixer, uuid, other, loop, by rw [hjoin], hgranted⟩))

theorem Move.effect (hmove : Move uuid grants st st') (howned : Owned st.view) : Effect grants st st' := by
  cases hmove with
  | keep _ hkeeps => exact hkeeps.effect
  | unset other => exact .of_eq rfl rfl rfl
  | set data hfits => exact .of_eq rfl rfl rfl
  | talk session loop hgranted =>
    refine ⟨Nat.le_refl _, List.Subset.refl _, fun o ho => ?_⟩
    obtain hold | hsent := mem_append.mp ho
    · exact Or.inl hold
    · exact Or.inr (Or.inr (Or.inr ⟨uuid, session, loop, mem_singleton.mp hsent, hgranted⟩))
  | join session loop hgranted hnew hpending => exact .send_message (Or.inr ⟨session, loop, rfl, hgranted⟩)
  | bind r huuid hnew hlogin => exact .of_eq rfl rfl rfl
  | message session command hplain hnew =>
    refine .send_message (Or.inl fun mixer => ?_)
    cases command <;> simp [MixerCommand.is_plain, Output.is_quiet] at hplain ⊢
  | proxy r huuid hnew => exact .of_eq rfl rfl rfl
  | module r huuid hnew => exact .of_eq rfl rfl rfl
  | acquire session mixer hfree hnew huntouched hknown =>
    have hsent : Calm st (st.send (.mixer mixer uuid (.acquire session))) := .send st rfl
    exact Calm.effect ⟨rfl, rfl, rfl, rfl, rfl, rfl, Nat.le_refl _, hsent.out⟩
  | release session hsession hheld hknown =>
    obtain ⟨mid, heq, hcalm, -, -⟩ := release_mixer_of_none hsession
    rw [heq]
    exact Calm.effect { hcalm with }
  | open_session session socket hnew huntouched =>
    unfold State.set_record
    split <;> exact .of_eq rfl rfl rfl
  | drop_with frontend socket => exact (Dropped.drop_with_mixer howned false frontend socket).toCalm.effect
  | drop_without frontend socket => exact (Dropped.drop_without_mixer st false frontend socket).toCalm.effect
  | close mixer =>
    rw [close_mixer_eq]
    split
    · exact .of_eq rfl rfl rfl
    have hdropped := Dropped.drop_without_mixer st false true (st.sessions (st.slot_user mixer))
    exact Calm.effect { hdropped.toCalm with }

theorem Reaches.settled (h : Reaches st st') : Settled st' := by
  obtain ⟨uuid, mid, hmid, -, hown, hmoves⟩ := h
  have hinvariant : Settled st' ∧ ∀ n, uuid = .own n → n < st'.uuids := by
    refine hmoves.invariant (fun s => Settled s ∧ ∀ n, uuid = .own n → n < s.uuids) (fun s s' hs hmove => ?_) ⟨hmid, hown⟩
    refine ⟨hs.1.move hs.2 hmove, fun n hn => ?_⟩
    exact Nat.lt_of_lt_of_le (hs.2 n hn) (hmove.effect hs.1.owned).uuids
  exact hinvariant.1

theorem run_settled (config : Config) (db : vocs_db.Db) (es : List Event)
    (hsingle : machine.along (step config) single_use es (State.init db)) (hrun : run config es (State.init db) = some st) :
    Settled st :=
  machine.run_invariant Settled single_use (fun _ _ _ hs hallowed hstep => (step_reaches hs hallowed hstep).settled) es
    (settled_init db) hsingle hrun

end

end openvocs.vocs
