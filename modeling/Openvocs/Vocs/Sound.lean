import Openvocs.Vocs.Bookings

open List Option

namespace openvocs.vocs

open State Function

/-- What is under way, what is stored and what is booked fit together. Of the sockets that
    are gone there may be requests in the store that fit nothing. -/
structure Sound (gone : Socket → Prop) (st : State) : Prop extends Tidy st, Booked st where
  owned : Owned st.view
  fits : ∀ uuid data, ¬gone data.socket → (uuid, data) ∈ st.async → Fits st uuid data

/-- A client is still connected, with the role that it had. -/
structure Stays (socket : Socket) (st st' : State) : Prop where
  drops : st'.drops socket = st.drops socket
  role : (st.connections socket).role.isSome → (st'.connections socket).role = (st.connections socket).role
  switches : st.switches ⊆ st'.switches
  logins : st.logins ⊆ st'.logins

/-- All clients and mixers stay as they are. -/
structure Steady (st st' : State) : Prop where
  stays : ∀ t, Stays t st st'
  sessions : st'.sessions = st.sessions
  slots : st'.slots = st.slots
  users : st'.users = st.users
  session_ids : st'.session_ids = st.session_ids
  session : ∀ t, (st'.connections t).session = (st.connections t).session

theorem Steady.of_eq {st st' : State} (hconnections : st'.connections = st.connections)
    (hsessions : st'.sessions = st.sessions) (hslots : st'.slots = st.slots) (husers : st'.users = st.users)
    (hids : st'.session_ids = st.session_ids) (hdrops : st'.drops = st.drops) (hswitches : st'.switches = st.switches)
    (hlogins : st'.logins = st.logins) : Steady st st' := by
  refine ⟨fun t => ⟨congrFun hdrops t, fun _ => ?_, ?_, ?_⟩, hsessions, hslots, husers, hids, fun t => ?_⟩
  · rw [hconnections]
  · rw [hswitches]
    exact List.Subset.refl _
  · rw [hlogins]
    exact List.Subset.refl _
  · rw [hconnections]

theorem Keeps.steady {st st' : State} (h : Keeps st st') : Steady st st' where
  stays t := ⟨congrFun h.drops t, h.role t, h.switches, h.logins⟩
  sessions := h.sessions
  slots := h.slots
  users := h.users
  session_ids := h.session_ids
  session := h.session

section

variable {gone : Socket → Prop} {st st' : State} {uuid : Uuid} {data : Pending}

theorem LoginOf.stays {r : LdapRequest} (h : LoginOf st data r) (hstays : Stays data.socket st st') :
    LoginOf st' data r := by
  obtain ⟨huser, hpassword, login, hmem, hsocket, hconnection, hlogin⟩ := h
  refine ⟨huser, hpassword, login, hstays.logins hmem, hsocket, ?_, hlogin⟩
  rw [hconnection, hstays.drops]

variable {mixer : Socket} {session : Session}

theorem SwitchOf.stays {loop : String} (h : SwitchOf st data mixer session loop)
    (hstays : Stays data.socket st st') (hsessions : st'.sessions session = st.sessions session)
    (husers : st'.users session = st.users session) (hslots : st'.slots mixer = st.slots mixer) :
    SwitchOf st' data mixer session loop := by
  obtain ⟨hsocket, howner, hmixer, hslot, switch, hswitched, hfrom, hsession, hloop, hrequested⟩ := h
  obtain ⟨hmem, hgranted, hconnection, hrole⟩ := hswitched
  refine ⟨hsocket, by rw [hsessions, howner], by rw [husers, hmixer], by rw [hslots, hslot], switch,
    ⟨hstays.switches hmem, hgranted, ?_, ?_⟩, hfrom, hsession, hloop, hrequested⟩
  · rw [hconnection, hfrom, hstays.drops]
  rw [hfrom] at hrole ⊢
  rw [hstays.role (by simp [hrole]), hrole]

theorem Fits.mono (h : Fits st uuid data) (hstays : Stays data.socket st st')
    (hldap : ∀ r ∈ st'.ldap_requests, r.uuid = uuid → r ∈ st.ldap_requests)
    (hmixer : ∀ r ∈ st'.mixer_requests, r.uuid = uuid → r ∈ st.mixer_requests ∨
      ∀ session loop, r.command ≠ .join session loop)
    (hswitch : ∀ r ∈ st'.mixer_requests, ∀ session loop, SwitchOf st data r.mixer session loop →
      st'.sessions session = st.sessions session ∧ st'.users session = st.users session ∧
        st'.slots r.mixer = st.slots r.mixer) :
    Fits st' uuid data where
  key := h.key
  login r hr huuid := (h.login r (hldap r hr huuid) huuid).stays hstays
  switch r hr huuid session loop hcommand := by
    obtain hold | hother := hmixer r hr huuid
    · have hof := h.switch r hold huuid session loop hcommand
      obtain ⟨hsessions, husers, hslots⟩ := hswitch r hr session loop hof
      exact hof.stays hstays hsessions husers hslots
    · exact absurd hcommand (hother session loop)

theorem Steady.fits (hsteady : Steady st st') (h : Fits st uuid data)
    (hldap : ∀ r ∈ st'.ldap_requests, r.uuid = uuid → r ∈ st.ldap_requests)
    (hmixer : ∀ r ∈ st'.mixer_requests, r.uuid = uuid → r ∈ st.mixer_requests ∨
      ∀ session loop, r.command ≠ .join session loop) : Fits st' uuid data := by
  refine h.mono (hsteady.stays data.socket) hldap hmixer fun r hr session loop hof => ?_
  rw [hsteady.sessions, hsteady.users, hsteady.slots]
  exact ⟨rfl, rfl, rfl⟩

theorem Owned.congr {v v' : View} (h : Owned v)
    (hsession : ∀ t, (v'.connections t).session = (v.connections t).session) (hsessions : v'.sessions = v.sessions)
    (hids : v'.session_ids = v.session_ids) : Owned v' where
  owner t session ht := by
    rw [hsession] at ht
    rw [hsessions]
    exact h.owner t session ht
  zero := by
    rw [hsession]
    exact h.zero
  known session ht := by
    rw [hsessions] at ht
    rw [hids]
    exact h.known session ht
  named := by
    rw [hids]
    exact h.named

theorem Owned.record_known {v : View} (h : Owned v) {socket : Socket}
    (hsession : (v.connections socket).session = some session) : session ∈ v.session_ids := by
  refine h.known session fun hzero => ?_
  exact h.session_ne hzero socket hsession

theorem Sound.steady (h : Sound gone st) (hsteady : Steady st st') (htidy : Tidy st')
    (hrequests : ∀ r ∈ st'.mixer_requests, r ∈ st.mixer_requests ∨
      ∀ session, r.command ≠ .acquire session ∧ r.command ≠ .release session)
    (hfits : ∀ uuid data, ¬gone data.socket → (uuid, data) ∈ st'.async → Fits st' uuid data) : Sound gone st' where
  toTidy := htidy
  toBooked := by
    refine h.toBooked.keep hsteady.slots hsteady.users ?_ (fun t session hsession => ?_) hrequests
    · rw [hsteady.session_ids]
      exact List.Subset.refl _
    rw [hsteady.session t] at hsession
    exact h.held t session hsession
  owned := h.owned.congr hsteady.session hsteady.sessions hsteady.session_ids
  fits := hfits

theorem Sound.less (h : Sound gone st) (hsteady : Steady st st') (hunderway : st'.underway.Sublist st.underway)
    (hmixer : st'.mixer_requests ⊆ st.mixer_requests) (hldap : st'.ldap_requests ⊆ st.ldap_requests)
    (hcallbacks : st'.callbacks ⊆ st.callbacks) (huuids : st.uuids ≤ st'.uuids) (hasync : st'.async ⊆ st.async) :
    Sound gone st' := by
  refine h.steady hsteady (h.toTidy.mono hunderway hmixer hcallbacks huuids) (fun r hr => Or.inl (hmixer hr)) ?_
  intro uuid data hgone hmem
  exact hsteady.fits (h.fits uuid data hgone (hasync hmem)) (fun r hr _ => hldap hr) (fun r hr _ => Or.inl (hmixer hr))

theorem Sound.keep (h : Sound gone st) (hkeeps : Keeps st st') : Sound gone st' := by
  refine h.less hkeeps.steady ?_ ?_ ?_ hkeeps.callbacks hkeeps.uuids ?_
  · rw [hkeeps.underway]
  · rw [hkeeps.mixer_requests]
    exact List.Subset.refl _
  · rw [hkeeps.ldap_requests]
    exact List.Subset.refl _
  rw [hkeeps.async]
  exact List.Subset.refl _

theorem Sound.unset (h : Sound gone st) (uuid : Uuid) : Sound gone (st.async_unset uuid) :=
  h.less (.of_eq rfl rfl rfl rfl rfl rfl rfl rfl) (List.Sublist.refl _) (List.Subset.refl _) (List.Subset.refl _)
    (List.Subset.refl _) (Nat.le_refl _) (filter_subset_self _)

theorem Sound.set (h : Sound gone st) (hfits : Fits st uuid data) : Sound gone (st.async_set uuid data) := by
  have hsteady : Steady st (st.async_set uuid data) := .of_eq rfl rfl rfl rfl rfl rfl rfl rfl
  refine h.steady hsteady (h.toTidy.mono (List.Sublist.refl _) (List.Subset.refl _) (List.Subset.refl _)
    (Nat.le_refl _)) (fun r hr => Or.inl hr) fun other data' hgone hmem => ?_
  have hold : Fits st other data' := by
    simp only [State.async_set, assoc.erase, mem_append, mem_filter, mem_singleton, Prod.mk.injEq] at hmem
    obtain ⟨hmem, -⟩ | ⟨rfl, rfl⟩ := hmem
    · exact h.fits other data' hgone hmem
    · exact hfits
  exact hsteady.fits hold (fun r hr _ => hr) (fun r hr _ => Or.inl hr)

theorem Steady.send_message (st : State) (cb : Callback) (uuid : Uuid) (session : Session) (command : MixerCommand) :
    Steady st (st.send_message cb uuid session command).2 := by
  simp only [State.send_message]
  split <;> exact .of_eq rfl rfl rfl rfl rfl rfl rfl rfl

theorem Sound.send_message (h : Sound gone st) (hnew : uuid ∉ st.underway)
    (hown : ∀ n, uuid = .own n → n < st.uuids) (session : Session) {command : MixerCommand}
    (hcommand : ∀ other, command ≠ .acquire other ∧ command ≠ .release other)
    (hjoin : (∀ data, (uuid, data) ∉ st.async) ∨ ∀ other loop, command ≠ .join other loop) :
    Sound gone (st.send_message command.callback uuid session command).2 := by
  obtain ⟨hldap, hmixer⟩ := send_message_requests st command.callback uuid session command
  have hsteady := Steady.send_message st command.callback uuid session command
  refine h.steady hsteady (h.toTidy.send_message hnew hown session command) (fun r hr => ?_)
    fun other data hgone hmem => ?_
  · obtain hold | ⟨hsent, -⟩ := hmixer r hr
    · exact Or.inl hold
    rw [hsent]
    exact Or.inr hcommand
  have hstored : (other, data) ∈ st.async := by
    have hasync : (st.send_message command.callback uuid session command).2.async = st.async := by
      simp only [State.send_message]
      split <;> rfl
    rw [hasync] at hmem
    exact hmem
  refine hsteady.fits (h.fits other data hgone hstored) (fun r hr _ => hldap ▸ hr) fun r hr huuid => ?_
  obtain hold | ⟨hsent, -⟩ := hmixer r hr
  · exact Or.inl hold
  obtain hnone | hother := hjoin
  · rw [hsent] at huuid
    change uuid = other at huuid
    rw [← huuid] at hstored
    exact absurd hstored (hnone data)
  rw [hsent]
  exact Or.inr hother

theorem Sound.ask (h : Sound gone st) (hnew : uuid ∉ st.underway) (hown : ∀ n, uuid = .own n → n < st.uuids)
    (hsteady : Steady st st') (hperm : st'.underway.Perm (uuid :: st.underway))
    (hmixer : st'.mixer_requests = st.mixer_requests) (hcallbacks : st'.callbacks = st.callbacks)
    (huuids : st'.uuids = st.uuids) (hasync : st'.async = st.async)
    (hldap : ∀ r ∈ st'.ldap_requests, r ∈ st.ldap_requests ∨
      r.uuid = uuid ∧ ∀ data, (uuid, data) ∈ st.async → LoginOf st data r) : Sound gone st' := by
  have htidy : Tidy st' := by
    refine h.toTidy.add hnew hperm ?_ (Nat.le_of_eq huuids.symm) ?_
    · rw [huuids]
      exact hown
    rw [hcallbacks, hmixer]
    exact h.callbacks
  have hkept : ∀ r ∈ st'.mixer_requests, r ∈ st.mixer_requests := by
    intro r hr
    rw [hmixer] at hr
    exact hr
  refine h.steady hsteady htidy (fun r hr => Or.inl (hkept r hr)) fun other data hgone hmem => ?_
  rw [hasync] at hmem
  have hfits := h.fits other data hgone hmem
  refine ⟨hfits.key, fun r hr huuid => ?_, fun r hr huuid session loop hcommand => ?_⟩
  · obtain hold | ⟨hsent, hlogin⟩ := hldap r hr
    · exact (hfits.login r hold huuid).stays (hsteady.stays data.socket)
    rw [← huuid, hsent] at hmem
    exact (hlogin data hmem).stays (hsteady.stays data.socket)
  refine (hfits.switch r (hkept r hr) huuid session loop hcommand).stays (hsteady.stays data.socket) ?_ ?_ ?_
  · rw [hsteady.sessions]
  · rw [hsteady.users]
  · rw [hsteady.slots]

theorem Sound.acquire (h : Sound gone st) (hfree : st.slots mixer = some none)
    (hnew : uuid ∉ st.underway) (hown : ∀ n, uuid = .own n → n < st.uuids) (huntouched : st.Untouched session)
    (hknown : session ∈ st.session_ids) :
    Sound gone (((st.acquire_user session mixer).register_callback uuid .acquired).send_mixer mixer uuid
      (.acquire session)) where
  toTidy := h.toTidy.send_mixer hnew mixer (.acquire session) rfl rfl rfl rfl rfl hown (Nat.le_refl _)
  toBooked := h.toBooked.acquire hfree huntouched hknown uuid
  owned := h.owned
  fits other data hgone hmem := by
    refine (h.fits other data hgone hmem).mono ⟨rfl, fun _ => rfl, List.Subset.refl _, List.Subset.refl _⟩
      (fun r hr _ => hr) (fun r hr _ => ?_) fun r hr served loop hof => ?_
    · obtain hold | hsent := mem_append.mp hr
      · exact Or.inl hold
      rw [mem_singleton.mp hsent]
      exact Or.inr (fun _ _ => by simp)
    obtain ⟨-, -, hmixer, hslot, -⟩ := hof
    have hserved : served ≠ session := by
      intro heq
      rw [heq, huntouched.1] at hmixer
      rw [← hmixer, h.zero] at hslot
      simp at hslot
    have hother : r.mixer ≠ mixer := by
      intro heq
      rw [heq, hfree] at hslot
      simp at hslot
    exact ⟨rfl, update_of_ne hserved _ _, update_of_ne hother _ _⟩

theorem Released.mem_requests (h : Released st session st') :
    ∀ r ∈ st'.mixer_requests, r ∈ st.mixer_requests ∨ r.command = .release session := by
  intro r hr
  obtain ⟨hrequests, -⟩ | ⟨-, hrequests, -⟩ := h.requests
  · rw [hrequests] at hr
    exact Or.inl hr
  rw [hrequests, mem_append, mem_singleton] at hr
  obtain hold | hsent := hr
  · exact Or.inl hold
  rw [hsent]
  exact Or.inr rfl

theorem Sound.released (h : Sound gone st) (hheld : st.Held session)
    (hknown : session ∈ st.session_ids) (hreleased : Released st session st') (hcalm : Calm st st')
    (howned : Owned st'.view)
    (hrecords : ∀ t other, (st'.connections t).session = some other → (st.connections t).session = some other)
    (hasync : st'.async ⊆ st.async)
    (hclients : ∀ uuid data, ¬gone data.socket → (uuid, data) ∈ st'.async → Stays data.socket st st' ∧
      ∀ other, data.socket ≠ 0 → st.sessions other = data.socket →
        other ≠ session ∧ st'.sessions other = st.sessions other) : Sound gone st' where
  toTidy := h.toTidy.released hreleased hcalm.proxy_requests hcalm.ldap_requests hcalm.module_requests hcalm.uuids
  toBooked := h.toBooked.released hheld hknown hreleased.slots hreleased.users hcalm.session_ids hrecords
    hreleased.mem_requests
  owned := howned
  fits uuid data hgone hmem := by
    obtain ⟨hstays, hother⟩ := hclients uuid data hgone hmem
    refine (h.fits uuid data hgone (hasync hmem)).mono hstays (fun r hr _ => hcalm.ldap_requests ▸ hr)
      (fun r hr _ => ?_) fun r hr served loop hof => ?_
    · obtain hold | hrelease := hreleased.mem_requests r hr
      · exact Or.inl hold
      rw [hrelease]
      exact Or.inr (fun _ _ => by simp)
    obtain ⟨hsocket, howner, -, hslot, -⟩ := hof
    obtain ⟨hne, hsessions⟩ := hother served hsocket howner
    rw [hreleased.users, hreleased.slots, users_release_user, if_neg hne, hslot]
    exact ⟨hsessions, rfl, h.slots_release_user hheld hne hslot⟩

theorem Sound.same_booking (h : Sound gone st) (hsame : SameBooking st st') (hcalm : Calm st st')
    (howned : Owned st'.view)
    (hrecords : ∀ t other, (st'.connections t).session = some other → st.Held other)
    (hasync : st'.async ⊆ st.async)
    (hclients : ∀ uuid data, ¬gone data.socket → (uuid, data) ∈ st'.async → Stays data.socket st st' ∧
      ∀ other, data.socket ≠ 0 → st.sessions other = data.socket → st'.sessions other = st.sessions other) :
    Sound gone st' where
  toTidy := by
    refine h.toTidy.mono ?_ ?_ ?_ hcalm.uuids
    · unfold State.underway
      rw [hsame.mixer_requests, hcalm.proxy_requests, hcalm.ldap_requests, hcalm.module_requests]
    · rw [hsame.mixer_requests]
      exact List.Subset.refl _
    rw [hsame.callbacks]
    exact List.Subset.refl _
  toBooked := by
    refine h.toBooked.keep hsame.slots hsame.users ?_ hrecords fun r hr => ?_
    · rw [hcalm.session_ids]
      exact List.Subset.refl _
    rw [hsame.mixer_requests] at hr
    exact Or.inl hr
  owned := howned
  fits uuid data hgone hmem := by
    obtain ⟨hstays, hother⟩ := hclients uuid data hgone hmem
    refine (h.fits uuid data hgone (hasync hmem)).mono hstays (fun r hr _ => hcalm.ldap_requests ▸ hr)
      (fun r hr _ => Or.inl (hsame.mixer_requests ▸ hr)) fun r hr served loop hof => ?_
    rw [hsame.users, hsame.slots]
    exact ⟨hother served hof.1 hof.2.1, rfl, rfl⟩

theorem Dropped.owned {locked : Bool} {socket : Socket} (h : Dropped locked socket st st') (howned : Owned st.view) :
    Owned st'.view := by
  refine (howned.drop socket).congr (fun t => ?_) (funext fun session => ?_) h.session_ids
  · rw [connections_drop]
    change (st'.connections t).session = _
    rw [h.connections]
    by_cases ht : t = socket
    · simp [ht]
    simp only [update_of_ne ht, if_neg ht]
    rfl
  rw [sessions_drop]
  exact h.sessions session

theorem Dropped.records {locked : Bool} {socket : Socket} (h : Dropped locked socket st st') (t : Socket)
    (other : Session) (hother : (st'.connections t).session = some other) :
    t ≠ socket ∧ (st.connections t).session = some other := by
  rw [h.connections] at hother
  by_cases ht : t = socket
  · simp [ht] at hother
  rw [update_of_ne ht] at hother
  exact ⟨ht, hother⟩

theorem Dropped.ne_of_unlocked {socket : Socket} (h : Dropped false socket st st') (hmem : (uuid, data) ∈ st'.async) :
    data.socket ≠ socket := by
  rw [h.async] at hmem
  simpa [remaining] using (mem_filter.mp hmem).2

theorem Dropped.ne_socket {locked : Bool} {socket : Socket} (h : Dropped locked socket st st')
    (hlocked : locked = true → gone socket) (hgone : ¬gone data.socket) (hmem : (uuid, data) ∈ st'.async) :
    data.socket ≠ socket := by
  cases locked with
  | true =>
    intro heq
    exact hgone (heq ▸ hlocked rfl)
  | false => exact h.ne_of_unlocked hmem

theorem Dropped.stays {locked : Bool} {socket t : Socket} (h : Dropped locked socket st st') (ht : t ≠ socket) :
    Stays t st st' := by
  refine ⟨h.drops t ht, fun _ => ?_, ?_, ?_⟩
  · rw [h.connections, update_of_ne ht]
  · rw [h.switches]
    exact List.Subset.refl _
  rw [h.logins]
  exact List.Subset.refl _

theorem Dropped.other_session {locked : Bool} {socket t : Socket} (h : Dropped locked socket st st')
    (howned : Owned st.view) (ht : t ≠ socket) {other : Session} (hother : st.sessions other = t) :
    (st.connections socket).session ≠ some other ∧ st'.sessions other = st.sessions other := by
  have hne : (st.connections socket).session ≠ some other := by
    intro hsome
    exact ht (hother.symm.trans (howned.owner socket other hsome))
  exact ⟨hne, by rw [h.sessions, if_neg hne]⟩

section

variable (h : Sound gone st)

include h

theorem Sound.dropped {locked : Bool} {socket : Socket} (hdropped : Dropped locked socket st st')
    (hlocked : locked = true → gone socket)
    (hbooking : SameBooking st st' ∨
      ∃ session, (st.connections socket).session = some session ∧ Released st session st') : Sound gone st' := by
  have hasync : st'.async ⊆ st.async := by
    rw [hdropped.async]
    exact remaining_subset locked socket st.async
  obtain hsame | ⟨session, hsession, hreleased⟩ := hbooking
  · refine h.same_booking hsame hdropped.toCalm (hdropped.owned h.owned)
      (fun t other hother => h.held t other (hdropped.records t other hother).2) hasync fun uuid data hgone hmem => ?_
    have hne := hdropped.ne_socket hlocked hgone hmem
    exact ⟨hdropped.stays hne, fun other _ howner => (hdropped.other_session h.owned hne howner).2⟩
  refine h.released (h.held socket session hsession) (h.owned.record_known hsession) hreleased hdropped.toCalm (hdropped.owned h.owned)
    (fun t other hother => (hdropped.records t other hother).2) hasync fun uuid data hgone hmem => ?_
  have hne := hdropped.ne_socket hlocked hgone hmem
  refine ⟨hdropped.stays hne, fun other _ howner => ?_⟩
  obtain ⟨hrecord, hkept⟩ := hdropped.other_session h.owned hne howner
  refine ⟨fun heq => hrecord ?_, hkept⟩
  rw [heq]
  exact hsession

theorem Sound.drop_with_mixer (locked frontend : Bool) {socket : Socket}
    (hlocked : locked = true → gone socket) : Sound gone (drop_with_mixer locked frontend socket st) :=
  h.dropped (.drop_with_mixer h.owned locked frontend socket) hlocked
    (drop_with_mixer_booking st locked frontend socket)

theorem Sound.drop_without_mixer (frontend : Bool) (socket : Socket) :
    Sound gone (st.drop_without_mixer false frontend socket) :=
  h.dropped (.drop_without_mixer st false frontend socket) (by simp)
    (Or.inl (.drop_without_mixer st false frontend socket))

theorem Sound.release (hsession : st.sessions session = 0)
    (hheld : st.Held session) (hknown : session ∈ st.session_ids) :
    Sound gone (release_mixer false st.new_uuid session st.take_uuid) := by
  have hsame : SameBooking st st.take_uuid := ⟨rfl, rfl, rfl, rfl⟩
  have hreleased := Released.release_mixer hsame (Nat.lt_succ_self _) false session
  obtain ⟨mid, heq, hcalm, hasync, hview⟩ := release_mixer_of_none hsession
  rw [heq] at hreleased ⊢
  have hmid : (mid.release_user session).view = st.view := hview
  have hconnections : (mid.release_user session).connections = st.connections := congrArg View.connections hmid
  have hdrops : (mid.release_user session).drops = st.drops := congrArg View.drops hmid
  have hsessions : (mid.release_user session).sessions = st.sessions := congrArg View.sessions hmid
  have hfinal : Calm st (mid.release_user session) := { hcalm with }
  refine h.released hheld hknown hreleased hfinal (hmid ▸ h.owned) (fun t other hother => ?_) ?_
    fun other data hgone hmem => ⟨⟨congrFun hdrops _, fun _ => ?_, ?_, ?_⟩, fun served hsocket howner => ⟨?_, ?_⟩⟩
  · rw [hconnections] at hother
    exact hother
  · exact fun entry hentry => hasync ▸ hentry
  · rw [hconnections]
  · rw [hfinal.switches]
    exact List.Subset.refl _
  · rw [hfinal.logins]
    exact List.Subset.refl _
  · intro heq
    rw [heq, hsession] at howner
    exact hsocket howner.symm
  · rw [hsessions]

theorem Sound.open_session (socket : Socket)
    (hnew : new_session st.view session) (huntouched : st.Untouched session) :
    Sound gone ((st.open_session session socket).set_record socket
      { st.connections socket with session := some session }) := by
  have hview := view_open_session st session socket
  generalize hst' : (st.open_session session socket).set_record socket
    { st.connections socket with session := some session } = st' at hview
  have hbooking : SameBooking st st' := by
    rw [← hst']
    unfold State.set_record
    split <;> exact ⟨rfl, rfl, rfl, rfl⟩
  have hcalm : Calm st st' := by
    rw [← hst']
    unfold State.set_record
    split <;> exact ⟨rfl, rfl, rfl, rfl, rfl, rfl, Nat.le_refl _, fun _ ho => Or.inl ho⟩
  have hasync : st'.async = st.async := by
    rw [← hst']
    unfold State.set_record
    split <;> rfl
  have hconnections : ∀ t, (st'.connections t).role = (st.connections t).role ∧
      ((st'.connections t).session = (st.connections t).session ∨ (st'.connections t).session = some session) := by
    intro t
    rw [← hst']
    unfold State.set_record
    split
    · exact ⟨rfl, Or.inl rfl⟩
    by_cases ht : t = socket
    · simp [ht]
    · simp [ht, State.open_session]
  have hsessions : ∀ other, other ≠ session → st'.sessions other = st.sessions other := by
    intro other hne
    change st'.view.sessions other = st.sessions other
    rw [hview]
    exact update_of_ne hne _ _
  have hdrops : st'.drops = st.drops := by
    rw [← hst']
    unfold State.set_record
    split <;> rfl
  refine h.same_booking hbooking hcalm ?_ (fun t other hother => ?_) ?_ fun uuid data hgone hmem => ?_
  · rw [hview]
    exact h.owned.open_session hnew socket
  · obtain hold | hself := (hconnections t).2
    · rw [hold] at hother
      exact h.held t other hother
    rw [hself, some.injEq] at hother
    rw [← hother]
    exact Or.inl huntouched.1
  · rw [hasync]
    exact List.Subset.refl _
  refine ⟨⟨congrFun hdrops _, fun _ => (hconnections _).1, ?_, ?_⟩, fun other hsocket howner => hsessions other ?_⟩
  · rw [hcalm.switches]
    exact List.Subset.refl _
  · rw [hcalm.logins]
    exact List.Subset.refl _
  intro heq
  rw [heq] at howner
  exact hsocket (howner.symm.trans hnew.1)

theorem Sound.unregister_mixer
    (hnobody : ∀ t session, (st.connections t).session = some session → st.slots mixer ≠ some (some session)) :
    Sound gone (st.unregister_mixer mixer) where
  toTidy := by
    refine h.toTidy.mono ?_ (filter_subset_self _) (List.Subset.refl _) (Nat.le_refl _)
    exact List.Sublist.append (filter_sublist.map _) (List.Sublist.refl _)
  toBooked := h.toBooked.unregister_mixer hnobody
  owned := h.owned
  fits uuid data hgone hmem := by
    refine (h.fits uuid data hgone hmem).mono ⟨rfl, fun _ => rfl, List.Subset.refl _, List.Subset.refl _⟩
      (fun r hr _ => hr) (fun r hr _ => Or.inl (mem_of_mem_filter hr)) fun r hr session loop hof => ?_
    have hne : r.mixer ≠ mixer := by
      have hfilter := (mem_filter.mp hr).2
      simpa using hfilter
    exact ⟨rfl, rfl, update_of_ne hne _ _⟩

theorem Sound.release_user (hheld : st.Held session) (hknown : session ∈ st.session_ids)
    (hother : ∀ uuid data, ¬gone data.socket → (uuid, data) ∈ st.async → data.socket ≠ 0 →
      st.sessions session ≠ data.socket) : Sound gone (st.release_user session) := by
  have hreleased : Released st session (st.release_user session) := ⟨rfl, rfl, Or.inl ⟨rfl, rfl⟩⟩
  have hcalm : Calm st (st.release_user session) := { Calm.refl st with }
  refine h.released hheld hknown hreleased hcalm h.owned (fun t other hsession => hsession) (List.Subset.refl _)
    fun uuid data hgone hmem => ⟨⟨rfl, fun _ => rfl, List.Subset.refl _, List.Subset.refl _⟩,
      fun other hsocket howner => ⟨fun heq => ?_, rfl⟩⟩
  rw [heq] at howner
  exact hother uuid data hgone hmem hsocket howner

end

theorem Booked.release_user_eq (h : Booked st) (hfree : st.users session = 0) :
    st.release_user session = st := by
  have hslots : update st.slots 0 none = st.slots := by rw [← h.zero, update_eq_self]
  have husers : update st.users session 0 = st.users := by rw [← hfree, update_eq_self]
  simp only [State.release_user, hfree, h.zero, map_none, hslots, husers]

theorem Sound.release_unregister (h : Sound gone st)
    (husers : st.users session = mixer) (hslot : st.slots mixer = some (some session))
    (hknown : session ∈ st.session_ids) : Sound gone ((st.release_user session).unregister_mixer mixer) := by
  have hheld : st.Held session := by
    refine Or.inr ?_
    rw [husers, hslot]
  have hreleased : Booked (st.release_user session) :=
    h.toBooked.released hheld hknown rfl rfl rfl (fun t other hother => hother) (fun r hr => Or.inl hr)
  refine ⟨?_, hreleased.unregister_mixer fun t other hother hslot' => ?_, h.owned, fun uuid data hgone hmem => ?_⟩
  · refine h.toTidy.mono ?_ (filter_subset_self _) (List.Subset.refl _) (Nat.le_refl _)
    exact List.Sublist.append (filter_sublist.map _) (List.Sublist.refl _)
  · simp [State.release_user, husers, hslot] at hslot'
  refine (h.fits uuid data hgone hmem).mono ⟨rfl, fun _ => rfl, List.Subset.refl _, List.Subset.refl _⟩
    (fun r hr _ => hr) (fun r hr _ => Or.inl (mem_of_mem_filter hr)) fun r hr served loop hof => ⟨rfl, ?_, ?_⟩
  · have hserved : served ≠ session := by
      intro heq
      have hne : r.mixer ≠ mixer := by simpa using (mem_filter.mp hr).2
      rw [heq] at hof
      exact hne (hof.2.2.1.symm.trans husers)
    exact update_of_ne hserved _ _
  have hne : r.mixer ≠ mixer := by simpa using (mem_filter.mp hr).2
  change update (update st.slots (st.users session) _) mixer none r.mixer = st.slots r.mixer
  rw [husers, update_of_ne hne, update_of_ne hne]

theorem slot_user_of_slots (hslot : st.slots mixer = some (some session)) : st.slot_user mixer = session := by
  simp [State.slot_user, hslot]

theorem Sound.close_mixer (h : Sound gone st) (mixer : Socket) : Sound gone (close_mixer mixer st) := by
  rw [close_mixer_eq]
  split
  · rename_i huser
    refine h.unregister_mixer fun t session hsession hslot => ?_
    rw [slot_user_of_slots hslot] at huser
    have hknown : session ∈ st.session_ids := h.owned.record_known hsession
    rw [huser] at hknown
    exact h.owned.named hknown
  have hdropped := Dropped.drop_without_mixer st false true (st.sessions (st.slot_user mixer))
  have hsame := SameBooking.drop_without_mixer st false true (st.sessions (st.slot_user mixer))
  refine (h.drop_without_mixer true _).unregister_mixer fun t session hsession hslot => ?_
  -- the client of the mixer is the one that was dropped
  obtain ⟨hne, hrecord⟩ := hdropped.records t session hsession
  rw [hsame.slots] at hslot
  rw [slot_user_of_slots hslot] at hne
  exact hne (h.owned.owner t session hrecord).symm

theorem Sound.register_mixer (h : Sound gone st) {config : Config}
    (hregister : register_mixer config mixer st = some st') : Sound gone st' := by
  unfold vocs.register_mixer at hregister
  split at hregister
  · rename_i hmixer
    obtain ⟨hpositive, -, hnone⟩ := hmixer
    cases hregister
    have hslots : ∀ m session, st.slots m = some (some session) →
        update st.slots mixer (some none) m = some (some session) := by
      intro m session hslot
      have hne : m ≠ mixer := by
        intro heq
        rw [heq, hnone] at hslot
        simp at hslot
      rw [update_of_ne hne]
      exact hslot
    refine ⟨⟨h.nodup, h.own, h.callbacks⟩, ⟨?_, fun t session hsession => ?_, fun r hr session hcommand => ?_,
      h.releasing, h.used⟩, h.owned, fun uuid data hgone hmem => ?_⟩
    · exact (update_of_ne (Nat.ne_of_lt hpositive) _ _).trans h.zero
    · obtain hzero | hslot := h.held t session hsession
      · exact Or.inl hzero
      · exact Or.inr (hslots _ session hslot)
    · obtain ⟨hknown, hzero | ⟨husers, hslot⟩⟩ := h.acquiring r hr session hcommand
      · exact ⟨hknown, Or.inl hzero⟩
      · exact ⟨hknown, Or.inr ⟨husers, hslots _ session hslot⟩⟩
    refine (h.fits uuid data hgone hmem).mono ⟨rfl, fun _ => rfl, List.Subset.refl _, List.Subset.refl _⟩
      (fun r hr _ => hr) (fun r hr _ => Or.inl hr) fun r hr session loop hof => ⟨rfl, rfl, ?_⟩
    rw [hof.2.2.2.1]
    exact hslots _ session hof.2.2.2.1
  · simp at hregister

theorem perm_underway (h : ∃ before after, st.underway = before ++ after ∧ st'.underway = before ++ uuid :: after) :
    st'.underway.Perm (uuid :: st.underway) := by
  obtain ⟨before, after, hold, hnew⟩ := h
  rw [hold, hnew]
  exact perm_middle

theorem Sound.move (h : Sound gone st) {grants : Switch → Prop} (hown : ∀ n, uuid = .own n → n < st.uuids)
    (hmove : Move uuid grants st st') : Sound gone st' := by
  cases hmove with
  | keep _ hkeeps => exact h.keep hkeeps
  | unset other => exact h.unset other
  | set data hfits => exact h.set hfits
  | talk session loop hgranted =>
    exact h.less (.of_eq rfl rfl rfl rfl rfl rfl rfl rfl) (List.Sublist.refl _) (List.Subset.refl _)
      (List.Subset.refl _) (List.Subset.refl _) (Nat.le_refl _) (List.Subset.refl _)
  | join session loop hgranted hnew hpending =>
    have hcommand : ∀ other, MixerCommand.join session loop ≠ .acquire other ∧
        MixerCommand.join session loop ≠ .release other := by simp
    exact h.send_message hnew hown session hcommand (Or.inl hpending)
  | bind r huuid hnew hlogin =>
    refine h.ask hnew hown (.of_eq rfl rfl rfl rfl rfl rfl rfl rfl) ?_ rfl rfl rfl rfl fun other hother => ?_
    · exact perm_underway ⟨st.mixer_requests.map MixerRequest.uuid ++ (st.proxy_requests.map ProxyRequest.uuid ++
        st.ldap_requests.map LdapRequest.uuid), st.module_requests.map ModuleRequest.uuid,
        by simp [State.underway], by simp [State.underway, huuid]⟩
    obtain hold | hsent := mem_append.mp hother
    · exact Or.inl hold
    rw [mem_singleton.mp hsent]
    exact Or.inr ⟨huuid, hlogin⟩
  | message session command hplain hnew =>
    refine h.send_message hnew hown session ?_ (Or.inr ?_)
    · intro other
      cases command <;> simp [MixerCommand.is_plain] at hplain ⊢
    intro other loop
    cases command <;> simp [MixerCommand.is_plain] at hplain ⊢
  | proxy r huuid hnew =>
    refine h.ask hnew hown (.of_eq rfl rfl rfl rfl rfl rfl rfl rfl) ?_ rfl rfl rfl rfl fun other hother => Or.inl hother
    exact perm_underway ⟨st.mixer_requests.map MixerRequest.uuid ++ st.proxy_requests.map ProxyRequest.uuid,
      st.ldap_requests.map LdapRequest.uuid ++ st.module_requests.map ModuleRequest.uuid,
      by simp [State.underway], by simp [State.underway, huuid]⟩
  | module r huuid hnew =>
    refine h.ask hnew hown (.of_eq rfl rfl rfl rfl rfl rfl rfl rfl) ?_ rfl rfl rfl rfl fun other hother => Or.inl hother
    exact perm_underway ⟨st.underway, [], by simp, by simp [State.underway, huuid]⟩
  | acquire session mixer hfree hnew huntouched hknown => exact h.acquire hfree hnew hown huntouched hknown
  | release session hsession hheld hknown => exact h.release hsession hheld hknown
  | open_session session socket hnew huntouched => exact h.open_session socket hnew huntouched
  | drop_with frontend socket => exact h.drop_with_mixer false frontend (by simp)
  | drop_without frontend socket => exact h.drop_without_mixer frontend socket
  | close mixer => exact h.close_mixer mixer

end

end openvocs.vocs
