import Openvocs.Vocs.Drops

open List

namespace openvocs.vocs

open State Function

/-- The registry has no mixer for the session, or one that works for it. -/
def State.Held (st : State) (session : Session) : Prop :=
  st.users session = 0 ∨ st.slots (st.users session) = some (some session)

/-- The messages under way have ids of their own, and what is registered for them is
    what was registered with them. -/
structure Tidy (st : State) : Prop where
  nodup : st.underway.Nodup
  own : ∀ n, .own n ∈ st.underway → n < st.uuids
  callbacks : ∀ entry ∈ st.callbacks, ∀ r ∈ st.mixer_requests, r.uuid = entry.1 → entry.2 = r.command.callback

/-- The mixers work for the sessions that have booked them. -/
structure Booked (st : State) : Prop where
  zero : st.slots 0 = none
  held : ∀ socket session, (st.connections socket).session = some session → st.Held session
  acquiring : ∀ r ∈ st.mixer_requests, ∀ session, r.command = .acquire session → session ∈ st.session_ids ∧
    (st.users session = 0 ∨ st.users session = r.mixer ∧ st.slots r.mixer = some (some session))
  releasing : ∀ r ∈ st.mixer_requests, ∀ session, r.command = .release session → session ∈ st.session_ids ∧
    st.users session = 0
  used : ∀ session, st.users session ≠ 0 → session ∈ st.session_ids

section

variable {st st' : State} {uuid : Uuid}

theorem Tidy.mono (h : Tidy st) (hunderway : st'.underway.Sublist st.underway)
    (hrequests : st'.mixer_requests ⊆ st.mixer_requests) (hcallbacks : st'.callbacks ⊆ st.callbacks)
    (huuids : st.uuids ≤ st'.uuids) : Tidy st' where
  nodup := h.nodup.sublist hunderway
  own n hn := Nat.lt_of_lt_of_le (h.own n (hunderway.subset hn)) huuids
  callbacks entry hentry r hr := h.callbacks entry (hcallbacks hentry) r (hrequests hr)

theorem Tidy.add (h : Tidy st) (hnew : uuid ∉ st.underway) (hperm : st'.underway.Perm (uuid :: st.underway))
    (hown : ∀ n, uuid = .own n → n < st'.uuids) (huuids : st.uuids ≤ st'.uuids)
    (hcallbacks : ∀ entry ∈ st'.callbacks, ∀ r ∈ st'.mixer_requests, r.uuid = entry.1 → entry.2 = r.command.callback) :
    Tidy st' where
  nodup := hperm.nodup_iff.mpr (nodup_cons.mpr ⟨hnew, h.nodup⟩)
  own n hn := by
    obtain heq | hold := mem_cons.mp (hperm.mem_iff.mp hn)
    · exact hown n heq.symm
    · exact Nat.lt_of_lt_of_le (h.own n hold) huuids
  callbacks := hcallbacks

theorem mem_underway_mixer {r : MixerRequest} (hr : r ∈ st.mixer_requests) : r.uuid ∈ st.underway :=
  mem_append_left _ (List.mem_map_of_mem hr)

theorem Tidy.send_mixer (h : Tidy st) (hnew : uuid ∉ st.underway) (mixer : Socket) (command : MixerCommand)
    (hrequests : st'.mixer_requests = st.mixer_requests ++ [⟨mixer, uuid, command⟩])
    (hcallbacks : st'.callbacks = (st.register_callback uuid command.callback).callbacks)
    (hproxy : st'.proxy_requests = st.proxy_requests) (hldap : st'.ldap_requests = st.ldap_requests)
    (hmodule : st'.module_requests = st.module_requests) (hown : ∀ n, uuid = .own n → n < st'.uuids)
    (huuids : st.uuids ≤ st'.uuids) : Tidy st' := by
  refine h.add hnew ?_ hown huuids fun entry hentry r hr hkey => ?_
  · unfold State.underway
    rw [hrequests, hproxy, hldap, hmodule, map_append, append_assoc]
    exact perm_middle
  rw [hrequests, mem_append, mem_singleton] at hr
  rw [hcallbacks] at hentry
  simp only [State.register_callback, assoc.erase, mem_append, mem_filter, mem_singleton, decide_eq_true_eq] at hentry
  obtain hold | hsent := hr
  · obtain ⟨hentry, -⟩ | hentry := hentry
    · exact h.callbacks entry hentry r hold hkey
    have hmem := mem_underway_mixer hold
    rw [hkey, hentry] at hmem
    exact absurd hmem hnew
  obtain ⟨-, hne⟩ | hentry := hentry
  · rw [hsent] at hkey
    exact absurd hkey.symm hne
  · rw [hentry, hsent]

theorem Tidy.register_callback (h : Tidy st) (hnew : uuid ∉ st.underway) (cb : Callback) :
    Tidy (st.register_callback uuid cb) where
  nodup := h.nodup
  own := h.own
  callbacks entry hentry r hr hkey := by
    simp only [State.register_callback, assoc.erase, mem_append, mem_filter, mem_singleton] at hentry
    obtain ⟨hentry, -⟩ | hentry := hentry
    · exact h.callbacks entry hentry r hr hkey
    have hmem := mem_underway_mixer hr
    rw [hkey, hentry] at hmem
    exact absurd hmem hnew

theorem Tidy.send_message (h : Tidy st) (hnew : uuid ∉ st.underway) (hown : ∀ n, uuid = .own n → n < st.uuids)
    (session : Session) (command : MixerCommand) :
    Tidy (st.send_message command.callback uuid session command).2 := by
  simp only [State.send_message]
  split
  · exact h.register_callback hnew _
  · exact h.send_mixer hnew _ command rfl rfl rfl rfl rfl hown (Nat.le_refl _)

theorem Tidy.released (h : Tidy st) {session : Session} (hreleased : Released st session st')
    (hproxy : st'.proxy_requests = st.proxy_requests) (hldap : st'.ldap_requests = st.ldap_requests)
    (hmodule : st'.module_requests = st.module_requests) (huuids : st.uuids ≤ st'.uuids) : Tidy st' := by
  obtain ⟨hrequests, hcallbacks⟩ | ⟨hlt, hrequests, hcallbacks⟩ := hreleased.requests
  · refine h.mono ?_ (by rw [hrequests]; exact List.Subset.refl _) (by rw [hcallbacks]; exact List.Subset.refl _) huuids
    unfold State.underway
    rw [hrequests, hproxy, hldap, hmodule]
  refine h.send_mixer ?_ _ (.release session) hrequests hcallbacks hproxy hldap hmodule ?_ huuids
  · intro hmem
    exact Nat.lt_irrefl _ (h.own st.uuids hmem)
  intro n hn
  cases hn
  exact hlt

theorem Booked.keep (h : Booked st) (hslots : st'.slots = st.slots) (husers : st'.users = st.users)
    (hids : st.session_ids ⊆ st'.session_ids)
    (hrecords : ∀ t session, (st'.connections t).session = some session → st.Held session)
    (hrequests : ∀ r ∈ st'.mixer_requests, r ∈ st.mixer_requests ∨
      ∀ session, r.command ≠ .acquire session ∧ r.command ≠ .release session) : Booked st' where
  zero := by
    rw [hslots]
    exact h.zero
  held t session hsession := by
    unfold State.Held
    rw [hslots, husers]
    exact hrecords t session hsession
  acquiring r hr session hcommand := by
    obtain hold | hother := hrequests r hr
    · obtain ⟨hknown, hbooked⟩ := h.acquiring r hold session hcommand
      rw [hslots, husers]
      exact ⟨hids hknown, hbooked⟩
    · exact absurd hcommand (hother session).1
  releasing r hr session hcommand := by
    obtain hold | hother := hrequests r hr
    · obtain ⟨hknown, hfree⟩ := h.releasing r hold session hcommand
      rw [husers]
      exact ⟨hids hknown, hfree⟩
    · exact absurd hcommand (hother session).2
  used session hsession := by
    rw [husers] at hsession
    exact hids (h.used session hsession)

theorem users_release_user (st : State) (session other : Session) :
    (st.release_user session).users other = if other = session then 0 else st.users other := by
  by_cases heq : other = session
  · simp [State.release_user, heq]
  · simp [State.release_user, heq]

theorem Booked.slots_release_user (h : Booked st) {session other : Session} {mixer : Socket} (hheld : st.Held session)
    (hne : other ≠ session) (hslot : st.slots mixer = some (some other)) :
    (st.release_user session).slots mixer = some (some other) := by
  have hmixer : mixer ≠ st.users session := by
    intro heq
    rw [heq] at hslot
    obtain hzero | hself := hheld
    · rw [hzero, h.zero] at hslot
      simp at hslot
    rw [hself] at hslot
    simp at hslot
    exact hne hslot.symm
  simpa [State.release_user, hmixer] using hslot

theorem Booked.released (h : Booked st) {session : Session} (hheld : st.Held session)
    (hknown : session ∈ st.session_ids) (hslots : st'.slots = (st.release_user session).slots)
    (husers : st'.users = (st.release_user session).users) (hids : st'.session_ids = st.session_ids)
    (hrecords : ∀ t other, (st'.connections t).session = some other → (st.connections t).session = some other)
    (hrequests : ∀ r ∈ st'.mixer_requests, r ∈ st.mixer_requests ∨ r.command = .release session) : Booked st' where
  zero := by
    rw [hslots]
    by_cases hzero : st.users session = 0
    · simp [State.release_user, hzero, h.zero]
    · simp [State.release_user, Ne.symm hzero, h.zero]
  held t other hother := by
    unfold State.Held
    rw [hslots, husers, users_release_user]
    by_cases heq : other = session
    · rw [if_pos heq]
      exact Or.inl rfl
    rw [if_neg heq]
    obtain hzero | hslot := h.held t other (hrecords t other hother)
    · exact Or.inl hzero
    · exact Or.inr (h.slots_release_user hheld heq hslot)
  acquiring r hr other hcommand := by
    obtain hold | hrelease := hrequests r hr
    · obtain ⟨hother, hbooked⟩ := h.acquiring r hold other hcommand
      rw [hslots, husers, hids, users_release_user]
      refine ⟨hother, ?_⟩
      by_cases heq : other = session
      · rw [if_pos heq]
        exact Or.inl rfl
      rw [if_neg heq]
      obtain hzero | ⟨hmixer, hslot⟩ := hbooked
      · exact Or.inl hzero
      · exact Or.inr ⟨hmixer, h.slots_release_user hheld heq hslot⟩
    rw [hrelease] at hcommand
    simp at hcommand
  releasing r hr other hcommand := by
    rw [husers, hids, users_release_user]
    obtain hold | hrelease := hrequests r hr
    · obtain ⟨hother, hfree⟩ := h.releasing r hold other hcommand
      refine ⟨hother, ?_⟩
      split
      · rfl
      · exact hfree
    rw [hrelease] at hcommand
    cases hcommand
    exact ⟨hknown, if_pos rfl⟩
  used other hother := by
    rw [husers, users_release_user] at hother
    rw [hids]
    split at hother
    · exact absurd rfl hother
    · exact h.used other hother

theorem Booked.acquire (h : Booked st) {session : Session} {mixer : Socket} (hfree : st.slots mixer = some none)
    (huntouched : st.Untouched session) (hknown : session ∈ st.session_ids) (uuid : Uuid) :
    Booked (((st.acquire_user session mixer).register_callback uuid .acquired).send_mixer mixer uuid
      (.acquire session)) := by
  have hslots : ∀ other m, st.slots m = some (some other) →
      update st.slots mixer (some (some session)) m = some (some other) := by
    intro other m hslot
    have hm : m ≠ mixer := by
      intro heq
      rw [heq, hfree] at hslot
      simp at hslot
    rw [update_of_ne hm]
    exact hslot
  refine ⟨?_, fun t other hother => ?_, fun r hr other hcommand => ?_, fun r hr other hcommand => ?_,
    fun other hother => ?_⟩
  · have hmixer : (0 : Socket) ≠ mixer := by
      intro heq
      rw [← heq, h.zero] at hfree
      simp at hfree
    exact (update_of_ne hmixer _ _).trans h.zero
  · change update st.users session mixer other = 0 ∨
      update st.slots mixer (some (some session)) (update st.users session mixer other) =
        some (some other)
    by_cases heq : other = session
    · simp [heq]
    rw [update_of_ne heq]
    obtain hzero | hslot := h.held t other hother
    · exact Or.inl hzero
    · exact Or.inr (hslots other _ hslot)
  · change other ∈ st.session_ids ∧ (update st.users session mixer other = 0 ∨
      update st.users session mixer other = r.mixer ∧
        update st.slots mixer (some (some session)) r.mixer = some (some other))
    obtain hold | hsent := mem_append.mp hr
    · obtain ⟨hother, hbooked⟩ := h.acquiring r hold other hcommand
      have hne : other ≠ session := by
        intro heq
        rw [heq] at hcommand
        exact (huntouched.2 r hold).1 hcommand
      rw [update_of_ne hne]
      obtain hzero | ⟨hmixer, hslot⟩ := hbooked
      · exact ⟨hother, Or.inl hzero⟩
      · exact ⟨hother, Or.inr ⟨hmixer, hslots other _ hslot⟩⟩
    rw [mem_singleton.mp hsent] at hcommand ⊢
    cases hcommand
    exact ⟨hknown, Or.inr ⟨by simp, by simp⟩⟩
  · change other ∈ st.session_ids ∧ update st.users session mixer other = 0
    obtain hold | hsent := mem_append.mp hr
    · obtain ⟨hother, hfree'⟩ := h.releasing r hold other hcommand
      have hne : other ≠ session := by
        intro heq
        rw [heq] at hcommand
        exact (huntouched.2 r hold).2 hcommand
      rw [update_of_ne hne]
      exact ⟨hother, hfree'⟩
    rw [mem_singleton.mp hsent] at hcommand
    cases hcommand
  change update st.users session mixer other ≠ 0 at hother
  by_cases heq : other = session
  · rw [heq]
    exact hknown
  rw [update_of_ne heq] at hother
  exact h.used other hother

theorem Booked.unregister_mixer (h : Booked st) {mixer : Socket}
    (hnobody : ∀ t session, (st.connections t).session = some session → st.slots mixer ≠ some (some session)) :
    Booked (st.unregister_mixer mixer) := by
  have hrequests : ∀ r ∈ (st.unregister_mixer mixer).mixer_requests, r ∈ st.mixer_requests ∧ r.mixer ≠ mixer := by
    intro r hr
    simpa [State.unregister_mixer] using hr
  refine ⟨?_, fun t session hsession => ?_, fun r hr session hcommand => ?_, fun r hr session hcommand => ?_, h.used⟩
  · change update st.slots mixer none 0 = none
    by_cases hzero : (0 : Socket) = mixer
    · rw [← hzero, update_self]
    rw [update_of_ne hzero]
    exact h.zero
  · change st.users session = 0 ∨ update st.slots mixer none (st.users session) = some (some session)
    obtain hzero | hslot := h.held t session hsession
    · exact Or.inl hzero
    have hne : st.users session ≠ mixer := by
      intro heq
      rw [heq] at hslot
      exact hnobody t session hsession hslot
    rw [update_of_ne hne]
    exact Or.inr hslot
  · obtain ⟨hold, hne⟩ := hrequests r hr
    obtain ⟨hknown, hbooked⟩ := h.acquiring r hold session hcommand
    refine ⟨hknown, ?_⟩
    change st.users session = 0 ∨ st.users session = r.mixer ∧
      update st.slots mixer none r.mixer = some (some session)
    rw [update_of_ne hne]
    exact hbooked
  · exact h.releasing r (hrequests r hr).1 session hcommand

end

end openvocs.vocs
