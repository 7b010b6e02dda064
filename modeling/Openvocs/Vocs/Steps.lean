import Openvocs.Vocs.Evolution

namespace openvocs.vocs

open vocs_db (Permission)
open State

section

variable {rules : Rules} {v : View} {st : State} {outside : Outside} {socket : Socket} {msg : Message}

theorem Evolves.refuse (h : Evolves rules v st.view) (e : Error) :
    ∀ r ∈ refuse socket msg e st, Evolves rules v r.2.view := by
  rintro r ⟨⟩
  exact h.same (.respond _ _ _ _)

theorem Evolves.await (h : Evolves rules v st.view) (uuid : String) :
    ∀ r ∈ await socket uuid msg st, Evolves rules v r.2.view := by
  rintro r ⟨⟩
  exact h.same (.async_set _ _ _)

theorem Evolves.await_sent {sent : Bool × State} (h : Evolves rules v sent.2.view) (uuid : String) :
    ∀ r ∈ await_sent sent socket uuid msg, Evolves rules v r.2.view := by
  obtain ⟨ok, st'⟩ := sent
  cases ok
  · exact h.refuse _
  · exact h.await uuid

theorem Evolves.login_session_user (h : Evolves rules v st.view) {user : String}
    (hrule : rules.user st.view socket user) :
    ∀ r ∈ login_session_user outside socket msg user st, Evolves rules v r.2.view := by
  have hlogged := h.log_in outside msg hrule
  intro r hr
  simp only [vocs.login_session_user, Option.mem_def] at hr
  split at hr <;>
  · rename_i heq
    rw [heq] at hlogged
    cases hr
    exact hlogged

theorem view_noted {st' : State} {switches : List Switch} {logins : List Login} {binds : List (String × String)}
    (hview : { st'.view with switches := st.switches, logins := st.logins, binds := st.binds } = st.view)
    (hswitches : st'.switches = st.switches ++ switches) (hlogins : st'.logins = st.logins ++ logins)
    (hbinds : st'.binds = st.binds ++ binds) : st'.view = st.view.note switches logins binds := by
  calc st'.view
    _ = { { st'.view with switches := st.switches, logins := st.logins, binds := st.binds } with
          switches := st'.switches, logins := st'.logins, binds := st'.binds } := rfl
    _ = { st.view with switches := st'.switches, logins := st'.logins, binds := st'.binds } := by rw [hview]
    _ = st.view.note switches logins binds := by rw [hswitches, hlogins, hbinds]; rfl

section

variable (h : Evolves rules v st.view)

include h

theorem Evolves.noted {st' : State} {switches : List Switch} {logins : List Login}
    {binds : List (String × String)}
    (hview : st'.view = st.view.note switches logins binds) : Evolves rules v st'.view := by
  rw [hview]
  exact Relation.ReflTransGen.tail h (.note switches logins binds)

/-- A login that is accepted at once. -/
def Login.at_once (socket : Socket) (st : State) (user password : String) : Login :=
  ⟨socket, st.drops socket, user, password, true⟩

theorem Evolves.client_login (config : Config)
    (hrule : ∀ user password, msg.get "user" = some user → msg.get "password" = some password →
      rules.user (st.view.note [] [.at_once socket st user password] []) socket user) :
    ∀ r ∈ client_login config outside socket msg st, Evolves rules v r.2.view := by
  have hview : ∀ login, { st with logins := st.logins ++ [login] : State }.view = st.view.note [] [login] [] :=
    fun login => view_noted rfl (by simp) rfl (by simp)
  have hnoted := fun login => h.noted (hview login)
  have haccepted : ∀ user password, msg.get "user" = some user → msg.get "password" = some password →
      rules.user { st with logins := st.logins ++ [.at_once socket st user password] : State }.view socket user := by
    intro user password huser hpassword
    rw [hview]
    exact hrule user password huser hpassword
  simp only [vocs.client_login]
  split
  · exact h.refuse _
  split
  · rintro r ⟨⟩
    exact h
  split
  · rename_i user password huser hpassword
    split
    · exact (hnoted _).login_session_user (haccepted user password huser hpassword)
    split
    · rintro r ⟨⟩
      exact (hnoted _).of_view rfl
    split
    · simp
    · exact h.refuse _
    · exact (hnoted _).login_session_user (haccepted user password huser hpassword)
  · exact h.refuse _

theorem Evolves.client_logout :
    ∀ r ∈ client_logout socket msg st, Evolves rules v r.2.view := by
  rintro r ⟨⟩
  apply Evolves.drop_connection
  split <;> exact h.of_view rfl

theorem Evolves.client_media :
    ∀ r ∈ client_media outside socket msg st, Evolves rules v r.2.view := by
  have hsent := fun uuid command => h.same (.send_proxy st outside socket uuid command)
  simp only [vocs.client_media]
  split
  · rintro r ⟨⟩
    exact h
  split
  · exact h.refuse _
  split
  · exact Evolves.await_sent (hsent _ _) _
  · split
    · exact h.refuse _
    · exact h.refuse _
    · exact Evolves.await_sent (hsent _ _) _
  · split
    · exact h.refuse _
    · exact h.refuse _
    · exact Evolves.await_sent (hsent _ _) _
  · exact h.refuse _

theorem Evolves.switch_loop_state (session : Session) (uuid loop : String)
    (requested : Permission) :
    ∀ r ∈ switch_loop_state outside socket session uuid loop requested msg st, Evolves rules v r.2.view := by
  simp only [vocs.switch_loop_state]
  split
  · rintro r ⟨⟩
    exact (h.of_view (view_open_loop st loop)).same (.respond _ _ _ _)
  split
  · simp
  rename_i hperform
  exact Evolves.await_sent (h.same (.perform_switch_loop_request hperform)) uuid

theorem Evolves.client_switch_loop_state :
    ∀ r ∈ client_switch_loop_state outside socket msg st, Evolves rules v r.2.view := by
  have hview : ∀ switch, { st with switches := st.switches ++ [switch] : State }.view = st.view.note [switch] [] [] :=
    fun switch => view_noted rfl rfl (by simp) (by simp)
  have hnoted := fun switch => h.noted (hview switch)
  simp only [vocs.client_switch_loop_state]
  split
  · split
    · exact h.refuse _
    split
    · split
      · rintro r ⟨⟩
        exact h
      split
      · simp
      split
      · exact (hnoted _).switch_loop_state _ _ _ _
      · exact (hnoted _).refuse _
    · exact h.refuse _
  · exact h.refuse _

theorem Evolves.client_switch_loop_volume :
    ∀ r ∈ client_switch_loop_volume socket msg st, Evolves rules v r.2.view := by
  have hsent : ∀ uuid session loop, Evolves rules v (st.set_loop_volume uuid session loop).2.view :=
    fun uuid session loop => h.same (.send_message st .volume uuid session _)
  simp only [vocs.client_switch_loop_volume]
  split
  · split
    · rename_i uuid loop _ _
      split
      · split
        · exact h.refuse _
        rename_i session _
        have hst' := hsent (.client uuid) session loop
        split
        · rename_i heq
          rw [heq] at hst'
          exact hst'.refuse _
        rename_i heq
        rw [heq] at hst'
        rintro r ⟨⟩
        exact (hst'.same (.async_set _ _ _)).same (.send_switch_volume_user_broadcast _ _ _)
      · exact h.refuse _
    · exact h.refuse _
  · exact h.refuse _

theorem Evolves.client_authorize :
    ∀ r ∈ client_authorize outside socket msg st, Evolves rules v r.2.view := by
  simp only [vocs.client_authorize]
  split
  · rintro r ⟨⟩
    exact h
  · exact h.refuse _
  rename_i hrole
  split
  · exact h.refuse _
  split
  · simp
  · exact h.refuse _
  have hbroadcast : ∀ role, Evolves rules v (st.set_broadcast role socket .role).view := fun _ => h.of_view rfl
  have hnew : ∀ role : String, (st.connections socket).role.isSome → some role = (st.connections socket).role := by
    simp [hrole]
  rintro r ⟨⟩
  split
  · exact ((hbroadcast _).same (.respond _ _ _ _)).set_record socket rfl (hnew _) rfl rfl
  · exact (hbroadcast _).set_record socket rfl (hnew _) rfl rfl

theorem Evolves.cb_client_process {config : Config} {request : Request}
    (hrule : request = .login → ∀ user password, msg.get "user" = some user → msg.get "password" = some password →
      rules.user (st.view.note [] [.at_once socket st user password] []) socket user) :
    ∀ r ∈ cb_client_process config outside request socket msg st, Evolves rules v r.2.view := by
  have hsent := fun uuid command => h.same (.send_proxy st outside socket uuid command)
  cases request
  case logout => exact h.client_logout
  case login => exact h.client_login config (hrule rfl)
  case update_login =>
    simp only [vocs.cb_client_process, update_client_login]
    split
    · split
      · rintro r ⟨⟩
        exact h.same (.respond _ _ _ _)
      · exact h.refuse _
    · exact h.refuse _
  case media => exact h.client_media
  case candidate =>
    simp only [vocs.cb_client_process, client_candidate]
    split
    · rintro r ⟨⟩
      exact h
    split
    · exact Evolves.await_sent (hsent _ _) _
    · exact h.refuse _
    · exact h.refuse _
  case end_of_candidates =>
    simp only [vocs.cb_client_process, client_end_of_candidates]
    split
    · rintro r ⟨⟩
      exact h
    split
    · exact h.refuse _
    · exact h.refuse _
    · exact Evolves.await_sent (hsent _ _) _
  case authorize => exact h.client_authorize
  case switch_loop_state => exact h.client_switch_loop_state
  case switch_loop_volume => exact h.client_switch_loop_volume
  case state_session =>
    simp only [vocs.cb_client_process, admin_state_session]
    split
    · rintro r ⟨⟩
      exact h
    · rintro r ⟨⟩
      exact h.same (.respond _ _ _ _)
    rename_i uuid session _ _
    have hst' := hsent (.client uuid) (.session_state session)
    split
    · rename_i heq
      rw [heq] at hst'
      exact hst'.await uuid
    rename_i heq
    rw [heq] at hst'
    rintro r ⟨⟩
    exact hst'.same (.respond _ _ _ _)
  case unsupported =>
    rintro r ⟨⟩
    exact h
  case list_calls | list_call_permissions | list_sip_status =>
    simp only [vocs.cb_client_process, client_call_function]
    split
    · split <;>
      · rintro r ⟨⟩
        exact h.of_view rfl
    rintro r ⟨⟩
    exact h.same (.respond _ _ _ _)
  case start_record | stop_record =>
    simp only [vocs.cb_client_process, admin_recording]
    split
    · rintro r ⟨⟩
      exact h
    · rintro r ⟨⟩
      exact h.same (.respond _ _ _ _)
    rintro r ⟨⟩
    dsimp only
    split <;> exact h.of_view rfl

end

end

/-- An event keeps to the rules: what it enters is what the rules let it enter. -/
structure Permitted (rules : Rules) (st : State) (e : Event) : Prop where
  talk : ∀ i result outside r session on loop data, e = .proxy_response i result outside →
    st.proxy_requests[i]? = some r → r.command = .talk session on loop → st.pending r.uuid = some data →
    result.error = none → (st.connections data.socket).user.isSome → (st.connections data.socket).role.isSome →
    rules.talk st.view data.socket loop
  session : ∀ i result outside r data, e = .proxy_response i result outside → st.proxy_requests[i]? = some r →
    r.command = .create_session → st.pending r.uuid = some data → result.error = none →
    result.session ∉ st.session_ids → rules.session (st.view.know result.session) result.session data.socket
  login : ∀ socket msg outside user password, e = .request socket .login msg outside →
    msg.get "user" = some user → msg.get "password" = some password →
    rules.user (st.view.note [] [.at_once socket st user password] []) socket user
  bind : ∀ i outside r data user, e = .ldap_result i true outside → st.ldap_requests[i]? = some r →
    st.pending r.uuid = some data → data.value.get "user" = some user →
    rules.user (st.view.note [] [] [(r.user, r.password)]) data.socket user

theorem step_evolves {rules : Rules} {config : Config} {st st' : State} {e : Event} (h : Permitted rules st e)
    (hstep : step config e st = some st') : Evolves rules st.view st'.view := by
  have hrefl : Evolves rules st.view { st with out := [] : State }.view := Relation.ReflTransGen.refl
  cases e with
  | request socket request msg outside =>
    simp only [step, handle, client_request] at hstep
    split at hstep
    · simp at hstep
    have hprocess : ∀ r ∈ cb_client_process config outside request socket msg { st with out := [] },
        Evolves rules st.view r.2.view :=
      hrefl.cb_client_process fun hlogin user password huser hpassword =>
        h.login socket msg outside user password (by rw [hlogin]) huser hpassword
    split at hstep
    · simp at hstep
    · rename_i heq
      cases hstep
      exact hprocess _ heq
    rename_i heq
    cases hstep
    exact (hprocess _ heq).drop_connection _
  | socket_close socket =>
    cases hstep
    exact hrefl.drop_connection socket
  | timeout expired =>
    cases hstep
    exact hrefl.invalidate _
  | ldap_result i granted outside =>
    simp only [step, handle] at hstep
    split at hstep
    · simp at hstep
    rename_i r hr
    simp only [ldap_response] at hstep
    split at hstep
    · cases hstep
      generalize hst' : ({ st with
          out := []
          ldap_requests := st.ldap_requests.eraseIdx i
          ldap_store := st.ldap_store.filter (fun uuid => decide (uuid ≠ r.uuid))
          binds := if granted then st.binds ++ [(r.user, r.password)] else st.binds } : State) = st'
      have hview : st'.view = st.view.note [] [] (if granted then [(r.user, r.password)] else []) := by
        rw [← hst']
        exact view_noted rfl (by simp) (by simp) (by cases granted <;> simp)
      have hpending : st'.pending r.uuid = st.pending r.uuid := by rw [← hst']; rfl
      refine (Evolves.noted hrefl hview).cb_ldap_authentication outside _ _ fun hgranted data user hdata huser => ?_
      rw [hview, hgranted]
      exact h.bind i outside r data user (by rw [hgranted]) hr (hpending ▸ hdata) huser
    · simp at hstep
  | proxy_response i result outside =>
    simp only [step, handle] at hstep
    split at hstep
    · simp at hstep
    rename_i r hr
    have htaken : Evolves rules st.view
        { st with out := [], proxy_requests := st.proxy_requests.eraseIdx i : State }.view := hrefl.of_view rfl
    refine htaken.proxy_response ?_ ?_ hstep
    · intro session on loop hcommand data hpending
      exact h.talk i result outside r session on loop data rfl hr hcommand hpending
    intro hcommand data hpending
    exact h.session i result outside r data rfl hr hcommand hpending
  | session_completed session success =>
    cases hstep
    exact hrefl.cb_frontend_session_completed session success
  | session_dropped session =>
    cases hstep
    exact hrefl.drop_with_mixer false false _
  | mixer_register mixer =>
    simp only [step, handle, register_mixer] at hstep
    split at hstep
    · cases hstep
      exact hrefl.of_view rfl
    · simp at hstep
  | mixer_close mixer =>
    cases hstep
    exact hrefl.close_mixer mixer
  | mixer_response i error content outside =>
    simp only [step, handle] at hstep
    split at hstep
    · simp at hstep
    refine Evolves.mixer_response ?_ hstep
    exact hrefl.of_view rfl
  | module_response i error content =>
    simp only [step, handle] at hstep
    split at hstep
    · simp at hstep
    cases hstep
    apply Evolves.module_response
    exact hrefl.of_view rfl
  | database op =>
    obtain ⟨r, _, rfl⟩ := Option.map_eq_some_iff.mp hstep
    exact hrefl.of_view rfl
  | proxy_lost | candidate | end_of_candidates | callback_expired | user_session_expired =>
    cases hstep
    exact hrefl.of_view rfl

end openvocs.vocs
