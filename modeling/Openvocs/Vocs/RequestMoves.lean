import Openvocs.Vocs.Moves

namespace openvocs.vocs

open vocs_db (Permission)
open State

section

variable {uuid : Uuid} {grants : Switch → Prop} {st₀ st : State} {outside : Outside} {socket : Socket} {msg : Message}

theorem Fits.of_sent {st' : State} {data : Pending} (hnew : uuid ∉ st.underway)
    (hkey : ∀ id, data.value.uuid = some id → uuid = .client id)
    (hldap : st'.ldap_requests = st.ldap_requests)
    (hmixer : ∀ r ∈ st'.mixer_requests, r ∈ st.mixer_requests ∨ r.command.is_plain = true) : Fits st' uuid data := by
  refine ⟨hkey, fun r hr huuid => absurd ?_ hnew, fun r hr huuid session loop hcommand => ?_⟩
  · rw [hldap] at hr
    simp only [State.underway, List.mem_append, List.mem_map]
    exact Or.inr (Or.inr (Or.inl ⟨r, hr, huuid⟩))
  obtain hold | hplain := hmixer r hr
  · refine absurd ?_ hnew
    simp only [State.underway, List.mem_append, List.mem_map]
    exact Or.inl ⟨r, hold, huuid⟩
  · simp [hcommand, MixerCommand.is_plain] at hplain

theorem get_user_eq_some {session : Session} {mixer : Socket} :
    st.get_user session = some mixer ↔ mixer = st.users session ∧ (st.slots (st.users session)).isSome := by
  unfold State.get_user
  by_cases hsome : (st.slots (st.users session)).isSome = true
  · simp [hsome, eq_comm]
  · simp [hsome]

theorem send_proxy_requests (st : State) (outside : Outside) (asker : Socket) (uuid : Uuid) (command : ProxyCommand) :
    (st.send_proxy outside asker uuid command).2.ldap_requests = st.ldap_requests ∧
      (st.send_proxy outside asker uuid command).2.mixer_requests = st.mixer_requests := by
  unfold State.send_proxy
  split <;> exact ⟨rfl, rfl⟩

theorem send_message_requests (st : State) (cb : Callback) (uuid : Uuid) (session : Session) (command : MixerCommand) :
    (st.send_message cb uuid session command).2.ldap_requests = st.ldap_requests ∧
      ∀ r ∈ (st.send_message cb uuid session command).2.mixer_requests,
        r ∈ st.mixer_requests ∨ r = ⟨st.users session, uuid, command⟩ ∧ (st.slots (st.users session)).isSome := by
  simp only [State.send_message]
  split
  · exact ⟨rfl, fun r hr => Or.inl hr⟩
  rename_i mixer hmixer
  obtain ⟨rfl, hsome⟩ := get_user_eq_some.mp hmixer
  refine ⟨rfl, fun r hr => ?_⟩
  simp only [State.send_mixer, State.send, State.register_callback, List.mem_append, List.mem_singleton] at hr
  obtain hold | hnew := hr
  · exact Or.inl hold
  · exact Or.inr ⟨hnew, hsome⟩

theorem Moves.refuse (h : Moves uuid grants st₀ st) (e : Error) :
    ∀ r ∈ refuse socket msg e st, Moves uuid grants st₀ r.2 := by
  rintro r ⟨⟩
  exact h.respond _ _ _

theorem Moves.await_sent {sent : Bool × State} (h : Moves uuid grants st₀ sent.2) {id : String}
    (huuid : uuid = .client id) (hfits : Fits sent.2 uuid ⟨socket, msg⟩) :
    ∀ r ∈ await_sent sent socket id msg, Moves uuid grants st₀ r.2 := by
  obtain ⟨ok, st'⟩ := sent
  subst huuid
  cases ok
  · exact h.refuse _
  rintro r ⟨⟩
  exact h.set hfits

section

variable (h : Moves uuid grants st₀ st)

include h

theorem Moves.await_proxy (hnew : uuid ∉ st.underway)
    (hkey : ∀ id, msg.uuid = some id → uuid = .client id) {id : String} (hid : msg.uuid = some id)
    {command : ProxyCommand} (hcommand : (Output.proxy (.client id) command).is_quiet = true) :
    ∀ r ∈ vocs.await_sent (st.send_proxy outside socket (.client id) command) socket id msg,
      Moves uuid grants st₀ r.2 := by
  have huuid := hkey id hid
  subst huuid
  obtain ⟨hldap, hmixer⟩ := send_proxy_requests st outside socket (.client id) command
  refine (h.send_proxy hnew outside socket hcommand).await_sent rfl (.of_sent hnew hkey hldap ?_)
  rw [hmixer]
  exact fun r hr => Or.inl hr

theorem Moves.client_logout :
    ∀ r ∈ client_logout socket msg st, Moves uuid grants st₀ r.2 := by
  rintro r ⟨⟩
  apply Moves.drop_connection
  have hresponded := h.respond socket msg .success
  split
  · exact hresponded
  · exact hresponded.keep { Keeps.refl _ with }

theorem Moves.client_login (hnew : uuid ∉ st.underway)
    (hkey : ∀ id, msg.uuid = some id → uuid = .client id) (config : Config) :
    ∀ r ∈ client_login config outside socket msg st, Moves uuid grants st₀ r.2 := by
  have hnoted : ∀ login, Moves uuid grants st₀ { st with logins := st.logins ++ [login] } :=
    fun login => h.keep { Keeps.refl st with logins := List.subset_append_left _ _ }
  have hlogged : ∀ login user, ∀ r ∈ login_session_user outside socket msg user
      { st with logins := st.logins ++ [login] }, Moves uuid grants st₀ r.2 := by
    intro login user r hr
    have hkept := (hnoted login).keep (.log_in _ outside socket msg user)
    simp only [login_session_user, Option.mem_def] at hr
    split at hr <;>
    · rename_i heq
      rw [heq] at hkept
      cases hr
      exact hkept
  simp only [vocs.client_login]
  split
  · exact h.refuse _
  split
  · rintro r ⟨⟩
    exact h
  rename_i id hid
  split
  · rename_i user password huser hpassword
    split
    · exact hlogged _ user
    split
    · rintro r ⟨⟩
      have huuid := hkey id hid
      subst huuid
      -- the request is stored, noted, and then the bind is asked for
      have hset : Moves (.client id) grants st₀ (st.async_set (.client id) ⟨socket, msg⟩) :=
        h.set (.of_new hnew hkey)
      have hlogin : Moves (.client id) grants st₀ { st.async_set (.client id) ⟨socket, msg⟩ with
          logins := st.logins ++ [⟨socket, st.drops socket, user, password, false⟩]
          ldap_store := .client id :: st.ldap_store.filter (fun other => decide (other ≠ .client id)) } :=
        hset.keep { Keeps.refl _ with logins := List.subset_append_left _ _ }
      refine hlogin.tail (.bind ⟨.client id, user, password⟩ rfl hnew fun data hdata => ?_)
      have heq : data = ⟨socket, msg⟩ := by simpa [State.async_set, assoc.erase] using hdata
      subst heq
      exact ⟨huser, hpassword, _, List.mem_append_right _ (List.mem_singleton_self _), rfl, rfl, rfl, rfl⟩
    split
    · simp
    · exact h.refuse _
    · exact hlogged _ user
  · exact h.refuse _

theorem Moves.client_media (hnew : uuid ∉ st.underway)
    (hkey : ∀ id, msg.uuid = some id → uuid = .client id) :
    ∀ r ∈ client_media outside socket msg st, Moves uuid grants st₀ r.2 := by
  simp only [vocs.client_media]
  split
  · rintro r ⟨⟩
    exact h
  split
  · exact h.refuse _
  rename_i id hid
  split
  · exact h.await_proxy hnew hkey hid rfl
  · split
    · exact h.refuse _
    · exact h.refuse _
    · exact h.await_proxy hnew hkey hid rfl
  · split
    · exact h.refuse _
    · exact h.refuse _
    · exact h.await_proxy hnew hkey hid rfl
  · exact h.refuse _

end

theorem Fits.message (hnew : uuid ∉ st.underway) (hkey : ∀ id, msg.uuid = some id → uuid = .client id)
    (session : Session) (command : MixerCommand) (hplain : command.is_plain = true) :
    Fits (st.send_message command.callback uuid session command).2 uuid ⟨socket, msg⟩ := by
  obtain ⟨hldap, hmixer⟩ := send_message_requests st command.callback uuid session command
  refine .of_sent hnew hkey hldap fun r hr => ?_
  obtain hold | ⟨hsent, -⟩ := hmixer r hr
  · exact Or.inl hold
  · exact Or.inr (by rw [hsent]; exact hplain)

theorem Fits.join (hnew : uuid ∉ st.underway) (hkey : ∀ id, msg.uuid = some id → uuid = .client id)
    {session : Session} {loop : String} (hsocket : socket ≠ 0) (howner : st.sessions session = socket)
    (hzero : st.slots 0 = none)
    (hheld : st.users session = 0 ∨ st.slots (st.users session) = some (some session))
    {switch : Switch} (hswitched : Switched st switch) (hfrom : switch.socket = socket)
    (hsession : switch.session = session) (hloop : switch.loop = loop)
    (hrequested : switch.requested = permission_from_string (msg.get "state")) :
    Fits (st.join_loop uuid session loop).2 uuid ⟨socket, msg⟩ := by
  obtain ⟨hldap, hmixer⟩ := send_message_requests st .join uuid session (.join session loop)
  have hclients := SameClients.send_message st .join uuid session (.join session loop)
  have hslots : (st.join_loop uuid session loop).2.slots = st.slots ∧
      (st.join_loop uuid session loop).2.users = st.users := by
    simp only [State.join_loop, State.send_message]
    split <;> exact ⟨rfl, rfl⟩
  refine ⟨hkey, fun r hr huuid => ?_, fun r hr huuid other l hcommand => ?_⟩
  · have hr' : r ∈ st.ldap_requests := hldap ▸ hr
    refine absurd ?_ hnew
    simp only [State.underway, List.mem_append, List.mem_map]
    exact Or.inr (Or.inr (Or.inl ⟨r, hr', huuid⟩))
  obtain hold | ⟨hsent, hsome⟩ := hmixer r hr
  · refine absurd ?_ hnew
    simp only [State.underway, List.mem_append, List.mem_map]
    exact Or.inl ⟨r, hold, huuid⟩
  subst hsent
  simp only [MixerCommand.join.injEq] at hcommand
  obtain ⟨rfl, rfl⟩ := hcommand
  have hslot : st.slots (st.users session) = some (some session) := by
    obtain husers | hslot := hheld
    · rw [husers, hzero] at hsome
      simp at hsome
    · exact hslot
  obtain ⟨hmem, hgranted, hconnection, hrole⟩ := hswitched
  refine ⟨hsocket, ?_, by rw [hslots.2], by rw [hslots.1, hslot], switch, ⟨?_, hgranted, ?_, ?_⟩, hfrom, hsession,
    hloop, hrequested⟩
  · rw [show (st.join_loop uuid session loop).2.sessions = st.sessions from hclients.sessions, howner]
  · rw [show (st.join_loop uuid session loop).2.switches = st.switches from hclients.switches]
    exact hmem
  · rw [show (st.join_loop uuid session loop).2.drops = st.drops from hclients.drops]
    exact hconnection
  rw [show (st.join_loop uuid session loop).2.connections = st.connections from hclients.connections]
  exact hrole

theorem not_mem_async (hfree : st.pending uuid = none) (data : Pending) : (uuid, data) ∉ st.async := by
  intro hmem
  have hother := List.lookup_eq_none_iff.mp hfree (uuid, data) hmem
  simp at hother

section

variable (h : Moves uuid grants st₀ st)

include h

theorem Moves.switch_loop_state (hnew : uuid ∉ st.underway)
    (hkey : ∀ id, msg.uuid = some id → uuid = .client id) {id : String} (hid : msg.uuid = some id)
    (hfree : st.pending uuid = none) {session : Session} {loop : String} (hsocket : socket ≠ 0)
    (howner : st.sessions session = socket) (hzero : st.slots 0 = none)
    (hheld : st.users session = 0 ∨ st.slots (st.users session) = some (some session))
    {switch : Switch} (hswitched : Switched st switch) (hgrants : grants switch) (hfrom : switch.socket = socket)
    (hsession : switch.session = session) (hloop : switch.loop = loop)
    (hrequested : switch.requested = permission_from_string (msg.get "state")) :
    ∀ r ∈ switch_loop_state outside socket session id loop switch.requested msg st, Moves uuid grants st₀ r.2 := by
  have hgranted : ∀ permission, permission_granted switch.requested permission = true →
      Granted grants st permission session loop :=
    fun permission hcovered => ⟨switch, hswitched.1, hgrants, hsession, hloop, hcovered⟩
  have huuid := hkey id hid
  subst huuid
  simp only [vocs.switch_loop_state]
  split
  · rintro r ⟨⟩
    exact (h.keep (.open_loop st loop)).respond _ _ _
  split
  · simp
  rename_i sent hperform
  obtain hfailed | ⟨-, hnot, hjoin⟩ | ⟨-, -, hleave⟩ | ⟨-, hsend, htalk⟩ | ⟨-, -, htalk⟩ :=
    perform_switch_loop_request_cases hperform
  · rw [hfailed]
    exact h.refuse _
  · rw [hjoin]
    have hjoined : Moves (.client id) grants st₀ (st.join_loop (.client id) session loop).2 :=
      h.tail (.join session loop (hgranted .recv (by simp [permission_granted, hnot])) hnew (not_mem_async hfree))
    exact hjoined.await_sent rfl
      (Fits.join hnew hkey hsocket howner hzero hheld hswitched hfrom hsession hloop hrequested)
  · rw [hleave]
    exact (h.leave_loop hnew session loop).await_sent rfl (Fits.message hnew hkey session (.leave session loop) rfl)
  · rw [htalk]
    obtain ⟨hldap, hmixer⟩ := send_proxy_requests st outside socket (.client id) (.talk session true loop)
    refine (h.send_talk hnew outside socket (hgranted .send ?_)).await_sent rfl (.of_sent hnew hkey hldap ?_)
    · simp [permission_granted, hsend]
    rw [hmixer]
    exact fun r hr => Or.inl hr
  rw [htalk]
  exact h.await_proxy hnew hkey hid rfl

theorem Moves.client_switch_loop_state (hnew : uuid ∉ st.underway)
    (hkey : ∀ id, msg.uuid = some id → uuid = .client id) (hfree : st.pending uuid = none) (hsocket : socket ≠ 0)
    (hzero : st.slots 0 = none)
    (hsession : ∀ session, (st.connections socket).session = some session → st.sessions session = socket ∧
      (st.users session = 0 ∨ st.slots (st.users session) = some (some session)))
    (hgrants : ∀ switch, Switched { st with switches := st.switches ++ [switch] } switch → switch.socket = socket →
      (st.connections socket).session = some switch.session → grants switch) :
    ∀ r ∈ client_switch_loop_state outside socket msg st, Moves uuid grants st₀ r.2 := by
  have hnoted : ∀ switch, Moves uuid grants st₀ { st with switches := st.switches ++ [switch] } :=
    fun switch => h.keep { Keeps.refl st with switches := List.subset_append_left _ _ }
  simp only [vocs.client_switch_loop_state]
  split
  · rename_i user role huser hrole
    split
    · exact h.refuse _
    rename_i session hrecord
    split
    · rename_i id loop state hid hloop hstate
      split
      · rintro r ⟨⟩
        exact h
      split
      · simp
      rename_i permission hpermission
      split
      · rename_i hgranted
        obtain ⟨howner, hheld⟩ := hsession session hrecord
        let switch : Switch :=
          ⟨socket, st.drops socket, session, role, loop, permission_from_string (some state), permission⟩
        have hswitched : Switched { st with switches := st.switches ++ [switch] } switch :=
          ⟨List.mem_append_right _ (List.mem_singleton_self _), hgranted, rfl, hrole⟩
        exact (hnoted switch).switch_loop_state hnew hkey hid hfree hsocket howner hzero hheld hswitched
          (hgrants switch hswitched rfl hrecord) rfl rfl rfl (by rw [hstate])
      · exact (hnoted _).refuse _
    · exact h.refuse _
  · exact h.refuse _

theorem Moves.client_switch_loop_volume (hnew : uuid ∉ st.underway)
    (hkey : ∀ id, msg.uuid = some id → uuid = .client id) :
    ∀ r ∈ client_switch_loop_volume socket msg st, Moves uuid grants st₀ r.2 := by
  simp only [vocs.client_switch_loop_volume]
  split
  · split
    · rename_i id loop hid _
      have huuid := hkey id hid
      subst huuid
      split
      · split
        · exact h.refuse _
        rename_i session _
        have hsent : Moves (.client id) grants st₀ (st.set_loop_volume (.client id) session loop).2 :=
          h.tail (.message session (.volume session loop) rfl hnew)
        have hfits : Fits (st.set_loop_volume (.client id) session loop).2 (.client id) ⟨socket, msg⟩ :=
          Fits.message hnew hkey session (.volume session loop) rfl
        split
        · rename_i heq
          rw [heq] at hsent
          exact hsent.refuse _
        rename_i heq
        rw [heq] at hsent hfits
        rintro r ⟨⟩
        exact (hsent.set hfits).keep (.send_switch_volume_user_broadcast _ socket loop)
      · exact h.refuse _
    · exact h.refuse _
  · exact h.refuse _

theorem Moves.client_authorize :
    ∀ r ∈ client_authorize outside socket msg st, Moves uuid grants st₀ r.2 := by
  simp only [vocs.client_authorize]
  split
  · rintro r ⟨⟩
    exact h
  · exact h.refuse _
  rename_i hrole
  split
  · exact h.refuse _
  split
  · simp
  · exact h.refuse _
  have hnone : ∀ role : String, (st.connections socket).role.isSome → some role = (st.connections socket).role := by
    simp [hrole]
  have hbroadcast := fun role => h.keep (.set_broadcast st role socket .role)
  rintro r ⟨⟩
  split
  · exact ((hbroadcast _).respond _ _ _).keep (.set_record _ rfl (hnone _))
  · exact (hbroadcast _).keep (.set_record _ rfl (hnone _))

theorem Moves.send_module (hnew : uuid ∉ st.underway) {id : String}
    (huuid : uuid = .client id) (call : ModuleCall) : Moves uuid grants st₀ (send_module id call st) :=
  h.tail (.module ⟨.client id, call⟩ huuid.symm hnew)

theorem Moves.client_call_function (hnew : uuid ∉ st.underway)
    (hkey : ∀ id, msg.uuid = some id → uuid = .client id) (call : ModuleCall) :
    ∀ r ∈ client_call_function outside call socket msg st, Moves uuid grants st₀ r.2 := by
  simp only [vocs.client_call_function]
  split
  · rename_i id _ _ hid
    have huuid := hkey id hid
    subst huuid
    have hset : Moves (.client id) grants st₀ (st.async_set (.client id) ⟨socket, msg⟩) := h.set (.of_new hnew hkey)
    split
    · rintro r ⟨⟩
      exact hset.send_module hnew rfl call
    rintro r ⟨⟩
    exact (hset.unset _).respond _ _ _
  rintro r ⟨⟩
  exact h.respond _ _ _

theorem Moves.admin_recording (hnew : uuid ∉ st.underway)
    (hkey : ∀ id, msg.uuid = some id → uuid = .client id) (call : ModuleCall) :
    ∀ r ∈ admin_recording outside call socket msg st, Moves uuid grants st₀ r.2 := by
  simp only [vocs.admin_recording]
  split
  · rintro r ⟨⟩
    exact h
  · rintro r ⟨⟩
    exact h.respond _ _ _
  rename_i id _ hid _
  have huuid := hkey id hid
  subst huuid
  have hset : Moves (.client id) grants st₀ (st.async_set (.client id) ⟨socket, msg⟩) := h.set (.of_new hnew hkey)
  rintro r ⟨⟩
  dsimp only
  split
  · exact hset.send_module hnew rfl call
  · exact hset

theorem Moves.admin_state_session (hnew : uuid ∉ st.underway)
    (hkey : ∀ id, msg.uuid = some id → uuid = .client id) :
    ∀ r ∈ admin_state_session outside socket msg st, Moves uuid grants st₀ r.2 := by
  simp only [vocs.admin_state_session]
  split
  · rintro r ⟨⟩
    exact h
  · rintro r ⟨⟩
    exact h.respond _ _ _
  rename_i id session hid _
  have hawait : ∀ r ∈ vocs.await_sent (st.send_proxy outside socket (.client id) (.session_state session)) socket id
      msg, Moves uuid grants st₀ r.2 := h.await_proxy hnew hkey hid rfl
  have huuid := hkey id hid
  subst huuid
  have hsent : Moves (.client id) grants st₀ (st.send_proxy outside socket (.client id) (.session_state session)).2 :=
    h.send_proxy hnew outside socket rfl
  split
  · rename_i heq
    rw [heq] at hawait
    exact hawait
  rename_i heq
  rw [heq] at hsent
  rintro r ⟨⟩
  exact hsent.respond _ _ _

/-- The requests of which the id is of no importance. -/
def Request.is_idless : Request → Bool
  | .logout => true
  | .update_login => true
  | .authorize => true
  | .unsupported => true
  | _ => false

theorem Moves.cb_client_process {config : Config} {request : Request}
    (hfresh : request.is_idless = true ∨ uuid ∉ st.underway ∧ st.pending uuid = none ∧
      ∀ id, msg.uuid = some id → uuid = .client id) (hsocket : socket ≠ 0) (hzero : st.slots 0 = none)
    (hsession : ∀ session, (st.connections socket).session = some session → st.sessions session = socket ∧
      (st.users session = 0 ∨ st.slots (st.users session) = some (some session)))
    (hgrants : ∀ switch, Switched { st with switches := st.switches ++ [switch] } switch → switch.socket = socket →
      (st.connections socket).session = some switch.session → grants switch) :
    ∀ r ∈ cb_client_process config outside request socket msg st, Moves uuid grants st₀ r.2 := by
  have hid : request.is_idless = false → uuid ∉ st.underway ∧ st.pending uuid = none ∧
      ∀ id, msg.uuid = some id → uuid = .client id := by
    intro hidless
    simpa [hidless] using hfresh
  cases request
  case logout => exact h.client_logout
  case authorize => exact h.client_authorize
  case unsupported =>
    rintro r ⟨⟩
    exact h
  case update_login =>
    simp only [vocs.cb_client_process, update_client_login]
    split
    · split
      · rintro r ⟨⟩
        exact h.respond _ _ _
      · exact h.refuse _
    · exact h.refuse _
  all_goals obtain ⟨hnew, hfree, hkey⟩ := hid rfl
  case login => exact h.client_login hnew hkey config
  case media => exact h.client_media hnew hkey
  case candidate =>
    simp only [vocs.cb_client_process, client_candidate]
    split
    · rintro r ⟨⟩
      exact h
    split
    · rename_i id _ _ hid _ _
      exact h.await_proxy hnew hkey hid rfl
    · exact h.refuse _
    · exact h.refuse _
  case end_of_candidates =>
    simp only [vocs.cb_client_process, client_end_of_candidates]
    split
    · rintro r ⟨⟩
      exact h
    split
    · exact h.refuse _
    · exact h.refuse _
    rename_i id _ hid _
    exact h.await_proxy hnew hkey hid rfl
  case switch_loop_state => exact h.client_switch_loop_state hnew hkey hfree hsocket hzero hsession hgrants
  case switch_loop_volume => exact h.client_switch_loop_volume hnew hkey
  case state_session => exact h.admin_state_session hnew hkey
  case list_calls => exact h.client_call_function hnew hkey _
  case list_call_permissions => exact h.client_call_function hnew hkey _
  case list_sip_status => exact h.client_call_function hnew hkey _
  case start_record => exact h.admin_recording hnew hkey _
  case stop_record => exact h.admin_recording hnew hkey _

end

end

end openvocs.vocs
