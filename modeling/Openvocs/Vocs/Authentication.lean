import Openvocs.Vocs.SoundRun

namespace openvocs.vocs

open State

/-- On the connection of the socket a login with the user was sent, and it was accepted at
    once or the LDAP server has granted a bind with its password. -/
def Proven (v : View) (socket : Socket) (user : String) : Prop :=
  ∃ login ∈ v.logins, login.socket = socket ∧ login.connection = v.drops socket ∧ login.user = user ∧
    (login.accepted = true ∨ (user, login.password) ∈ v.binds)

/-- Every user that is entered for a client is proven. -/
def Authentic (v : View) : Prop :=
  ∀ socket user, (v.connections socket).user = some user → Proven v socket user

/-- A user is entered when it is proven. -/
def proven_rules : Rules where
  user := Proven

section

variable {v v' : View}

theorem Proven.mono {socket : Socket} {user : String} (h : Proven v socket user) (hdrops : v'.drops socket = v.drops socket)
    (hlogins : v.logins ⊆ v'.logins) (hbinds : v.binds ⊆ v'.binds) : Proven v' socket user := by
  obtain ⟨login, hmem, hsocket, hconnection, huser, haccepted | hbind⟩ := h
  · exact ⟨login, hlogins hmem, hsocket, hconnection.trans hdrops.symm, huser, Or.inl haccepted⟩
  · exact ⟨login, hlogins hmem, hsocket, hconnection.trans hdrops.symm, huser, Or.inr (hbinds hbind)⟩

theorem Authentic.set_record (h : Authentic v) {socket : Socket} {data : Record}
    (hdata : data.user = (v.connections socket).user ∨ ∀ user, data.user = some user → Proven v socket user) :
    Authentic (v.set_record socket data) := by
  intro t user huser
  have hold : Proven v t user := by
    unfold View.set_record at huser
    split at huser
    · exact h t user huser
    by_cases ht : t = socket
    · subst ht
      simp only [Function.update_self] at huser
      obtain hsame | hproven := hdata
      · rw [hsame] at huser
        exact h t user huser
      · exact hproven user huser
    simp only [Function.update_of_ne ht] at huser
    exact h t user huser
  refine hold.mono (by simp) ?_ ?_
  · unfold View.set_record
    split <;> exact List.Subset.refl _
  unfold View.set_record
  split <;> exact List.Subset.refl _

theorem Authentic.drop (h : Authentic v) (socket : Socket) : Authentic (v.drop socket) := by
  intro t user huser
  rw [connections_drop] at huser
  split at huser
  · simp at huser
  rename_i ht
  refine (h t user huser).mono ?_ (List.Subset.refl _) (List.Subset.refl _)
  simp [View.drop, ht]

theorem Authentic.change (h : Authentic v) (hchange : Change proven_rules v v') : Authentic v' := by
  cases hchange with
  | record socket data huser hrole hsession hloops => exact h.set_record (Or.inl huser)
  | user socket client user huser =>
    refine h.set_record (Or.inr fun other hother => ?_)
    rw [Option.some.injEq] at hother
    exact hother ▸ huser
  | join socket loop hsocket =>
    have hplaced : Authentic (v.place socket loop true) := h
    exact hplaced.set_record (Or.inl rfl)
  | leave socket loop hsocket =>
    have hplaced : Authentic (v.place socket loop false) := h
    exact hplaced.set_record (Or.inl rfl)
  | talk socket loop permission hstate htalk => exact h.set_record (Or.inl rfl)
  | session session socket hsession =>
    have hopened : Authentic (v.set_record socket { v.connections socket with session := some session }) :=
      h.set_record (Or.inl rfl)
    exact hopened
  | drop socket => exact h.drop socket
  | note switches logins binds =>
    intro t user huser
    exact (h t user huser).mono rfl (List.subset_append_left _ _) (List.subset_append_left _ _)
  | know session hnew => exact h

end

theorem Settled.permitted {st : State} (h : Settled st) (e : Event) : Permitted proven_rules st e where
  talk := fun _ _ _ _ _ _ _ _ _ _ _ _ _ _ _ => trivial
  session := fun _ _ _ _ _ _ _ _ _ _ _ => trivial
  login socket msg outside user password he huser hpassword := by
    refine ⟨.at_once socket st user password, ?_, rfl, rfl, rfl, Or.inl rfl⟩
    exact List.mem_append_right _ (List.mem_singleton_self _)
  bind i outside r data user he hr hpending huser := by
    have hfits := h.fits r.uuid data (fun hfalse => hfalse) (mem_async hpending)
    obtain ⟨hname, -, login, hmem, hsocket, hconnection, hlogin, hpassword⟩ :=
      hfits.login r (List.mem_of_getElem? hr) rfl
    rw [hname, Option.some.injEq] at huser
    refine ⟨login, List.mem_append_left _ hmem, hsocket, hconnection, hlogin.trans huser, Or.inr ?_⟩
    rw [hpassword, ← huser]
    exact List.mem_append_right _ (List.mem_singleton_self _)

theorem step_authentic {config : Config} {st st' : State} {e : Event} (h : Settled st ∧ Authentic st.view)
    (hsingle : single_use st e) (hstep : step config e st = some st') : Settled st' ∧ Authentic st'.view := by
  refine ⟨(step_reaches h.1 hsingle hstep).settled, ?_⟩
  exact (step_evolves (h.1.permitted e) hstep).invariant Authentic (fun _ _ hv hchange => hv.change hchange) h.2

/-- In every run in which requests come with ids that are not in use and timeouts leave no
    login and no join behind, the user of a client was sent in a login on its connection,
    and the password or the session id of this login was accepted, or the LDAP server has
    granted the bind for this user and this password. -/
theorem run_authenticated (config : Config) (db : vocs_db.Db) (es : List Event) (st : State)
    (hsingle : machine.along (step config) single_use es (State.init db))
    (hrun : run config es (State.init db) = some st) (socket : Socket) (user : String)
    (huser : (st.connections socket).user = some user) :
    ∃ login ∈ st.logins, login.socket = socket ∧ login.connection = st.drops socket ∧ login.user = user ∧
      (login.accepted = true ∨ (user, login.password) ∈ st.binds) := by
  have hinit : Settled (State.init db) ∧ Authentic (State.init db).view := by
    refine ⟨settled_init db, fun t other hother => ?_⟩
    simp [State.view, State.init] at hother
  have hauthentic := machine.run_invariant (fun st => Settled st ∧ Authentic st.view) single_use
    (fun _ _ _ hs hallowed hstep => step_authentic hs hallowed hstep) es hinit hsingle hrun
  exact hauthentic.2 socket user huser

def ldap_config : Config := { small_config with ldap := true }

/-- Two clients log in, and the answers come in the other order. -/
def two_logins : List Event :=
  [simple_request 3 .login "1" [("user", "alice"), ("password", "pw")],
   simple_request 4 .login "2" [("user", "bob"), ("password", "secret")],
   .ldap_result 1 true {},
   .ldap_result 0 true {}]

theorem run_authenticated_two_logins :
    machine.along (step ldap_config) single_use two_logins (State.init small_db) ∧
      ∃ st, run ldap_config two_logins (State.init small_db) = some st ∧
        (st.connections 4).user = some "bob" ∧
        ∃ login ∈ st.logins, login.socket = 4 ∧ login.connection = st.drops 4 ∧ login.user = "bob" ∧
          (login.accepted = true ∨ ("bob", login.password) ∈ st.binds) := by
  have hsingle : machine.along (step ldap_config) single_use two_logins (State.init small_db) := by
    decide +kernel
  have hany : (run ldap_config two_logins (State.init small_db)).any
      (fun st => decide ((st.connections 4).user = some "bob")) = true := by
    decide +kernel
  obtain ⟨st, hst, huser⟩ := (Option.any_eq_true _ _).mp hany
  have huser := of_decide_eq_true huser
  exact ⟨hsingle, st, hst, huser, run_authenticated ldap_config small_db two_logins st hsingle hst 4 "bob" huser⟩

/-- A client logs in as itself, and with the same id as somebody else before the answer. -/
def login_twice : List Event :=
  [simple_request 3 .login "1" [("user", "mallory"), ("password", "mine")],
   simple_request 3 .login "1" [("user", "alice"), ("password", "guess")],
   .ldap_result 0 true {}]

/-- The client is alice, and nothing was granted for her. -/
theorem login_twice_impersonates : ∃ st, run ldap_config login_twice (State.init small_db) = some st ∧
      (st.connections 3).user = some "alice" ∧ st.binds = [("mallory", "mine")] ∧
      ∀ login ∈ st.logins, login.accepted = false := by
  have hany : (run ldap_config login_twice (State.init small_db)).any (fun st => decide
      ((st.connections 3).user = some "alice" ∧ st.binds = [("mallory", "mine")] ∧
        ∀ login ∈ st.logins, login.accepted = false)) = true := by
    decide +kernel
  obtain ⟨st, hst, hdecide⟩ := (Option.any_eq_true _ _).mp hany
  exact ⟨st, hst, of_decide_eq_true hdecide⟩

end openvocs.vocs
