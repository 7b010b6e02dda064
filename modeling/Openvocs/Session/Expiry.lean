import Openvocs.Json.RoundTrip
import Openvocs.Session.Store

namespace openvocs.event_session

open cstring (Str)

theorem check_config_check_config (config : Config) : check_config (check_config config) = check_config config := by
  by_cases h : config.max_lifetime_usec = 0
  · simp [check_config, h, default_lifetime]
  · simp [check_config, h]

theorem eq_of_string_dup {s copy : Str} (h : string_dup s = some copy) : copy = s := by
  unfold string_dup at h
  split at h
  · exact (Option.some.inj h).symm
  · cases h

namespace Store

variable {self : Store} {now : UInt64} {client user id : Str}

@[simp] theorem init_config : (self.init now client user id).config = self.config := by
  unfold init
  split <;> rfl

@[simp] theorem init_due : (self.init now client user id).due = self.due := by
  unfold init
  split <;> rfl

theorem get_init {key : Str} {s : Session} (h : (self.init now client user id).sessions.get key = some s) :
    (key = client ∧ s.last_update = now ∧ s.id = id ∧ ∀ name, s.user = some name → name = user) ∨
      self.sessions.get key = some s := by
  unfold init at h
  split at h
  · rename_i copy hcopy
    rw [Dict.get_set, eq_of_string_dup hcopy] at h
    by_cases hkey : key = client
    · rw [if_pos hkey] at h
      obtain rfl := Option.some.inj h
      exact Or.inl ⟨hkey, rfl, rfl, fun name hname => eq_of_string_dup hname⟩
    rw [if_neg hkey] at h
    exact Or.inr h
  · exact Or.inr h

theorem update_cases {updated : Bool} {next : Store} (h : self.update now client user id = some (updated, next)) :
    (updated = false ∧ next = self) ∨
      ∃ s, updated = true ∧ self.sessions.get client = some s ∧ s.id = id ∧ s.user = some user ∧
        next = { self with sessions := self.sessions.set client { s with last_update := now } } := by
  unfold update at h
  split at h
  · exact Or.inl (by simpa [eq_comm] using h)
  rename_i s hs
  split at h
  · rename_i hid
    split at h
    · cases h
    rename_i name hname
    split at h
    · rename_i huser
      rw [Option.some.injEq, Prod.mk.injEq] at h
      exact Or.inr ⟨s, h.1.symm, hs, (eq_of_id_match hid).symm, by rw [hname, huser], h.2.symm⟩
    · exact Or.inl (by simpa [eq_comm] using h)
  · exact Or.inl (by simpa [eq_comm] using h)

theorem verify_eq_true_iff : self.verify client user id = some true ↔
    ∃ s, self.sessions.get client = some s ∧ id_match id s.id = true ∧ s.user = some user := by
  unfold verify
  constructor
  · intro h
    split at h
    · cases h
    rename_i s hs
    split at h
    · rename_i hid
      split at h
      · cases h
      rename_i name hname
      have huser : name = user := by simpa using h
      exact ⟨s, hs, hid, by rw [hname, huser]⟩
    · cases h
  rintro ⟨s, hs, hid, huser⟩
  simp [hs, hid, huser]

theorem get_invalidate {key : Str} {s : Session}
    (h : (self.invalidate_expired_sessions now).sessions.get key = some s) :
    self.sessions.get key = some s ∧ expired self.config now s = false := by
  unfold invalidate_expired_sessions at h
  rw [Dict.get_foldl_del] at h
  split at h
  · cases h
  rename_i hkept
  refine ⟨h, ?_⟩
  by_contra hexpired
  rw [Bool.not_eq_false] at hexpired
  exact hkept (List.mem_map_of_mem (List.mem_filter.mpr ⟨Dict.mem_entries_iff.mpr h, hexpired⟩))

end Store

/-- A session was created or updated at some time, and after that its client was not deleted. -/
def Touched (log : List Event) (client user id : Str) (time : UInt64) : Prop :=
  ∃ after before, log = after ++ .touched client user id time :: before ∧ .deleted client ∉ after

theorem touched_cons (log : List Event) (client user id : Str) (time : UInt64) :
    Touched ([.touched client user id time] ++ log) client user id time :=
  ⟨[], log, rfl, by simp⟩

theorem Touched.append {log : List Event} {client user id : Str} {time : UInt64} (h : Touched log client user id time)
    {more : List Event} (hmore : .deleted client ∉ more) : Touched (more ++ log) client user id time := by
  obtain ⟨after, before, hlog, hafter⟩ := h
  refine ⟨more ++ after, before, by rw [hlog, List.append_assoc], ?_⟩
  rw [List.mem_append, not_or]
  exact ⟨hmore, hafter⟩

/-- A session that is kept: its time is not ahead of the clock, the timer is due before it is too
old by more than a round, and it was created or updated since that time. -/
structure Kept (limit now : UInt64) (due : Nat) (log : List Event) (client : Str) (s : Session) : Prop where
  past : s.last_update ≤ now
  young : due ≤ s.last_update.toNat + limit.toNat + default_lifetime_check
  touched : ∀ user, s.user = some user → ∃ time, s.last_update ≤ time ∧ Touched log client user s.id time

theorem Kept.later {limit now later : UInt64} {due : Nat} {log more : List Event} {client : Str} {s : Session}
    (h : Kept limit now due log client s) (hlater : now ≤ later) (hmore : .deleted client ∉ more) :
    Kept limit later due (more ++ log) client s where
  past := UInt64.le_trans h.past hlater
  young := h.young
  touched user huser := by
    obtain ⟨time, htime, htouched⟩ := h.touched user huser
    exact ⟨time, htime, htouched.append hmore⟩

theorem young_of_not_expired {config : Config} {now : UInt64} {s : Session} (hpast : s.last_update ≤ now)
    (h : Store.expired config now s = false) : now.toNat ≤ s.last_update.toNat + config.max_lifetime_usec.toNat := by
  rw [Store.expired, decide_eq_false_iff_not, UInt64.not_lt, UInt64.le_iff_toNat_le,
    UInt64.toNat_sub_of_le _ _ hpast] at h
  omega

/-- What holds between two steps of a run. -/
structure Inv (config : Config) (s : World × List Event) : Prop where
  same_config : s.1.self.config = check_config config
  in_time : s.1.now.toNat ≤ s.1.self.due
  one_round : s.1.self.due ≤ s.1.now.toNat + default_lifetime_check
  kept : ∀ client session, s.1.self.sessions.get client = some session →
    Kept (check_config config).max_lifetime_usec s.1.now s.1.self.due s.2 client session

section

variable {ν : Type} {double : Double ν} {config : Config}

/-- At a restart the file gives back only sessions that the store held, none with a newer time,
and none that is older than its lifetime. -/
def Current (double : Double ν) (w : World) (now : UInt64) : Prop :=
  ∀ client s, (load double w.file).get client = some s →
    Store.expired w.self.config now s = false ∧
      ∃ held, w.self.sessions.get client = some held ∧ held.user = s.user ∧ held.id = s.id ∧
        s.last_update ≤ held.last_update

/-- The entries of the file can be walked. -/
instance decidableCurrent (double : Double ν) (w : World) (now : UInt64) : Decidable (Current double w now) :=
  decidable_of_iff
    (∀ entry ∈ (load double w.file).entries, Store.expired w.self.config now entry.2 = false ∧
      ∃ held ∈ w.self.sessions.get entry.1, held.user = entry.2.user ∧ held.id = entry.2.id ∧
        entry.2.last_update ≤ held.last_update) (by
    constructor
    · exact fun h client s hget => h (client, s) (Dict.mem_entries_iff.mpr hget)
    · exact fun h entry hmem => h entry.1 entry.2 (Dict.mem_entries_iff.mp hmem))

/-- The condition on a step of a run. -/
def RestartsCurrent (double : Double ν) (s : World × List Event) : Step → Prop
  | .restart now => Current double s.1 now
  | _ => True

instance decidableRestartsCurrent (double : Double ν) (s : World × List Event) (e : Step) :
    Decidable (RestartsCurrent double s e) :=
  match e with
  | .restart now => decidableCurrent double s.1 now
  | .tick _ | .init _ _ _ _ | .update _ _ _ _ | .delete _ _ | .invalidate | .save _ => isTrue trivial

theorem inv_first (now : UInt64) : Inv config (World.first double config now, []) where
  same_config := rfl
  in_time := Nat.le_add_right _ _
  one_round := Nat.le_refl _
  kept _ _ hget := by cases hget

variable {w : World} {log : List Event}

section

variable (h : Inv config (w, log))

include h

theorem Inv.tick {now : UInt64} (hnow : w.now ≤ now) (hdue : now.toNat ≤ w.self.due) :
    Inv config ({ w with now }, log) where
  same_config := h.same_config
  in_time := hdue
  one_round := Nat.le_trans h.one_round (Nat.add_le_add_right (UInt64.le_iff_toNat_le.mp hnow) _)
  kept client s hget := @Kept.later _ _ _ _ _ [] _ _ (h.kept client s hget) hnow (by simp)

theorem Inv.operate {next : Store} {file : Option (List Byte)} {more : List Event}
    (hconfig : next.config = w.self.config) (hdue : next.due = w.self.due)
    (hsessions : ∀ client s, next.sessions.get client = some s →
      Kept (check_config config).max_lifetime_usec w.now w.self.due (more ++ log) client s) :
    Inv config ({ w with self := next, file }, more ++ log) where
  same_config := hconfig.trans h.same_config
  in_time := by rw [hdue]; exact h.in_time
  one_round := by rw [hdue]; exact h.one_round
  kept client s hget := by rw [hdue]; exact hsessions client s hget

theorem Inv.fresh {client user id : Str} {s : Session} (htime : s.last_update = w.now)
    (hid : s.id = id) (huser : ∀ name, s.user = some name → name = user) :
    Kept (check_config config).max_lifetime_usec w.now w.self.due ([.touched client user id w.now] ++ log) client s where
  past := htime ▸ UInt64.le_refl _
  young := by
    have hround : w.self.due ≤ w.now.toNat + default_lifetime_check := h.one_round
    rw [htime]
    omega
  touched name hname := by
    obtain rfl := huser name hname
    rw [htime, hid]
    exact ⟨w.now, UInt64.le_refl _, touched_cons log client name id w.now⟩

theorem Inv.init (client user id : Str) (file : Option (List Byte)) :
    Inv config ({ w with self := w.self.init w.now client user id, file }, [.touched client user id w.now] ++ log) := by
  refine h.operate Store.init_config Store.init_due fun key s hget => ?_
  rcases Store.get_init hget with ⟨rfl, htime, hid, huser⟩ | hold
  · exact h.fresh htime hid huser
  · exact (h.kept key s hold).later (UInt64.le_refl _) (by simp)

theorem Inv.renew {user id : Str} {s : Session} (hid : s.id = id)
    (huser : s.user = some user) (client : Str) (file : Option (List Byte)) :
    Inv config
      ({ w with
          self := { w.self with sessions := w.self.sessions.set client { s with last_update := w.now } }
          file },
        [.touched client user id w.now] ++ log) := by
  refine h.operate rfl rfl fun key found hfound => ?_
  rw [Dict.get_set] at hfound
  by_cases hkey : key = client
  · rw [if_pos hkey] at hfound
    obtain rfl := Option.some.inj hfound
    rw [hkey]
    refine h.fresh rfl hid fun name hname => ?_
    exact Option.some.inj (hname.symm.trans huser)
  rw [if_neg hkey] at hfound
  exact (h.kept key found hfound).later (UInt64.le_refl _) (by simp)

theorem Inv.delete (client : Str) (file : Option (List Byte)) :
    Inv config ({ w with self := w.self.delete client, file }, [.deleted client] ++ log) := by
  refine h.operate rfl rfl fun key s hget => ?_
  rw [Store.delete, Dict.get_del] at hget
  by_cases hkey : key = client
  · rw [if_pos hkey] at hget
    cases hget
  rw [if_neg hkey] at hget
  exact (h.kept key s hget).later (UInt64.le_refl _) (by simpa using hkey)

theorem Inv.invalidate :
    Inv config ({ w with self := w.self.invalidate_expired_sessions w.now }, log) where
  same_config := h.same_config
  in_time := Nat.le_add_right _ _
  one_round := Nat.le_refl _
  kept client s hget := by
    obtain ⟨hold, hyoung⟩ := Store.get_invalidate hget
    have hkept := h.kept client s hold
    have hage := young_of_not_expired hkept.past hyoung
    have hlimit := congrArg Config.max_lifetime_usec h.same_config
    exact ⟨hkept.past, Nat.add_le_add_right (hlimit ▸ hage) _, hkept.touched⟩

theorem Inv.restart {now : UInt64} (hnow : w.now ≤ now) (hcurrent : Current double w now) :
    Inv config ({ w with now, self := create double w.self.config now w.file }, log) where
  same_config := by
    show check_config w.self.config = _
    rw [h.same_config, check_config_check_config]
  in_time := Nat.le_add_right _ _
  one_round := Nat.le_refl _
  kept client s hget := by
    obtain ⟨hyoung, held, hheld, huser, hid, htime⟩ := hcurrent client s hget
    have hkept := h.kept client held hheld
    have hpast : s.last_update ≤ now := UInt64.le_trans htime (UInt64.le_trans hkept.past hnow)
    have hage := young_of_not_expired hpast hyoung
    have hlimit := congrArg Config.max_lifetime_usec h.same_config
    refine ⟨hpast, Nat.add_le_add_right (hlimit ▸ hage) _, fun user hname => ?_⟩
    obtain ⟨time, hlater, htouched⟩ := hkept.touched user (huser.trans hname)
    exact ⟨time, UInt64.le_trans htime hlater, hid ▸ htouched⟩

end

theorem inv_step {s s' : World × List Event} {e : Step} (h : Inv config s) (hcurrent : RestartsCurrent double s e)
    (hstep : machine.logged (step double) events e s = some s') : Inv config s' := by
  obtain ⟨w, log⟩ := s
  obtain ⟨w', log'⟩ := s'
  obtain ⟨hstep, rfl⟩ := machine.logged_eq_some_iff.mp hstep
  cases e with
  | tick now =>
    rw [step, Option.ite_none_right_eq_some] at hstep
    obtain ⟨⟨hnow, hdue⟩, hw⟩ := hstep
    obtain rfl := Option.some.inj hw
    exact h.tick hnow hdue
  | init client user id opened =>
    obtain rfl := Option.some.inj hstep
    exact h.init client user id _
  | update client user id opened =>
    obtain ⟨⟨updated, next⟩, hupdate, rfl⟩ := Option.map_eq_some_iff.mp hstep
    rcases Store.update_cases hupdate with ⟨rfl, rfl⟩ | ⟨session, rfl, _, hid, huser, rfl⟩
    · simpa [events, hupdate] using h
    · simpa [events, hupdate] using h.renew hid huser client _
  | delete client opened =>
    obtain rfl := Option.some.inj hstep
    exact h.delete client _
  | invalidate =>
    obtain rfl := Option.some.inj hstep
    exact h.invalidate
  | save opened =>
    obtain rfl := Option.some.inj hstep
    exact h.operate rfl rfl h.kept
  | restart now =>
    rw [step, Option.ite_none_right_eq_some] at hstep
    obtain ⟨hnow, hw⟩ := hstep
    obtain rfl := Option.some.inj hw
    exact h.restart hnow hcurrent

end

/-- Where every restart reads back only what the store held and nothing that is too old, every
session that is verified was created or updated within its lifetime and one round of the timer,
and was not deleted since. -/
theorem verified_within_lifetime {ν : Type} (double : Double ν) (config : Config) (start : UInt64) (steps : List Step)
    (w : World) (log : List Event) (hrun : run double config start steps = some (w, log))
    (hrestarts : machine.along (machine.logged (step double) events) (RestartsCurrent double) steps
      (World.first double config start, []))
    (client user id : Str) (hverify : w.self.verify client user id = some true) :
    ∃ time, Touched log client user id time ∧
      w.now.toNat ≤ time.toNat + (check_config config).max_lifetime_usec.toNat + default_lifetime_check := by
  have hinv : Inv config (w, log) :=
    machine.run_invariant (Inv config) (RestartsCurrent double) (fun _ _ _ hs hallowed => inv_step hs hallowed) steps
      (inv_first start) hrestarts hrun
  obtain ⟨s, hget, hid, huser⟩ := Store.verify_eq_true_iff.mp hverify
  have hkept := hinv.kept client s hget
  obtain ⟨time, htime, htouched⟩ := hkept.touched user huser
  rw [← eq_of_id_match hid] at htouched
  refine ⟨time, htouched, ?_⟩
  have hnow : w.now.toNat ≤ w.self.due := hinv.in_time
  have hyoung := hkept.young
  have hage := UInt64.le_iff_toNat_le.mp htime
  dsimp only at hyoung
  omega

/-- Integers in place of the numbers, and times as they are. -/
def integers : Double Int where
  toDouble := json.integers
  of_usec time := time.toNat
  to_usec n := UInt64.ofNat n.toNat

def one_minute : Config := { max_lifetime_usec := 60000000 }

def browser : Str := ⟨[99], by decide⟩

def operator : Str := ⟨[117], by decide⟩

/-- The uuid `b06c8f94-1c11-4142-98b4-bd1328290742`. -/
def uuid : Str :=
  ⟨[98, 48, 54, 99, 56, 102, 57, 52, 45, 49, 99, 49, 49, 45, 52, 49, 52, 50, 45, 57, 56, 98, 52, 45, 98, 100, 49, 51,
    50, 56, 50, 57, 48, 55, 52, 50], by decide⟩

/-- A restart half a minute after the login. -/
theorem restart_within_lifetime : ∃ w log,
    run integers one_minute 0 [.init browser operator uuid true, .tick 30000000, .restart 30000000] = some (w, log) ∧
      w.self.verify browser operator uuid = some true ∧
      ∃ time, Touched log browser operator uuid time ∧ w.now.toNat ≤ time.toNat + 60000000 + 60000000 := by
  have hrun : (run integers one_minute 0 [.init browser operator uuid true, .tick 30000000, .restart 30000000]).map
      (fun s => s.1.self.verify browser operator uuid) = some (some true) := by decide +kernel
  obtain ⟨⟨w, log⟩, hrun, hverify⟩ := Option.map_eq_some_iff.mp hrun
  exact ⟨w, log, hrun, hverify, verified_within_lifetime integers one_minute 0 _ w log hrun (by decide +kernel)
    browser operator uuid hverify⟩

/-- The timer drops a session two minutes after the login, and a restart brings it back: one
minute later it is still verified. -/
theorem expired_session_returns : ∃ w log, run integers one_minute 0
        [.init browser operator uuid true, .tick 60000000, .invalidate, .tick 120000000, .invalidate,
          .restart 120000001, .tick 180000001] = some (w, log) ∧
      w.self.verify browser operator uuid = some true ∧
      ¬ ∃ time, Touched log browser operator uuid time ∧
        w.now.toNat ≤ time.toNat + (check_config one_minute).max_lifetime_usec.toNat + default_lifetime_check := by
  have hrun : (run integers one_minute 0
      [.init browser operator uuid true, .tick 60000000, .invalidate, .tick 120000000, .invalidate,
        .restart 120000001, .tick 180000001]).map
      (fun s => (s.1.now, s.2, s.1.self.verify browser operator uuid)) =
      some (180000001, [.touched browser operator uuid 0], some true) := by decide +kernel
  obtain ⟨⟨w, log⟩, hrun, hfacts⟩ := Option.map_eq_some_iff.mp hrun
  simp only [Prod.mk.injEq] at hfacts
  obtain ⟨hnow, rfl, hverify⟩ := hfacts
  refine ⟨w, _, hrun, hverify, ?_⟩
  rintro ⟨time, ⟨after, before, hlog, _⟩, hage⟩
  have hmem : Event.touched browser operator uuid time ∈ [Event.touched browser operator uuid 0] := by
    rw [hlog]
    simp
  have htime : time = 0 := by simpa using hmem
  rw [htime, hnow] at hage
  revert hage
  decide

end openvocs.event_session
