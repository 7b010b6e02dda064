import Openvocs.Vm.ProgDb

namespace openvocs.vm.ProgDb

variable {δ : Type}

/-- A name finds the program in a slot, the calls do with it what they do with the id, and no
    program can be inserted under it. -/
structure BehavesAs (bucket : String → Nat) (db : ProgDb δ) (name id : String) (slot : Nat) : Prop where
  get : db.ov_vm_prog_db_get name = some slot
  remove : db.ov_vm_prog_db_remove name = db.ov_vm_prog_db_remove id
  update_time : ∀ now, db.ov_vm_prog_db_update_time now name = db.ov_vm_prog_db_update_time now id
  insert : ∀ now instructions data, db.ov_vm_prog_db_insert bucket now name instructions data = (none, db)

/-- A call does not remove the program with this id. -/
def Spares (target : String) (db : ProgDb δ) : Call δ → Prop
  | .remove id => get_unaliased_id db.aliases id ≠ target
  | _ => True

instance (target : String) (db : ProgDb δ) : ∀ call, Decidable (Spares target db call)
  | .remove _ => inferInstanceAs (Decidable (_ ≠ _))
  | .insert _ _ _ _ => isTrue trivial
  | .add_alias _ _ => isTrue trivial
  | .get _ => isTrue trivial
  | .update_time _ _ => isTrue trivial

/-- Two names lead to the program in a slot, which is stored under its own id. -/
structure Linked (db : ProgDb δ) (target : String) (slot : Nat) (name id : String) : Prop where
  stored : db.store.get target = some slot
  name_valid : is_id_valid name
  id_valid : is_id_valid id
  name_leads : get_unaliased_id db.aliases name = target
  id_leads : get_unaliased_id db.aliases id = target

variable {bucket : String → Nat} {db db' : ProgDb δ} {id name target : String} {slot : Nat}

theorem valid_of_get (hget : db.ov_vm_prog_db_get name = some slot) : is_id_valid name := by
  by_contra hnot
  rw [ov_vm_prog_db_get, if_neg hnot] at hget
  cases hget

theorem get_eq_of_leads (hvalid : is_id_valid name) (hleads : get_unaliased_id db.aliases name = target)
    (hstored : db.store.get target = some slot) : db.ov_vm_prog_db_get name = some slot := by
  rw [ov_vm_prog_db_get, if_pos hvalid, prog_for_id, hleads, hstored]

theorem Linked.behaves (h : Linked db target slot name id) : BehavesAs bucket db name id slot := by
  have hname := get_eq_of_leads h.name_valid h.name_leads h.stored
  have hid := get_eq_of_leads h.id_valid h.id_leads h.stored
  refine ⟨hname, ?_, fun now => ?_, fun now instructions data => ?_⟩
  · rw [ov_vm_prog_db_remove, ov_vm_prog_db_remove, h.name_leads, h.id_leads]
  · rw [ov_vm_prog_db_update_time, ov_vm_prog_db_update_time, hname, hid]
  cases instructions with
  | none => rfl
  | some list => simp [ov_vm_prog_db_insert, hname]

theorem few_of_call {event : Call δ} (hcall : call bucket event db = some db') : FewAliases db event := by
  cases event with
  | remove id =>
    by_contra hmany
    rw [call, ov_vm_prog_db_remove, remove_internal_of_many hmany] at hcall
    cases hcall
  | insert | add_alias | get | update_time => trivial

theorem Consistent.call (h : Consistent db) {event : Call δ} (hcall : call bucket event db = some db') :
    Consistent db' := by
  obtain ⟨other, hother, hconsistent, _⟩ := call_consistent bucket h event (few_of_call hcall)
  rw [hcall, Option.some.injEq] at hother
  rwa [hother]

theorem alias_new (bucket : String → Nat) (db : ProgDb δ) (id name : String) :
    (db.ov_vm_prog_db_alias bucket id name).2 = db ∨
      db.ov_vm_prog_db_get name = none ∧ (db.ov_vm_prog_db_alias bucket id name).2 =
        { db with aliases := db.aliases.set name (get_unaliased_id db.aliases id) bucket } := by
  cases hid : db.ov_vm_prog_db_get (get_unaliased_id db.aliases id) with
  | none => exact .inl (by simp [ov_vm_prog_db_alias, hid])
  | some slot =>
    cases hname : db.ov_vm_prog_db_get name with
    | some other => exact .inl (by simp [ov_vm_prog_db_alias, hid, hname])
    | none => exact .inr ⟨rfl, by simp [ov_vm_prog_db_alias, hid, hname]⟩

theorem unaliased_set_of_ne {other : String} (hne : name ≠ other) :
    get_unaliased_id (db.aliases.set other target bucket) name = get_unaliased_id db.aliases name := by
  rw [get_unaliased_id, Dict.get_set, if_neg hne, get_unaliased_id]

theorem Linked.add_alias (h : Linked db target slot name id) (first other : String) :
    Linked (db.ov_vm_prog_db_alias bucket first other).2 target slot name id := by
  obtain hsame | ⟨hnone, heq⟩ := alias_new bucket db first other
  · rwa [hsame]
  have hne : ∀ x, is_id_valid x → get_unaliased_id db.aliases x = target → x ≠ other := by
    intro x hvalid hleads hx
    rw [← hx, get_eq_of_leads hvalid hleads h.stored] at hnone
    cases hnone
  rw [heq]
  refine ⟨h.stored, h.name_valid, h.id_valid, ?_, ?_⟩
  · rw [unaliased_set_of_ne (hne name h.name_valid h.name_leads), h.name_leads]
  · rw [unaliased_set_of_ne (hne id h.id_valid h.id_leads), h.id_leads]

theorem Linked.insert (h : Linked db target slot name id) (hconsistent : Consistent db) (now : Nat)
    (other : String) (instructions : Option (List Opcode)) (data : Option δ) :
    Linked (db.ov_vm_prog_db_insert bucket now other instructions data).2 target slot name id := by
  obtain ⟨hsame, _⟩ | ⟨list, free, rest, _, _, _, _, hnew, heq⟩ :=
    hconsistent.insert_cases bucket now other instructions data
  · rwa [hsame]
  have hne : target ≠ other := by
    intro htarget
    rw [← htarget, h.stored] at hnew
    cases hnew
  rw [heq]
  refine ⟨?_, h.name_valid, h.id_valid, h.name_leads, h.id_leads⟩
  simp only [inserted, Dict.get_set, if_neg hne, h.stored]

theorem unaliased_removed {other : String} (hleads : get_unaliased_id db.aliases name = target)
    (hne : target ≠ other) : get_unaliased_id (db.removed other).aliases name = target := by
  cases halias : db.aliases.get name with
  | some found =>
    rw [get_unaliased_id, halias, Option.getD_some] at hleads
    rw [get_unaliased_id, (get_removed_aliases db other name found).mpr ⟨halias, hleads ▸ hne⟩]
    exact hleads
  | none =>
    rw [get_unaliased_id, halias, Option.getD_none] at hleads
    cases hremoved : (db.removed other).aliases.get name with
    | some found =>
      have hold := (get_removed_aliases db other name found).mp hremoved
      rw [halias] at hold
      cases hold.1
    | none => rw [get_unaliased_id, hremoved, Option.getD_none, hleads]

theorem Linked.removed (h : Linked db target slot name id) {other : String} (hne : target ≠ other) :
    Linked (db.removed other) target slot name id where
  stored := by rw [(removed_spec db other).store, if_neg hne, h.stored]
  name_valid := h.name_valid
  id_valid := h.id_valid
  name_leads := unaliased_removed h.name_leads hne
  id_leads := unaliased_removed h.id_leads hne

theorem Linked.call (h : Linked db target slot name id) (hconsistent : Consistent db) {event : Call δ}
    (hspares : Spares target db event) (hcall : call bucket event db = some db') :
    Linked db' target slot name id := by
  cases event with
  | insert now other instructions data =>
    cases hcall
    exact h.insert hconsistent now other instructions data
  | add_alias first other =>
    cases hcall
    exact h.add_alias first other
  | get other =>
    cases hcall
    exact h
  | remove other =>
    have hfew := few_of_call hcall
    rw [ProgDb.call, ov_vm_prog_db_remove, hconsistent.remove_internal_eq hfew] at hcall
    cases hcall
    exact h.removed (Ne.symm hspares)
  | update_time now other =>
    cases hcall
    cases hget : db.ov_vm_prog_db_get other with
    | none => simpa [ov_vm_prog_db_update_time, hget] using h
    | some found =>
      simp only [ov_vm_prog_db_update_time, hget]
      exact ⟨h.stored, h.name_valid, h.id_valid, h.name_leads, h.id_leads⟩

theorem Consistent.alias_linked (h : Consistent db) (hid : is_id_valid id) (hname : is_id_valid name)
    (htrue : (db.ov_vm_prog_db_alias bucket id name).1 = true) :
    ∃ slot, db.store.get (get_unaliased_id db.aliases id) = some slot ∧
      Linked (db.ov_vm_prog_db_alias bucket id name).2 (get_unaliased_id db.aliases id) slot name id := by
  cases hfound : db.ov_vm_prog_db_get (get_unaliased_id db.aliases id) with
  | none => simp [vm.ProgDb.ov_vm_prog_db_alias, hfound] at htrue
  | some slot =>
    -- an alias of an alias leads to a program, too
    have hunaliased : get_unaliased_id db.aliases (get_unaliased_id db.aliases id) = get_unaliased_id db.aliases id := by
      cases halias : db.aliases.get id with
      | some found =>
        have hleads : get_unaliased_id db.aliases id = found := by rw [get_unaliased_id, halias, Option.getD_some]
        rw [hleads]
        exact h.unaliased_of_stored (h.alias_target id found halias)
      | none =>
        have hleads : get_unaliased_id db.aliases id = id := by rw [get_unaliased_id, halias, Option.getD_none]
        rw [hleads, hleads]
    have hstored := stored_of_get hfound
    rw [hunaliased] at hstored
    refine ⟨slot, hstored, ?_⟩
    cases hother : db.ov_vm_prog_db_get name with
    | some other =>
      have hsame : slot = other := by simpa [vm.ProgDb.ov_vm_prog_db_alias, hfound, hother] using htrue
      have hleads := h.id_unique (stored_of_get hother) (hsame ▸ hstored)
      have heq : (db.ov_vm_prog_db_alias bucket id name).2 = db := by simp [vm.ProgDb.ov_vm_prog_db_alias, hfound, hother]
      rw [heq]
      exact ⟨hstored, hname, hid, hleads, rfl⟩
    | none =>
      have heq : (db.ov_vm_prog_db_alias bucket id name).2 =
          { db with aliases := db.aliases.set name (get_unaliased_id db.aliases id) bucket } := by
        simp [vm.ProgDb.ov_vm_prog_db_alias, hfound, hother]
      have hne : id ≠ name := by
        intro hsame
        rw [← hsame, get_eq_of_leads hid rfl hstored] at hother
        cases hother
      rw [heq]
      refine ⟨hstored, hname, hid, ?_, unaliased_set_of_ne hne⟩
      simp [get_unaliased_id, Dict.get_set]

theorem Consistent.alias_spared (h : Consistent db) (hlinked : Linked db target slot name id)
    (calls : List (Call δ)) (hspared : machine.along (ProgDb.call bucket) (Spares target) calls db)
    (hrun : machine.run (ProgDb.call bucket) calls db = some db') : Linked db' target slot name id :=
  (machine.run_invariant (fun db => Consistent db ∧ Linked db target slot name id) (Spares target)
    (fun _ _ _ hboth hspares hcall => ⟨hboth.1.call hcall, hboth.2.call hboth.1 hspares hcall⟩)
    calls ⟨h, hlinked⟩ hspared hrun).2

theorem run_consistent (slots : Nat) (calls : List (Call δ))
    (hrun : machine.run (call bucket) calls (ov_vm_prog_db_create slots) = some db) : Consistent db :=
  machine.run_invariant Consistent (fun _ _ => True) (fun _ _ _ h _ hcall => h.call hcall) calls
    (.ov_vm_prog_db_create slots) (machine.along_of_forall calls (fun _ _ _ => trivial) _) hrun

/-- In every state that the store comes to, a name that was accepted as an alias behaves like
    the id until the program is removed exactly when both have a length that an id may have. -/
theorem alias_behaves_iff (bucket : String → Nat) (slots : Nat) (before : List (Call δ)) {db : ProgDb δ}
    (hrun : machine.run (call bucket) before (ov_vm_prog_db_create slots) = some db) {id name : String}
    (htrue : (db.ov_vm_prog_db_alias bucket id name).1 = true) :
    (∃ slot, db.store.get (get_unaliased_id db.aliases id) = some slot ∧
      ∀ calls db', machine.along (call bucket) (Spares (get_unaliased_id db.aliases id)) calls
          (db.ov_vm_prog_db_alias bucket id name).2 →
        machine.run (call bucket) calls (db.ov_vm_prog_db_alias bucket id name).2 = some db' →
        BehavesAs bucket db' name id slot) ↔
      is_id_valid id ∧ is_id_valid name := by
  have hconsistent := run_consistent slots before hrun
  constructor
  · rintro ⟨slot, _, hbehaves⟩
    have h := hbehaves [] _ trivial rfl
    have hname := valid_of_get h.get
    refine ⟨?_, hname⟩
    by_contra hid
    have hnone : (db.ov_vm_prog_db_alias bucket id name).2.ov_vm_prog_db_get id = none := by
      rw [ov_vm_prog_db_get, if_neg hid]
    have hupdate := congrArg Prod.fst (h.update_time 0)
    simp [ov_vm_prog_db_update_time, h.get, hnone] at hupdate
  · rintro ⟨hid, hname⟩
    obtain ⟨slot, hstored, hlinked⟩ := hconsistent.alias_linked hid hname htrue
    refine ⟨slot, hstored, fun calls db' hspared hrun' => ?_⟩
    have hafter : Consistent (db.ov_vm_prog_db_alias bucket id name).2 := hconsistent.ov_vm_prog_db_alias id name
    exact (hafter.alias_spared hlinked calls hspared hrun').behaves

/-- An alias of an alias, after another program was inserted and removed. -/
theorem alias_behaves_peer : ∃ db : ProgDb Unit,
      machine.run (call fun _ => 0) [.insert 7 "call" (some [op_end]) none, .add_alias "call" "peer"]
        (ov_vm_prog_db_create 2) = some db ∧
      ∃ slot, ∀ db',
        machine.run (call fun _ => 0) [.insert 8 "other" (some [op_end]) none, .remove "other"]
          (db.ov_vm_prog_db_alias (fun _ => 0) "peer" "third").2 = some db' →
        BehavesAs (fun _ => 0) db' "third" "peer" slot := by
  refine ⟨_, rfl, ?_⟩
  obtain ⟨slot, _, hbehaves⟩ := (alias_behaves_iff (fun _ => 0) 2
    ([.insert 7 "call" (some [op_end]) none, .add_alias "call" "peer"] : List (Call Unit)) rfl
    (by decide : (ov_vm_prog_db_alias (fun _ => 0) _ "peer" "third").1 = true)).mpr ⟨by decide, by decide⟩
  exact ⟨slot, fun db' hrun => hbehaves _ db' (by decide) hrun⟩

/-- The empty string is accepted as an alias, and nothing is found under it. -/
theorem empty_alias_finds_nothing : ∃ db : ProgDb Unit,
      machine.run (call fun _ => 0) [.insert 7 "call" (some [op_end]) none] (ov_vm_prog_db_create 2) = some db ∧
      (db.ov_vm_prog_db_alias (fun _ => 0) "call" "").1 = true ∧
      (db.ov_vm_prog_db_alias (fun _ => 0) "call" "").2.ov_vm_prog_db_get "call" = some 1 ∧
      (db.ov_vm_prog_db_alias (fun _ => 0) "call" "").2.ov_vm_prog_db_get "" = none :=
  ⟨_, rfl, by decide, by decide, by decide⟩

end openvocs.vm.ProgDb
