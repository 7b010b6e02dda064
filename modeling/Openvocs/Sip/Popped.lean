import Openvocs.Sip.Octets

namespace openvocs.sip

open reader

section

variable (bucket : Text → Nat)

/-- The messages that are popped, and the parser if no call failed. -/
def pop_some : Nat → Serde → List Message × Option Serde
  | 0, _ => ([], none)
  | pops + 1, serde =>
    match impl_pop_datum bucket serde with
    | none => ([], none)
    | some (state, message, serde) =>
      if state = .error then ([], none)
      else
        match message with
        | none => ([], some serde)
        | some message => (message :: (pop_some pops serde).1, (pop_some pops serde).2)

/-- A chunk is added, and messages are popped until a call fails. -/
def feed_some (serde : Serde) (chunk : Text) : List Message × Option Serde :=
  match impl_add_raw bucket serde chunk with
  | none => ([], none)
  | some (state, serde) =>
    if state = .error then ([], none) else pop_some bucket ((serde.residuum.getD []).length + 2) serde

/-- All messages that are popped before a call fails. -/
def popped : List Text → Serde → List Message
  | [], _ => []
  | chunk :: chunks, serde =>
    match feed_some bucket serde chunk with
    | (messages, none) => messages
    | (messages, some serde) => messages ++ popped chunks serde

theorem pop_some_of_pop_all {pops : Nat} {serde serde' : Serde} {messages : List Message}
    (h : pop_all bucket pops serde = some (messages, serde')) :
    pop_some bucket pops serde = (messages, some serde') := by
  induction pops generalizing serde messages with
  | zero => simp [pop_all] at h
  | succ pops ih =>
    rw [pop_all, Option.bind_eq_some_iff] at h
    obtain ⟨⟨state, message, mid⟩, hpop, h⟩ := h
    simp only [pop_some, hpop]
    by_cases herror : state = .error
    · simp [herror] at h
    simp only [herror, if_false] at h ⊢
    cases message with
    | none =>
      simp only [Option.some.injEq, Prod.mk.injEq] at h
      rw [h.1, h.2]
    | some message =>
      simp only [Option.map_eq_some_iff, Prod.mk.injEq] at h
      obtain ⟨⟨more, last⟩, hmore, rfl, rfl⟩ := h
      simp only [ih hmore]

theorem feed_some_of_feed {serde serde' : Serde} {chunk : Text} {messages : List Message}
    (h : feed bucket serde chunk = some (messages, serde')) : feed_some bucket serde chunk = (messages, some serde') := by
  rw [feed, Option.bind_eq_some_iff] at h
  obtain ⟨⟨state, mid⟩, hadd, h⟩ := h
  simp only [feed_some, hadd]
  by_cases herror : state = .error
  · simp [herror] at h
  simp only [herror, if_false] at h ⊢
  exact pop_some_of_pop_all bucket h

theorem pop_some_residuum {pops : Nat} {serde : Serde} {rest : Text} (hfuel : rest.length < pops)
    (hidle : Holds { serde with residuum := none } idle) (hresiduum : serde.residuum = some rest)
    (hrun : reader.run (octet bucket) idle rest = none) :
    pop_some bucket pops serde = (outputs (octet bucket) idle rest, none) := by
  induction pops generalizing serde rest with
  | zero => omega
  | succ pops ih =>
    have hadded := impl_add_raw_added bucket hidle rest
    rw [run_eq_first] at hrun
    rw [pop_some, impl_pop_datum_residuum bucket hidle hresiduum, outputs_eq_first]
    cases hfirst : reader.first (octet bucket) idle rest with
    | none =>
      rw [hfirst] at hadded
      obtain hnone | ⟨serde', herror⟩ := hadded
      · rw [hnone]
        rfl
      rw [herror]
      rfl
    | some stop =>
      rw [hfirst] at hadded hrun
      cases stop with
      | waiting pending => simp at hrun
      | output message pending behind =>
        obtain ⟨rfl, serde', hresult, hready⟩ := hadded
        have hless := first_output_length _ hfirst
        simp only [Option.bind_some, Option.map_eq_none_iff] at hrun
        have hmore : pop_some bucket pops { serde' with message := none, phase := .start_line } =
            (outputs (octet bucket) idle behind, none) :=
          ih (by omega) ⟨⟨rfl, rfl, hready.line⟩, rfl⟩ hready.residuum hrun
        rw [hresult]
        simp [hready.message, hmore]

theorem feed_some_none {serde : Serde} {pending : Pending} (hholds : Holds serde pending) {chunk : Text}
    (hrun : reader.run (octet bucket) pending chunk = none) :
    feed_some bucket serde chunk = (outputs (octet bucket) pending chunk, none) := by
  have hadded := impl_add_raw_added bucket hholds chunk
  rw [run_eq_first] at hrun
  rw [feed_some, outputs_eq_first]
  cases hfirst : reader.first (octet bucket) pending chunk with
  | none =>
    rw [hfirst] at hadded
    obtain hnone | ⟨serde', herror⟩ := hadded
    · rw [hnone]
    rw [herror]
    rfl
  | some stop =>
    rw [hfirst] at hadded hrun
    cases stop with
    | waiting pending' => simp at hrun
    | output message pending' rest =>
      obtain ⟨rfl, serde', hresult, hready⟩ := hadded
      obtain ⟨serde'', hpopped, hidle, hresiduum⟩ := impl_pop_datum_ready bucket hready
      simp only [Option.bind_some, Option.map_eq_none_iff] at hrun
      have hfuel : rest.length < (serde'.residuum.getD []).length + 1 := by
        rw [hready.residuum, Option.getD_some]
        omega
      have hmore := pop_some_residuum bucket hfuel hidle hresiduum hrun
      rw [hresult]
      simp only [reduceCtorEq, if_false]
      rw [pop_some, hpopped]
      simp [hmore]

theorem popped_eq {serde : Serde} {pending : Pending} (hholds : Holds serde pending) (chunks : List Text) :
    popped bucket chunks serde = outputs (octet bucket) pending chunks.flatten := by
  induction chunks generalizing serde pending with
  | nil => rfl
  | cons chunk chunks ih =>
    have hfed := feed_fed bucket hholds chunk
    rw [List.flatten_cons, popped]
    cases hrun : reader.run (octet bucket) pending chunk with
    | none => rw [feed_some_none bucket hholds hrun, outputs_append_none _ hrun]
    | some read =>
      obtain ⟨messages, pending'⟩ := read
      rw [hrun] at hfed
      obtain ⟨serde', hresult, hholds'⟩ := hfed
      rw [feed_some_of_feed bucket hresult, outputs_append _ hrun]
      simp only [ih hholds']

end

end openvocs.sip
