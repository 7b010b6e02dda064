import Openvocs.Ice.CandidateRoundTrip
import Openvocs.Lib.Calls

/-!
`ov_ice_candidate_parse` once more, with every search of its own. The null pointer is no place.
-/

open calls List

namespace openvocs.candidate

open cstring

/-- Goes on with what was found, and gives up without it. -/
def found {α : Type} : Option α → Call Unit α
  | none => .stop ()
  | some value => .done value

/-- A check of a word that a text begins with. -/
abbrev Check := List Byte → List Byte → Bool

/-- Names and values in pairs, none of them empty, and then a last word without one to go with it. -/
inductive Dangling : List Byte → Prop where
  | last {s : List Byte} (h : space ∉ s) : Dangling s
  | pair {key val s : List Byte} (hkey : space ∉ key ∧ key ≠ []) (hval : space ∉ val ∧ val ≠ []) (h : Dangling s) :
    Dangling (key ++ space :: (val ++ space :: s))

variable (s : List Byte)

/-- A call that reads nothing outside, and ends. -/
abbrev Inside {α : Type} (call : Call Unit α) : Prop := call.Reads False fun _ => True

section inside

variable {α β : Type}

theorem Inside.bind {call : Call Unit α} {rest : α → Call Unit β} (h : Inside call)
    (hrest : ∀ value, Inside (rest value)) : Inside (call >>= rest) :=
  Call.Reads.bind h id (fun _ _ => id) fun value _ _ => hrest value

end inside

section loop

variable {s key val behind rest : List Byte} (hkey : split_space s = some (key, behind))

include hkey

end loop

section reached

variable {s rest word place : List Byte}

end reached

end openvocs.candidate
