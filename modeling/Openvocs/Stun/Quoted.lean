import Openvocs.Base.Utf8Codec
import Openvocs.Stun.Attribute

open List

namespace openvocs.stun

open cstring (is_space)

def backslash : Byte := 0x5C

/-- A run that the code goes on behind. -/
def run_passes (run : List Byte) : Bool := run.isEmpty || grammar_is_qdtext run

/-- An octet behind a backslash: `%x00-09`, `%x0B-0C` or `%x0E-7F`. -/
def IsQuoted (c : Byte) : Prop :=
  c.toNat ≤ 0x09 ∨ (0x0B ≤ c.toNat ∧ c.toNat ≤ 0x0C) ∨ (0x0E ≤ c.toNat ∧ c.toNat ≤ 0x7F)

/-- A character of one octet outside of the quoted pairs: `%x21`, `%x23-5B` or `%x5D-7E`. -/
def IsText (n : Nat) : Prop := n = 0x21 ∨ (0x23 ≤ n ∧ n ≤ 0x5B) ∨ (0x5D ≤ n ∧ n ≤ 0x7E)

/-- Runs without backslashes and quoted pairs between them. -/
inductive Content (inner last : List Byte → Prop) : List Byte → Prop
  | last {run : List Byte} (hrun : backslash ∉ run) (h : last run) : Content inner last run
  | pair {run rest : List Byte} {second : Byte} (hrun : backslash ∉ run) (h : inner run)
      (hsecond : IsQuoted second) (hrest : Content inner last rest) :
      Content inner last (run ++ backslash :: second :: rest)

/-- All runs pass the check of the code. -/
def Passed : List Byte → Prop := Content (fun run => run_passes run = true) fun run => run_passes run = true

variable {ns : List Nat} {run rest s : List Byte}

section content

variable {inner last : List Byte → Prop} {second : Byte}

theorem Content.mono {inner' last' : List Byte → Prop} (h : Content inner last s) (hinner : ∀ run, inner run → inner' run)
    (hlast : ∀ run, last run → last' run) : Content inner' last' s := by
  induction h with
  | last hrun h => exact .last hrun (hlast _ h)
  | pair hrun h hsecond _ ih => exact .pair hrun (hinner _ h) hsecond ih

end content

end openvocs.stun
