/-!
# Digits of any base

Numbers written by digits up to sixteen, and characters by the digits of their code points.
-/
namespace Playbooks

/-- The value of a digit, also beyond nine. -/
def digitValue? (c : Char) : Option Nat :=
  if '0' ≤ c && c ≤ '9' then some (c.toNat - '0'.toNat)
  else if 'a' ≤ c && c ≤ 'f' then some (c.toNat - 'a'.toNat + 10)
  else if 'A' ≤ c && c ≤ 'F' then some (c.toNat - 'A'.toNat + 10)
  else none

/-- The number written by digits of a base. -/
def natOfBase? (base : Nat) (cs : List Char) : Option Nat :=
  if cs.isEmpty then none
  else cs.foldlM (fun n c => do
    let d ← digitValue? c
    if d < base then some (base * n + d) else none) 0

/-- The character of a code point, if it is one. -/
def charOfHex? (cs : List Char) : Option Char := do
  let n ← natOfBase? 16 cs
  if n.isValidChar then some (Char.ofNat n) else none

end Playbooks
