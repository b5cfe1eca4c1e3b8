import Playbooks.Number.Basic
import Playbooks.Value.Basic

/-!
# Numbers as values

A value can hold integers beyond the signed 64-bit range; as numbers to calculate with, those are
floats. A float that is not finite has no value and becomes null.
-/
namespace Playbooks.Number

def ofNumeral (n : Numeral) : Number :=
  match n.toInt64? with
  | some i => int i
  | none => float n.toFloat

def toValue : Number → Value
  | int i => .ofInt64 i
  | float x => .ofFloat x

end Playbooks.Number
