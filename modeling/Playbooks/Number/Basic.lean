import Playbooks.Number.Layout
import Playbooks.Number.Reader

/-!
# Numbers

A number is a signed 64-bit integer or a float, and stays what it is.
-/
namespace Playbooks

inductive Number where
  | int (i : Int64)
  | float (x : Float)

namespace Number

/-- The number a text stands for: without a point it is an integer, if it fits 64 bits, and
otherwise a float. -/
def read? (cs : List Char) : Option Number :=
  let float := (Float64.read cs).map Number.float
  if cs.contains '.' then float
  else match readInt64 cs with
    | some i => some (.int i)
    | none => float

/-- The text that reads back as the number, if it is finite. -/
def render : Number → String
  | int i => toString i.toInt
  | float x => Float64.literalText x

/-- The nearest float. -/
def toFloat : Number → Float
  | int i => Float.ofInt i.toInt
  | float x => x

def beq : Number → Number → Bool
  | int i, int j => i == j
  | float x, float y => x == y
  | _, _ => false

instance : BEq Number := ⟨beq⟩

end Number

end Playbooks
