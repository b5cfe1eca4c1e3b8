import Playbooks.Number.Basic

/-!
# Arithmetic

Operations on two integers are checked: they have no result if it does not fit 64 bits, or if there
is none. A calculation that an integer operation does not settle is made with floats.
-/
namespace Playbooks.Number

/-! ## Checked operations -/

/-- The integer, if it fits 64 bits. -/
def checked (z : Int) : Option Int64 :=
  if fitsInt64 z then some (Int64.ofInt z) else none

def checkedAdd (a b : Int64) : Option Int64 :=
  checked (a.toInt + b.toInt)

def checkedSub (a b : Int64) : Option Int64 :=
  checked (a.toInt - b.toInt)

def checkedMul (a b : Int64) : Option Int64 :=
  checked (a.toInt * b.toInt)

/-- A division that has no result: by zero, or of the least integer by minus one. -/
def divisionOverflows (a b : Int64) : Bool :=
  b == 0 || (a == Int64.minValue && b == -1)

/-- The quotient, rounded toward zero. -/
def checkedDiv (a b : Int64) : Option Int64 :=
  if divisionOverflows a b then none else some (a / b)

/-- The remainder of the division toward zero. -/
def checkedRem (a b : Int64) : Option Int64 :=
  if divisionOverflows a b then none else some (a % b)

/-! ## Calculations -/

/-- The result of an integer operation, or else a float. -/
def intOr (x : Float) : Option Int64 → Number
  | some c => int c
  | none => float x

/-- An operation on integers, with floats where it has no result or an operand is a float. -/
def combine (onInts : Int64 → Int64 → Option Int64) (onFloats : Float → Float → Float) :
    Number → Number → Number
  | int a, int b => intOr (onFloats (int a).toFloat (int b).toFloat) (onInts a b)
  | a, b => float (onFloats a.toFloat b.toFloat)

def add : Number → Number → Number :=
  combine checkedAdd (· + ·)

def sub : Number → Number → Number :=
  combine checkedSub (· - ·)

def mul : Number → Number → Number :=
  combine checkedMul (· * ·)

/-- A quotient of integers is an integer only if nothing remains. -/
def div : Number → Number → Number
  | int a, int b =>
    if checkedRem a b = some 0 then intOr ((int a).toFloat / (int b).toFloat) (checkedDiv a b)
    else float ((int a).toFloat / (int b).toFloat)
  | a, b => float (a.toFloat / b.toFloat)

/-- A remainder of integers that has no result counts as zero. -/
def mod : Number → Number → Number
  | int a, int b => int ((checkedRem a b).getD 0)
  | a, b => float (Dyadic.tmod (.ofFloat a.toFloat) (.ofFloat b.toFloat)).toFloat

/-- Zero of either kind and sign. -/
def isZero (n : Number) : Bool :=
  n.toFloat == 0

end Playbooks.Number
