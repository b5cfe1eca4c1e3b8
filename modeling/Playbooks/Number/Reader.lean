/-!
# Reading numbers

Integers and decimals as they are written in playbooks and values: an optional sign, ASCII digits,
and for decimals a point, an exponent and the names of the numbers that are not finite. Nothing may
stand around them.
-/
namespace Playbooks

/-- The number written by decimal digits. -/
def natOfDigits (ds : List Char) : Nat :=
  ds.foldl (fun n d => 10 * n + (d.toNat - '0'.toNat)) 0

/-- Removes a sign and tells whether it was a minus. -/
def takeSign : List Char → Bool × List Char
  | '-' :: cs => (true, cs)
  | '+' :: cs => (false, cs)
  | cs => (false, cs)

/-- An unsigned integer of at least one digit. -/
def readNat (cs : List Char) : Option Nat :=
  if !cs.isEmpty && cs.all Char.isDigit then some (natOfDigits cs) else none

/-- An integer with an optional sign. -/
def readInt (cs : List Char) : Option Int :=
  let (negative, ds) := takeSign cs
  (readNat ds).map fun n => if negative then -(n : Int) else n

/-- Integers of a signed 64-bit word. -/
def fitsInt64 (i : Int) : Bool :=
  Int64.minValue.toInt ≤ i && i ≤ Int64.maxValue.toInt

theorem fitsInt64_toInt (i : Int64) : fitsInt64 i.toInt = true := by
  rw [fitsInt64, decide_eq_true i.minValue_le_toInt, decide_eq_true i.toInt_le]
  rfl

/-- A signed 64-bit integer with an optional sign. -/
def readInt64 (cs : List Char) : Option Int64 :=
  (readInt cs).bind fun i => if fitsInt64 i then some (Int64.ofInt i) else none

namespace Float64

/-- The float nearest to `significand · 10 ^ exponent`. Magnitudes far outside the range of binary64
are answered without forming the power of ten. -/
def ofDecimal (significand : Nat) (exponent : Int) : Float :=
  let size := exponent + (Nat.toDigits 10 significand).length
  if significand = 0 then 0
  else if 400 < size then Float.ofBits 0x7ff0000000000000
  else if size < -400 then 0
  else if 0 ≤ exponent then Float.ofScientific significand false exponent.toNat
  else Float.ofScientific significand true (-exponent).toNat

/-- An exponent part: nothing, or `e` and a signed integer. -/
def readExponent : List Char → Option Int
  | [] => some 0
  | c :: cs => if c = 'e' || c = 'E' then readInt cs else none

/-- An unsigned decimal: digits before or after an optional point, then an optional exponent. -/
def readMagnitude (cs : List Char) : Option Float :=
  let whole := cs.takeWhile Char.isDigit
  let (fraction, rest) := match cs.dropWhile Char.isDigit with
    | '.' :: rest => (rest.takeWhile Char.isDigit, rest.dropWhile Char.isDigit)
    | rest => ([], rest)
  if whole.isEmpty && fraction.isEmpty then none
  else (readExponent rest).map fun e =>
    ofDecimal (natOfDigits (whole ++ fraction)) (e - fraction.length)

/-- A decimal, an infinity or NaN, with an optional sign. -/
def read (cs : List Char) : Option Float :=
  let (negative, magnitude) := takeSign cs
  let name := String.ofList (magnitude.map Char.toLower)
  let value :=
    if name = "inf" || name = "infinity" then some (Float.ofBits 0x7ff0000000000000)
    else if name = "nan" then some (Float.ofBits 0x7ff8000000000000)
    else readMagnitude magnitude
  value.map fun x => if negative then -x else x

end Float64

end Playbooks
