import Playbooks.Number.Shortest

/-!
# Number texts

Three layouts of one choice of digits: the text of a value, which switches to an exponent outside a
range of magnitudes; the text of a literal in a playbook, which never has an exponent and shows an
integral number with all its digits; and the text of a literal in an emitted program.
-/
namespace Playbooks

/-- `n` zeros. -/
def zeros (n : Nat) : List Char :=
  List.replicate n '0'

namespace Decimal

/-- Digits with a point and no exponent; an integral number has no point. -/
def positional (d : Decimal) : List Char :=
  if d.exponent < 0 then ['0', '.'] ++ zeros ((-d.exponent).toNat - 1) ++ d.digits
  else
    let whole := d.exponent.toNat + 1
    if d.digits.length ≤ whole then d.digits ++ zeros (whole - d.digits.length)
    else d.digits.take whole ++ '.' :: d.digits.drop whole

/-- One digit, the others after a point, and a signed exponent without padding. -/
def scientific (d : Decimal) : List Char :=
  let fraction := match d.digits.drop 1 with
    | [] => []
    | ds => '.' :: ds
  let sign := if d.exponent < 0 then '-' else '+'
  d.digits.take 1 ++ fraction ++ ['e', sign] ++ Nat.toDigits 10 d.exponent.natAbs

end Decimal

/-- The text with `.0` at its end unless it has a point. -/
def withPoint (cs : List Char) : List Char :=
  if cs.contains '.' then cs else cs ++ ['.', '0']

namespace Float64

/-- The sign, then the text of the magnitude. -/
def signed (d : Dyadic) (magnitude : List Char) : List Char :=
  if d.negative then '-' :: magnitude else magnitude

/-- Exponents of the leading digit that a value shows without an exponent. -/
def plainExponents : Int × Int := (-5, 15)

/-- Text of a finite float in a value. A number equally near to two shortest decimals takes the even
one. -/
def valueText (x : Float) : String :=
  let d := Dyadic.ofFloat x
  let magnitude :=
    if d.significand = 0 then ['0', '.', '0']
    else
      let decimal := Decimal.shortest .even d
      if plainExponents.1 ≤ decimal.exponent && decimal.exponent ≤ plainExponents.2 then
        withPoint decimal.positional
      else decimal.scientific
  String.ofList (signed d magnitude)

/-- Shortest digits without an exponent, and the names of the numbers that are not finite. A number
equally near to two shortest decimals takes the larger one. -/
def plainText (x : Float) : List Char :=
  if x.isNaN then ['N', 'a', 'N']
  else if !x.isFinite then if x < 0 then ['-', 'i', 'n', 'f'] else ['i', 'n', 'f']
  else
    let d := Dyadic.ofFloat x
    signed d (if d.significand = 0 then ['0'] else (Decimal.shortest .upward d).positional)

/-- Text of a float literal in a playbook: an integral number shows every digit and one zero after
the point, so that it reads back as a float. -/
def literalText (x : Float) : String :=
  if x.isFinite then
    let d := Dyadic.ofFloat x
    match d.natAbs? with
    | some n => String.ofList (signed d (Nat.toDigits 10 n ++ ['.', '0']))
    | none => String.ofList (plainText x)
  else String.ofList (plainText x)

/-- Text of a float literal in an emitted program. -/
def sourceText (x : Float) : String :=
  String.ofList (withPoint (plainText x))

end Float64

end Playbooks
