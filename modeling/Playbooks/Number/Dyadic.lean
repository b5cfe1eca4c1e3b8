/-!
# Floating-point numbers as exact fractions

A finite binary64 number is a natural significand scaled by a power of two. Digits are chosen from
this exact form; nothing is rounded on the way.
-/
namespace Playbooks

/-- The number `significand · 2 ^ exponent`, negated if `negative`. -/
structure Dyadic where
  negative : Bool
  significand : Nat
  exponent : Int
deriving DecidableEq

namespace Dyadic

/-- The exact value of a finite number; the words of infinities and NaN have no meaning here. -/
def ofFloat (x : Float) : Dyadic :=
  let word := x.toBits.toNat
  let fraction := word % Nat.pow 2 52
  let scale : Nat := word / Nat.pow 2 52 % Nat.pow 2 11
  { negative := Nat.pow 2 63 ≤ word
    significand := if scale = 0 then fraction else Nat.pow 2 52 + fraction
    exponent := Int.ofNat (max scale 1) - 1075 }

/-- The float with this value, for a significand of at most 53 bits whose value is representable.
Both factors are exact, so the product is. -/
def toFloat (d : Dyadic) : Float :=
  let magnitude :=
    if 0 ≤ d.exponent then Float.ofNat (d.significand * Nat.pow 2 d.exponent.toNat)
    else if -1022 ≤ d.exponent then
      Float.ofNat d.significand / Float.ofNat (Nat.pow 2 (-d.exponent).toNat)
    else
      Float.ofNat d.significand / Float.ofNat (Nat.pow 2 1022)
        / Float.ofNat (Nat.pow 2 (-1022 - d.exponent).toNat)
  if d.negative then -magnitude else magnitude

/-- The value as an integer, without its sign, if it is one. -/
def natAbs? (d : Dyadic) : Option Nat :=
  if 0 ≤ d.exponent then some (d.significand * Nat.pow 2 d.exponent.toNat)
  else if d.significand % Nat.pow 2 (-d.exponent).toNat = 0 then
    some (d.significand / Nat.pow 2 (-d.exponent).toNat)
  else none

/-- Remainder of the division toward zero: it has the sign of the dividend and is smaller than the
divisor. Both operands are brought to the smaller exponent first. -/
def tmod (a b : Dyadic) : Dyadic :=
  let e := min a.exponent b.exponent
  let m := a.significand * Nat.pow 2 (a.exponent - e).toNat
  let n := b.significand * Nat.pow 2 (b.exponent - e).toNat
  { negative := a.negative, significand := m % n, exponent := e }

end Dyadic

end Playbooks
