import Playbooks.Number.Dyadic

/-!
# Shortest decimals

Among the decimals that read back as a given float, `shortest` takes one with the fewest digits, and
of those the nearest. On the grid of decimals with `n` digits only the two neighbours of the value
can be nearest, so the search tries `n = 1, 2, …` and looks at two points each time. Seventeen
digits always suffice.
-/
namespace Playbooks

/-- The decimal `d₀.d₁d₂… · 10 ^ exponent` for the digits `d₀, d₁, d₂, …`. -/
structure Decimal where
  digits : List Char
  exponent : Int
deriving DecidableEq

/-- Which of two decimals that are equally near is taken. -/
inductive Tie where
  | even
  | upward
deriving DecidableEq

namespace Decimal

/-- Digits of a positive number without its trailing zeros. -/
def significantDigits (n : Nat) : List Char :=
  ((Nat.toDigits 10 n).reverse.dropWhile (· == '0')).reverse

/-- The decimal `n · 10 ^ scale`, for positive `n`. -/
def ofScaled (n : Nat) (scale : Int) : Decimal :=
  { digits := significantDigits n
    exponent := scale + (Nat.toDigits 10 n).length - 1 }

/-- The exponent of the leading digit of the positive fraction `num / den`. -/
def leadingExponent (num den : Nat) : Int :=
  if den ≤ num then ((Nat.toDigits 10 (num / den)).length : Int) - 1
  else -((Nat.toDigits 10 ((den + num - 1) / num - 1)).length : Int)

/-- Numbers over a common denominator: the value and the ends of the interval of numbers that
round to it. -/
structure Rounding where
  value : Nat
  low : Nat
  high : Nat
  denominator : Nat
  closed : Bool

/-- The interval of numbers that round to a positive float. The gap below a power of two is half the
gap above it; the ends belong to the interval if the significand is even. -/
def Rounding.ofDyadic (d : Dyadic) : Rounding :=
  let m := d.significand
  let gap := if m = Nat.pow 2 52 && d.exponent ≠ -1074 then 1 else 2
  let up := Nat.pow 2 (d.exponent - 2).toNat
  { value := 4 * m * up
    low := (4 * m - gap) * up
    high := (4 * m + 2) * up
    denominator := Nat.pow 2 (2 - d.exponent).toNat
    closed := m % 2 = 0 }

/-- The point `n · 10 ^ scale` lies in the interval. -/
def Rounding.admits (r : Rounding) (n : Nat) (scale : Int) : Bool :=
  let point := n * Nat.pow 10 scale.toNat * r.denominator
  let unit := Nat.pow 10 (-scale).toNat
  if r.closed then r.low * unit ≤ point && point ≤ r.high * unit
  else r.low * unit < point && point < r.high * unit

/-- The nearest admitted neighbour of the value on the grid of multiples of `10 ^ scale`. -/
def Rounding.nearest? (r : Rounding) (tie : Tie) (scale : Int) : Option Nat :=
  let unit := Nat.pow 10 (-scale).toNat
  let step := Nat.pow 10 scale.toNat * r.denominator
  let below := r.value * unit / step
  match r.admits below scale, r.admits (below + 1) scale with
  | false, false => none
  | true, false => some below
  | false, true => some (below + 1)
  | true, true =>
    let rest := 2 * (r.value * unit % step)
    if rest < step then some below
    else if step < rest then some (below + 1)
    else match tie with
      | .upward => some (below + 1)
      | .even => some (if below % 2 = 0 then below else below + 1)

/-- The shortest decimal of a positive float. -/
def shortest (tie : Tie) (d : Dyadic) : Decimal :=
  let r := Rounding.ofDyadic d
  let lead := leadingExponent r.value r.denominator
  let onGrid (n : Nat) : Option Decimal :=
    let scale := lead - n
    (r.nearest? tie scale).map (ofScaled · scale)
  ((List.range 17).findSome? onGrid).getD ⟨['0'], 0⟩

end Decimal

end Playbooks
