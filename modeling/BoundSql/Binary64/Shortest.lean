import BoundSql.Binary64.Basic
import BoundSql.Text.Digits

/-!
# Shortest decimal digits

The fewest decimal digits that read back as a given floating-point number, and
among those the ones nearest to it.

A number owns the interval of reals that round to it, its ends included exactly
when the mantissa is even. On the grid of `n`-digit decimals only the two
neighbours of the number can be the nearest point inside that interval, so
`shortestDigits` tries the grids for one digit, two digits and so on, and the
first grid with a neighbour inside wins. Seventeen digits always suffice. A
number midway between two points inside goes to the one that a `TieRule` names.
-/

namespace BoundSql

/-- A positive decimal `coefficient · 10 ^ exponent`. -/
structure DecimalDigits where
  coefficient : Nat
  exponent : Int
  deriving DecidableEq, Repr

namespace DecimalDigits

/-- Moves trailing zeros of the coefficient into the exponent, at most `room`
of them. -/
def normalise : Nat → DecimalDigits → DecimalDigits
  | 0, d => d
  | room + 1, d =>
      if d.coefficient ≠ 0 ∧ d.coefficient % 10 = 0 then
        normalise room ⟨d.coefficient / 10, d.exponent + 1⟩
      else d

/-- The exponent of the first digit. -/
def leading (d : DecimalDigits) : Int :=
  d.exponent + ((Text.digits d.coefficient).length : Int) - 1

end DecimalDigits

/-- Where a number midway between two neighbours goes: to the larger one, or to
the one with an even coefficient. -/
inductive TieRule where
  | up
  | even
  deriving DecidableEq, Repr

/-- Whether a number goes up from `lower`, when twice the part of it above
`lower` compares like this with the distance of the neighbours. -/
def TieRule.roundsUp (tie : TieRule) (lower : Nat) : Ordering → Bool
  | .lt => false
  | .gt => true
  | .eq => tie == .up || lower % 2 == 1

/-- The real interval of a positive number as `4 · value`, `4 · low` and
`4 · high` over a common denominator. -/
structure RoundingInterval where
  value : Nat
  low : Nat
  high : Nat
  den : Nat
  closed : Bool

/-- The reals that round to `mantissa · 2 ^ exponent`: half a unit to each side,
a quarter below where the next number down is closer. -/
def RoundingInterval.ofParts (mantissa : Nat) (exponent : Int) : RoundingInterval :=
  let below :=
    if mantissa = 1 <<< 52 ∧ BinaryFormat.double.minExponent < exponent then 1 else 2
  let (unit, den) := scaleRatio 1 1 (-exponent)
  ⟨4 * mantissa * unit, (4 * mantissa - below) * unit, (4 * mantissa + 2) * unit, 4 * den,
    mantissa % 2 == 0⟩

/-- Whether the interval holds the ratio `num / den'`. -/
def RoundingInterval.holds (i : RoundingInterval) (num den' : Nat) : Bool :=
  let x := num * i.den
  let low := i.low * den'
  let high := i.high * den'
  if i.closed then low ≤ x && x ≤ high else low < x && x < high

/-- The exponent `k` with `10 ^ k ≤ num / den < 10 ^ (k + 1)`. -/
def decimalExponent (num den : Nat) : Int :=
  if den ≤ num then ((Text.digits (num / den)).length : Int) - 1
  else
    let k := (Text.digits (den / num)).length
    if den ≤ num * Nat.pow 10 (k - 1) then -((k : Int) - 1) else -(k : Int)

/-- The nearest decimal inside the interval on the grid `10 ^ exponent`. -/
def RoundingInterval.onGrid (i : RoundingInterval) (tie : TieRule) (exponent : Int) :
    Option DecimalDigits :=
  let grid := Nat.pow 10 exponent.natAbs
  let (num, den) := if exponent < 0 then (i.value * grid, i.den) else (i.value, i.den * grid)
  let lower := num / den
  let inside := fun c =>
    if exponent < 0 then i.holds c grid else i.holds (c * grid) 1
  let up := tie.roundsUp lower (compare (2 * (num % den)) den)
  match inside lower, inside (lower + 1) with
  | false, false => none
  | true, false => some ⟨lower, exponent⟩
  | false, true => some ⟨lower + 1, exponent⟩
  | true, true => some ⟨if up then lower + 1 else lower, exponent⟩

/-- The first hit on the grids with `count`, `count + 1`, … digits, trying
`tries` of them; the value to seventeen digits if none hits. -/
def RoundingInterval.search (i : RoundingInterval) (tie : TieRule) (leading : Int) :
    Nat → Nat → DecimalDigits
  | 0, count => ⟨i.value * Nat.pow 10 (count - 1) / i.den, leading - count + 1⟩
  | tries + 1, count =>
      match i.onGrid tie (leading - count + 1) with
      | some d => d.normalise 20
      | none => i.search tie leading tries (count + 1)

/-- The fewest digits that read back as the positive number
`mantissa · 2 ^ exponent`, the nearest of them. -/
def shortestDigits (tie : TieRule) (mantissa : Nat) (exponent : Int) : DecimalDigits :=
  let i := RoundingInterval.ofParts mantissa exponent
  i.search tie (decimalExponent i.value i.den) 17 1

end BoundSql
