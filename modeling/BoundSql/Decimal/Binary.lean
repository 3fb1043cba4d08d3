import BoundSql.Binary64.Basic
import BoundSql.Decimal.Reader

/-!
# Decimals from binary floating point

A finite number `m · 2 ^ q` becomes a decimal. A whole number with `0 ≤ q` is
taken as it is, if it fits. Any other number goes through a register of 96 bits,
where each factor of two below the point is turned into a factor of ten: halving
an even register, or multiplying it by five where that fits and halving it where
it does not. Then at most 28 places are kept, digits beyond the precision of the
number are rounded away one at a time, and trailing zeros are dropped.
-/

namespace BoundSql.Decimal

/-- A register and the power of ten it is multiplied by. -/
structure Register where
  value : Nat
  power : Int

namespace Register

/-- Divides by two `steps` times, trading a two for a ten. -/
def divideByTwos : Nat → Register → Register
  | 0, r => r
  | steps + 1, r =>
      if r.value % 2 = 0 then divideByTwos steps ⟨r.value / 2, r.power + 1⟩
      else if r.value * 5 < mantissaBound then divideByTwos steps ⟨r.value * 5, r.power⟩
      else divideByTwos steps ⟨r.value / 2, r.power + 1⟩

/-- Drops the last digit, rounding half up. -/
def dropDigit (r : Register) : Register :=
  let up := if 5 ≤ r.value % 10 then 1 else 0
  ⟨r.value / 10 + up, r.power + 1⟩

/-- Drops places beyond the twenty-eighth. A register that runs empty is zero. -/
def limitScale : Nat → Register → Register
  | 0, r => r
  | steps + 1, r =>
      if r.power < -28 then
        if r.value / 10 = 0 then ⟨0, 0⟩ else limitScale steps r.dropDigit
      else r

/-- Drops places until the register is within the precision of the number. -/
def limitPrecision : Nat → Register → Register
  | 0, r => r
  | steps + 1, r =>
      if r.power < 0 ∧ 1 <<< 52 ≤ r.value then limitPrecision steps r.dropDigit else r

/-- Drops places that are zero. -/
def dropZeros : Nat → Register → Register
  | 0, r => r
  | steps + 1, r =>
      if r.power < 0 ∧ r.value % 10 = 0 then dropZeros steps ⟨r.value / 10, r.power + 1⟩
      else r

/-- The register after all rounding. -/
def settle (r : Register) : Register :=
  let limited := r.limitScale (r.power.natAbs + 1)
  let rounded := limited.limitPrecision 29
  rounded.dropZeros 29

end Register

/-- The decimal for `mantissa · 2 ^ exponent`; the mantissa is not zero. -/
def ofBinaryParts? (negative : Bool) (mantissa : Nat) (exponent : Int) : Option Decimal :=
  if 0 ≤ exponent then ofParts? negative (mantissa <<< exponent.natAbs) 0
  else
    let start : Register := ⟨mantissa, exponent⟩
    let final := (start.divideByTwos exponent.natAbs).settle
    ofParts? negative final.value final.power.natAbs

/-- The decimal for a floating-point number, if it is finite and fits. -/
def ofBinary64 : Binary64 → Except DecimalFault Decimal
  | .finite negative mantissa exponent _ =>
      if mantissa = 0 then .ok (zero negative)
      else
        match ofBinaryParts? negative mantissa exponent with
        | some d => .ok d
        | none => .error .notRepresentable
  | _ => .error .notRepresentable

end BoundSql.Decimal
