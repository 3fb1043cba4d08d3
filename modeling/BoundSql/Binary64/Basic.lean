/-!
# Binary floating point

Sixty-four bit floating-point numbers as exact values: a finite number is
`mantissa · 2 ^ exponent` with a sign, so rounding, comparing and printing are
statements about natural numbers.

`Binary64.ofRatio` is the one place where a value is rounded: to the nearest
representable number, a tie to the even mantissa. Everything that makes a number
(a decimal text, an integer, a product, a quotient) goes through it.
-/

namespace BoundSql

/-- The shape of a binary floating-point format: the bits of a mantissa, and the
least and greatest exponent of its last bit. -/
structure BinaryFormat where
  precision : Nat
  minExponent : Int
  maxExponent : Int
  deriving DecidableEq, Repr

/-- The format of sixty-four bit numbers. -/
def BinaryFormat.double : BinaryFormat := ⟨53, -1074, 971⟩

/-- The format of thirty-two bit numbers. -/
def BinaryFormat.single : BinaryFormat := ⟨24, -149, 104⟩

/-- A mantissa and an exponent in the one spelling that the format gives them:
the leading bit is set unless the exponent is the least one. -/
def BinaryFormat.Canonical (format : BinaryFormat) (mantissa : Nat) (exponent : Int) : Prop :=
  mantissa < 1 <<< format.precision ∧ format.minExponent ≤ exponent ∧
    exponent ≤ format.maxExponent ∧
    (1 <<< (format.precision - 1) ≤ mantissa ∨ exponent = format.minExponent)

instance (format : BinaryFormat) (mantissa : Nat) (exponent : Int) :
    Decidable (format.Canonical mantissa exponent) := by
  unfold BinaryFormat.Canonical
  infer_instance

/-- A sixty-four bit floating-point number. -/
inductive Binary64 where
  | nan
  | infinite (negative : Bool)
  | finite (negative : Bool) (mantissa : Nat) (exponent : Int)
      (canonical : BinaryFormat.double.Canonical mantissa exponent)
  deriving DecidableEq, Repr

/-! ## Rounding -/

/-- The quotient rounded to the nearest integer, a tie to the even one. -/
def roundQuotient (num den : Nat) : Nat :=
  let q := num / den
  let twice := 2 * (num % den)
  if twice < den || (twice == den && q % 2 == 0) then q else q + 1

/-- `num / (den · 2 ^ exponent)` as a numerator and a denominator. -/
def scaleRatio (num den : Nat) (exponent : Int) : Nat × Nat :=
  if exponent < 0 then (num <<< exponent.natAbs, den) else (num, den <<< exponent.natAbs)

/-- The mantissa and exponent nearest to the positive ratio `num / den`. The
exponent may exceed the greatest one of the format. -/
def BinaryFormat.round (format : BinaryFormat) (num den : Nat) : Nat × Int :=
  let guess : Int := (num.log2 : Int) - den.log2 - format.precision
  let low := max format.minExponent guess
  let fits := fun e =>
    let (n, d) := scaleRatio num den e
    n / d < 1 <<< format.precision
  let exponent := if fits low then low else low + 1
  let (n, d) := scaleRatio num den exponent
  let mantissa := roundQuotient n d
  if mantissa < 1 <<< format.precision then (mantissa, exponent)
  else (mantissa / 2, exponent + 1)

namespace Binary64

/-- A number from its parts, infinite if the format has no room for them. -/
def ofParts (negative : Bool) (mantissa : Nat) (exponent : Int) : Binary64 :=
  if h : BinaryFormat.double.Canonical mantissa exponent then
    .finite negative mantissa exponent h
  else .infinite negative

/-- Zero with a sign. -/
def zero (negative : Bool) : Binary64 :=
  .finite negative 0 (-1074) (by decide)

/-- The number nearest to a ratio. -/
def ofRatio (negative : Bool) (num den : Nat) : Binary64 :=
  if num = 0 then zero negative
  else
    let (mantissa, exponent) := BinaryFormat.double.round num den
    ofParts negative mantissa exponent

/-- The number nearest to `coefficient · 2 ^ exponent`. -/
def ofScaled (negative : Bool) (coefficient : Nat) (exponent : Int) : Binary64 :=
  if exponent < 0 then ofRatio negative coefficient (1 <<< exponent.natAbs)
  else ofRatio negative (coefficient <<< exponent.natAbs) 1

/-- Decimal exponents outside this bound decide a value by themselves. -/
def decimalRange : Int := 400

/-- The number nearest to `coefficient · 10 ^ exponent`. A magnitude far outside
the format is settled by its number of digits, so no huge power is computed. -/
def ofDecimal (negative : Bool) (coefficient : Nat) (exponent : Int) : Binary64 :=
  let magnitude := (Nat.toDigits 10 coefficient).length + exponent
  if coefficient = 0 ∨ magnitude < -decimalRange then zero negative
  else if decimalRange < magnitude then .infinite negative
  else if exponent < 0 then ofRatio negative coefficient (Nat.pow 10 exponent.natAbs)
  else ofRatio negative (coefficient * Nat.pow 10 exponent.natAbs) 1

/-- The number nearest to an integer. -/
def ofInt (n : Int) : Binary64 :=
  ofRatio (n < 0) n.natAbs 1

/-- The thirty-two bit number nearest to a decimal, as a sixty-four bit one. -/
def ofDecimalSingle (negative : Bool) (coefficient : Nat) (exponent : Int) : Binary64 :=
  let magnitude := (Nat.toDigits 10 coefficient).length + exponent
  if coefficient = 0 ∨ magnitude < -decimalRange then zero negative
  else if decimalRange < magnitude then .infinite negative
  else
    let (num, den) :=
      if exponent < 0 then (coefficient, Nat.pow 10 exponent.natAbs)
      else (coefficient * Nat.pow 10 exponent.natAbs, 1)
    let (mantissa, e) := BinaryFormat.single.round num den
    if e ≤ BinaryFormat.single.maxExponent then ofScaled negative mantissa e
    else .infinite negative

/-! ## Classification and arithmetic -/

/-- Whether a number is neither infinite nor a NaN. -/
def isFinite : Binary64 → Bool
  | .finite .. => true
  | _ => false

/-- Whether a number is a NaN. -/
def isNaN : Binary64 → Bool
  | .nan => true
  | _ => false

/-- Equality of values: a NaN equals nothing, and the two zeros are equal. -/
def sameValue : Binary64 → Binary64 → Bool
  | .infinite s, .infinite t => s == t
  | .finite s m e _, .finite t n f _ => (m == n && e == f) && (s == t || m == 0)
  | _, _ => false

instance : BEq Binary64 := ⟨sameValue⟩

/-- The number with the other sign. -/
def neg : Binary64 → Binary64
  | .nan => .nan
  | .infinite s => .infinite !s
  | .finite s m e h => .finite (!s) m e h

/-- The product of two finite numbers, rounded; anything else is a NaN. -/
def mulFinite : Binary64 → Binary64 → Binary64
  | .finite s m e _, .finite t n f _ => ofScaled (s != t) (m * n) (e + f)
  | _, _ => .nan

/-- The quotient of two finite numbers, the second not zero, rounded; anything
else is a NaN. -/
def divFinite : Binary64 → Binary64 → Binary64
  | .finite s m e _, .finite t n f _ =>
      let (num, den) := scaleRatio m n (f - e)
      if n = 0 then .nan else ofRatio (s != t) num den
  | _, _ => .nan

/-- A number that is not a NaN has the same value as itself. -/
theorem sameValue_self {x : Binary64} (h : x ≠ .nan) : x.sameValue x = true := by
  cases x with
  | nan => exact absurd rfl h
  | infinite s => simp [sameValue]
  | finite s m e hc => simp [sameValue]

end Binary64

end BoundSql
