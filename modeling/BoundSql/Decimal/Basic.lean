import BoundSql.Text.Digits

/-!
# Fixed-point decimals

A decimal is `mantissa / 10 ^ scale` with a sign, the mantissa below `2 ^ 96`
and the scale at most 28. The scale is part of the value as written, so `1.50`
keeps its zero; `Decimal.sameValue` compares the numbers alone.
-/

namespace BoundSql

/-- A fixed-point decimal. -/
structure Decimal where
  negative : Bool
  mantissa : Nat
  scale : Nat
  mantissa_lt : mantissa < 1 <<< 96
  scale_le : scale ≤ 28
  deriving DecidableEq, Repr

namespace Decimal

/-- The first mantissa that does not fit. -/
def mantissaBound : Nat := 1 <<< 96

/-- The greatest scale. -/
def maxScale : Nat := 28

/-- A decimal from its parts, if they fit. -/
def ofParts? (negative : Bool) (mantissa scale : Nat) : Option Decimal :=
  if h : mantissa < 1 <<< 96 ∧ scale ≤ 28 then some ⟨negative, mantissa, scale, h.1, h.2⟩
  else none

/-- The whole number zero. -/
def zero (negative : Bool) : Decimal :=
  ⟨negative, 0, 0, by decide, by decide⟩

/-- A whole number of at most sixty-four bits. -/
def ofInt64 (n : Int64) : Decimal :=
  (ofParts? (n.toInt < 0) n.toInt.natAbs 0).getD (zero false)

/-- The same digits with the point elsewhere. -/
def withScale (d : Decimal) (scale : Nat) (h : scale ≤ 28) : Decimal :=
  { d with scale := scale, scale_le := h }

/-- The mantissa without its last `places` digits, which round it half up, over a
new scale. The sign is kept even on a zero. -/
def roundOff (d : Decimal) (places scale : Nat) (h : scale ≤ 28) : Decimal where
  negative := d.negative
  mantissa := (d.mantissa + Nat.pow 10 places / 2) / Nat.pow 10 places
  scale := scale
  mantissa_lt := by
    have hm := d.mantissa_lt
    have hp : 0 < Nat.pow 10 places := Nat.pow_pos (by decide)
    rw [Nat.div_lt_iff_lt_mul hp]
    have : Nat.pow 10 places ≤ 1 <<< 96 * Nat.pow 10 places :=
      Nat.le_mul_of_pos_left _ (by decide)
    have : 1 <<< 96 * 1 ≤ 1 <<< 96 * Nat.pow 10 places := Nat.mul_le_mul_left _ hp
    omega
  scale_le := h

/-- The mantissa with its sign. -/
def signed (d : Decimal) : Int :=
  if d.negative then -d.mantissa else d.mantissa

/-- Equality of the numbers, whatever their scales; the zeros are all equal. -/
def sameValue (a b : Decimal) : Bool :=
  a.signed * Nat.pow 10 b.scale == b.signed * Nat.pow 10 a.scale

instance : BEq Decimal := ⟨sameValue⟩

theorem sameValue_self (d : Decimal) : d.sameValue d = true := by
  simp [sameValue]

/-- The written form: all digits of the scale, and a sign below zero or on a
zero that carries one. -/
def chars (d : Decimal) : List Char :=
  let ds := List.leftpad (d.scale + 1) '0' (Text.digits d.mantissa)
  let whole := ds.take (ds.length - d.scale)
  let places := ds.drop (ds.length - d.scale)
  let body := if d.scale = 0 then whole else whole ++ '.' :: places
  if d.negative then '-' :: body else body

/-- The written form as a string. -/
def text (d : Decimal) : String :=
  String.ofList d.chars

end Decimal

end BoundSql
