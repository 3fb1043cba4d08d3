import BoundSql.Json.Document

/-!
# Reading JSON values

The meaning of a JSON document as a value. Integers that fit into sixty-four
bits stay integers. Any other number is a float: the digits up to the one that
would overflow sixty-four unsigned bits are taken as an integer, rounded, and
scaled by one rounded multiplication or division by a power of ten. A number too
large for a float, a string with an unpaired surrogate and containers nested too
deep have no value.
-/

namespace BoundSql.Json

namespace NumberText

/-- The bound of unsigned sixty-four bit integers. -/
def wordBound : Nat := UInt64.size

/-- The leading digits that fit into a word behind `value`, as a number, and how
many digits were left out. -/
def significand (value : Nat) : List Char → Nat × Nat
  | [] => (value, 0)
  | c :: cs =>
      let next := value * 10 + Text.digitValue c
      if next < wordBound then significand next cs else (value, (c :: cs).length)

/-- A power of ten as a float. -/
def powerOfTen (n : Nat) : Binary64 :=
  .ofDecimal false 1 n

/-- Divides by `10 ^ 308` as long as the exponent is below the range of powers,
then once more by the power that is left. -/
def scaleDown : Nat → Binary64 → Nat → Binary64
  | 0, x, n => x.divFinite (powerOfTen n)
  | rounds + 1, x, n =>
      if n ≤ 308 then x.divFinite (powerOfTen n)
      else scaleDown rounds (x.divFinite (powerOfTen 308)) (n - 308)

/-- A significand scaled by a power of ten, if the result is finite. -/
def scaled? (value : Nat) (exponent : Int) : Option Binary64 :=
  let x := Binary64.ofInt value
  if 0 ≤ exponent then
    if exponent ≤ 308 then
      let y := x.mulFinite (powerOfTen exponent.natAbs)
      if y.isFinite then some y else none
    else if value = 0 then some x
    else none
  else if value = 0 ∨ 2000 < exponent.natAbs then some (.zero false)
  else some (scaleDown 8 x exponent.natAbs)

/-- The exponents as written that are computed with; larger ones decide the
number by themselves. -/
def exponentBound : Nat := UInt32.size / 2

/-- The float a number stands for, without its sign. -/
def magnitude? (n : NumberText) : Option Binary64 :=
  let (whole, skipped) := significand 0 n.whole
  let places := n.places.getD []
  let (value, dropped) := significand whole places
  let shift : Int := skipped - ((places.length - dropped : Nat) : Int)
  match n.exponent with
  | none => scaled? value shift
  | some (negative, ds) =>
      let e := Text.natOfDigits ds
      if exponentBound ≤ e then
        if value ≠ 0 ∧ !negative then none else some (.zero false)
      else scaled? value (if negative then shift - e else shift + e)

/-- The number a text stands for. A zero with a sign is a float. -/
def value? (n : NumberText) : Option JsonNumber :=
  let value := Text.natOfDigits n.whole
  if n.places.isNone ∧ n.exponent.isNone ∧
      (if n.negative then 0 < value ∧ value ≤ wordBound / 2 else value < wordBound) then
    some (.int (if n.negative then -(value : Int) else value))
  else
    n.magnitude?.map fun x => .float (if n.negative then x.neg else x)

end NumberText

namespace Document

mutual

/-- The value of a document whose containers are nested at most `depth` deep. -/
def value? (depth : Nat) : Document → Option Json
  | .null => some .null
  | .bool b => some (.bool b)
  | .number n => n.value?.map .number
  | .string s => s.map .string
  | .array items =>
      if depth = 0 then none else (values? (depth - 1) items).map .array
  | .object fields =>
      if depth = 0 then none else (fieldValues? (depth - 1) fields).map ofFields

/-- The values of the items of an array. -/
def values? (depth : Nat) : List Document → Option (List Json)
  | [] => some []
  | d :: rest => do
      let value ← value? depth d
      let values ← values? depth rest
      return value :: values

/-- The values of the fields of an object, as written. -/
def fieldValues? (depth : Nat) : List (Option String × Document) → Option (List (String × Json))
  | [] => some []
  | (key, d) :: rest => do
      let key ← key
      let value ← value? depth d
      let fields ← fieldValues? depth rest
      return (key, value) :: fields

end

/-- How deep containers may be nested. -/
def maxDepth : Nat := 127

end Document

/-- The value a text spells. -/
def ofText? (cs : List Char) : Option Json :=
  (Document.ofText? cs).bind (Document.value? Document.maxDepth)

end BoundSql.Json
