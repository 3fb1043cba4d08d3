import BoundSql.Decimal.Basic

/-!
# Reading decimals

Two forms are read. The plain form is a sign, digits with at most one point and
underscores behind the first digit; digits that do not fit are rounded half up
at the last place that does. The scientific form is a plain decimal, `e` or `E`
and a whole exponent of at most 28 to either side. Places that a negative
exponent pushes past the last one are rounded away half up; a positive exponent
is applied exactly or not at all.
-/

namespace BoundSql

/-- Why a text or a number is not a decimal. -/
inductive DecimalFault where
  | empty
  | unknownCharacter
  | secondPoint
  | leadingSeparator
  | noDigits
  | tooManyDigits
  | roundedTooLarge
  | notScientific
  | scaleTooLarge (scale : Nat)
  | tooLarge
  | notRepresentable
  deriving DecidableEq, Repr

/-- The wording of a fault. -/
def DecimalFault.message : DecimalFault → String
  | .empty => "Invalid decimal: empty"
  | .unknownCharacter => "Invalid decimal: unknown character"
  | .secondPoint => "Invalid decimal: two decimal points"
  | .leadingSeparator => "Invalid decimal: must start lead with a number"
  | .noDigits => "Invalid decimal: no digits found"
  | .tooManyDigits => "Invalid decimal: overflow from too many digits"
  | .roundedTooLarge => "Invalid decimal: overflow from mantissa after rounding"
  | .notScientific => "Failed to parse"
  | .scaleTooLarge scale =>
      "Scale exceeds the maximum precision allowed: " ++ toString scale ++ " > 28"
  | .tooLarge => "Number exceeds maximum value that can be represented."
  | .notRepresentable => "Error while converting to Decimal"

namespace Decimal

/-- The fault of a character that may not stand where it does. -/
def strayCharacter (c : Char) : DecimalFault :=
  if c = '.' then .secondPoint
  else if c = '_' then .leadingSeparator
  else .unknownCharacter

/-- The mantissas that are collected in one word: an underscore next to such a
mantissa rounds down, and next to a longer one it is skipped. -/
def wordBound : Nat := (UInt64.size - 1) / 10 - 255

/-- The digit by which a mantissa is rounded that has no room for the text
behind it. -/
def roundingDigit (mantissa : Nat) (cs : List Char) : Nat :=
  let shown := if mantissa / 10 < wordBound then cs else cs.dropWhile (· == '_')
  match shown.head? with
  | some c => if c.isDigit then Text.digitValue c else 0
  | none => 0

/-- Ends a reading in front of digits for which there is no room. The first of
them rounds half up, giving up one place if the mantissa overflows; the others
have no say, but nothing else may stand among them. -/
def roundAt (mantissa scale : Nat) (cs : List Char) : Except DecimalFault (Nat × Nat) :=
  match cs.find? fun c => !c.isDigit && c != '_' with
  | some c => .error (strayCharacter c)
  | none =>
      let rounded := if 5 ≤ roundingDigit mantissa cs then mantissa + 1 else mantissa
      if rounded < mantissaBound then .ok (rounded, scale)
      else if scale = 0 then .error .roundedTooLarge
      else .ok ((rounded + 4) / 10, scale - 1)

/-- Reads the digits of a plain decimal behind `mantissa` and `scale`, given
whether a point and whether a digit has been passed. -/
def readDigits (mantissa scale : Nat) (point digit : Bool) :
    List Char → Except DecimalFault (Nat × Nat)
  | [] => if digit then .ok (mantissa, scale) else .error .noDigits
  | c :: cs =>
      if c.isDigit then
        let next := mantissa * 10 + Text.digitValue c
        if next < mantissaBound then
          let places := if point then scale + 1 else scale
          if point ∧ maxScale ≤ places then roundAt next places cs
          else readDigits next places point true cs
        else if point then roundAt mantissa scale (c :: cs)
        else .error .tooManyDigits
      else if c = '.' ∧ !point then readDigits mantissa scale true digit cs
      else if c = '_' ∧ digit then readDigits mantissa scale point digit cs
      else .error (strayCharacter c)

/-- A decimal from digits that were read; a zero loses its sign. -/
def ofReading (negative : Bool) (reading : Nat × Nat) : Except DecimalFault Decimal :=
  match ofParts? (negative && reading.1 != 0) reading.1 reading.2 with
  | some d => .ok d
  | none => .error .tooLarge

/-- Reads the plain form. -/
def ofPlain : List Char → Except DecimalFault Decimal
  | [] => .error .empty
  | '-' :: cs => readDigits 0 0 false false cs >>= ofReading true
  | '+' :: cs => readDigits 0 0 false false cs >>= ofReading false
  | cs => readDigits 0 0 false false cs >>= ofReading false

/-- The exponent of a scientific form: an optional plus sign and digits, below
`2 ^ 32`. -/
def exponent? (cs : List Char) : Option Nat :=
  let ds :=
    match cs with
    | '+' :: rest => rest
    | _ => cs
  if ds.isEmpty || !ds.all Char.isDigit then none
  else
    let n := Text.natOfDigits ds
    if n < UInt32.size then some n else none

/-- Moves the point to the left, rounding half up at the last place. -/
def shiftDown (d : Decimal) (n : Nat) : Except DecimalFault Decimal :=
  if maxScale < n then .error (.scaleTooLarge n)
  else if h : d.scale + n ≤ 28 then .ok (d.withScale (d.scale + n) h)
  else .ok (d.roundOff (d.scale + n - 28) 28 (Nat.le_refl _))

/-- Moves the point to the right. Past the last place the result is a whole
number, which has to fit; zero then loses its sign. -/
def shiftUp (d : Decimal) (n : Nat) : Except DecimalFault Decimal :=
  if n ≤ d.scale then
    .ok (d.withScale (d.scale - n) (Nat.le_trans (Nat.sub_le _ _) d.scale_le))
  else if maxScale < n then .error (.scaleTooLarge n)
  else
    let whole := d.mantissa * Nat.pow 10 (n - d.scale)
    match ofParts? (d.negative && d.mantissa != 0) whole 0 with
    | some r => .ok r
    | none => .error .tooLarge

/-- Reads the scientific form. -/
def ofScientific (cs : List Char) : Except DecimalFault Decimal :=
  let marker := fun c : Char => c == 'e' || c == 'E'
  match cs.dropWhile (!marker ·) with
  | [] => .error .notScientific
  | _ :: power => do
      let d ← ofPlain (cs.takeWhile (!marker ·))
      match power with
      | '-' :: rest =>
          match exponent? rest with
          | some n => d.shiftDown n
          | none => .error .notScientific
      | _ =>
          match exponent? power with
          | some n => d.shiftUp n
          | none => .error .notScientific

/-- Reads either form; if neither fits, the fault of the scientific form is
reported. -/
def ofText (cs : List Char) : Except DecimalFault Decimal :=
  match ofPlain cs with
  | .ok d => .ok d
  | .error _ => ofScientific cs

end Decimal

end BoundSql
