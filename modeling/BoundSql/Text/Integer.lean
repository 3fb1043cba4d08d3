import BoundSql.Text.Digits

/-!
# Signed sixty-four bit integers as text

Reading takes an optional sign and ASCII digits, left to right, and reports the
first fault it meets: a number can turn out too large before a later character
turns out not to be a digit.
-/

namespace BoundSql.Text

/-- Why a text is not a sixty-four bit integer. -/
inductive IntegerFault where
  | empty
  | invalidDigit
  | tooLarge
  | tooSmall
  deriving DecidableEq, Repr

/-- The wording of a fault. -/
def IntegerFault.message : IntegerFault → String
  | .empty => "cannot parse integer from empty string"
  | .invalidDigit => "invalid digit found in string"
  | .tooLarge => "number too large to fit in target type"
  | .tooSmall => "number too small to fit in target type"

/-- Reads digits behind the number `value`, which may not pass `limit`. -/
def readMagnitude (limit : Nat) (overflow : IntegerFault) (value : Nat) :
    List Char → Except IntegerFault Nat
  | [] => .ok value
  | c :: cs =>
      if c.isDigit then
        let next := value * 10 + digitValue c
        if next ≤ limit then readMagnitude limit overflow next cs else .error overflow
      else .error .invalidDigit

/-- Reads at least one digit. -/
def readDigits (limit : Nat) (overflow : IntegerFault) : List Char → Except IntegerFault Nat
  | [] => .error .invalidDigit
  | cs => readMagnitude limit overflow 0 cs

/-- The sixty-four bit integer a text spells. -/
def readInt64 : List Char → Except IntegerFault Int64
  | [] => .error .empty
  | '-' :: cs => (readDigits (UInt64.size / 2) .tooSmall cs).map fun n => Int64.ofInt (-n)
  | '+' :: cs => (readDigits (UInt64.size / 2 - 1) .tooLarge cs).map fun n => Int64.ofInt n
  | cs => (readDigits (UInt64.size / 2 - 1) .tooLarge cs).map fun n => Int64.ofInt n

/-- The decimal spelling of an integer. -/
def int64Text (n : Int64) : String :=
  String.ofList (signedDigits n.toInt)

end BoundSql.Text
