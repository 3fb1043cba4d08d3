/-!
# Decimal digits

Natural numbers as runs of ASCII digits: reading a run, printing a number, and
padding to a fixed width.
-/

namespace BoundSql.Text

/-- The value of an ASCII digit. -/
def digitValue (c : Char) : Nat :=
  c.toNat - '0'.toNat

/-- The number a run of ASCII digits spells; the empty run spells zero. -/
def natOfDigits (ds : List Char) : Nat :=
  Nat.ofDigitChars 10 ds 0

/-- The shortest decimal spelling of a number. -/
def digits (n : Nat) : List Char :=
  Nat.toDigits 10 n

/-- The decimal spelling of a number, filled with zeros up to `width`. -/
def paddedDigits (width n : Nat) : List Char :=
  List.leftpad width '0' (digits n)

/-- The decimal spelling of an integer, with a sign only below zero. -/
def signedDigits : Int → List Char
  | .ofNat n => digits n
  | .negSucc n => '-' :: digits (n + 1)

@[simp] theorem natOfDigits_digits (n : Nat) : natOfDigits (digits n) = n :=
  Nat.ofDigitChars_toDigits (by decide) (by decide)

theorem digits_ne_nil (n : Nat) : digits n ≠ [] :=
  Nat.toDigits_ne_nil

theorem isDigit_of_mem_digits {n : Nat} {c : Char} (h : c ∈ digits n) : c.isDigit = true :=
  Nat.isDigit_of_mem_toDigits (by decide) (by decide) h

/-- A text split after its leading run of ASCII digits. -/
def spanDigits (cs : List Char) : List Char × List Char :=
  (cs.takeWhile Char.isDigit, cs.dropWhile Char.isDigit)

theorem spanDigits_append (cs : List Char) :
    (spanDigits cs).1 ++ (spanDigits cs).2 = cs :=
  List.takeWhile_append_dropWhile

end BoundSql.Text
