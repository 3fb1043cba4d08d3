import BoundSql.Text.Digits

/-!
# Calendar dates

Dates of the proleptic Gregorian calendar with a year zero, from 1 January of
the year -262143 to 31 December of the year 262142. A `Date` carries the proof
that it names a day of the calendar.
-/

namespace BoundSql

namespace Calendar

/-- Whether a year has a 29 February. -/
def isLeapYear (year : Int) : Bool :=
  year % 4 == 0 && (year % 100 != 0 || year % 400 == 0)

/-- The number of days in a month; zero if there is no such month. -/
def daysInMonth (year : Int) (month : Nat) : Nat :=
  match month with
  | 2 => if isLeapYear year then 29 else 28
  | 4 | 6 | 9 | 11 => 30
  | 1 | 3 | 5 | 7 | 8 | 10 | 12 => 31
  | _ => 0

/-- The first year of the calendar. -/
def minYear : Int := -262143

/-- The last year of the calendar. -/
def maxYear : Int := 262142

/-- Whether year, month and day name a day of the calendar. -/
def IsDay (year : Int) (month day : Nat) : Prop :=
  minYear ≤ year ∧ year ≤ maxYear ∧ 1 ≤ day ∧ day ≤ daysInMonth year month

instance (year : Int) (month day : Nat) : Decidable (IsDay year month day) := by
  unfold IsDay
  infer_instance

end Calendar

/-- A day of the calendar. -/
structure Date where
  year : Int
  month : Nat
  day : Nat
  isDay : Calendar.IsDay year month day
  deriving DecidableEq, Repr

namespace Date

/-- The date with these parts, if there is one. -/
def ofParts? (year : Int) (month day : Nat) : Option Date :=
  if h : Calendar.IsDay year month day then some ⟨year, month, day, h⟩ else none

/-- The day after. -/
def next? (d : Date) : Option Date :=
  if d.day < Calendar.daysInMonth d.year d.month then ofParts? d.year d.month (d.day + 1)
  else if d.month < 12 then ofParts? d.year (d.month + 1) 1
  else ofParts? (d.year + 1) 1 1

/-- The day before. -/
def previous? (d : Date) : Option Date :=
  if 1 < d.day then ofParts? d.year d.month (d.day - 1)
  else if 1 < d.month then
    ofParts? d.year (d.month - 1) (Calendar.daysInMonth d.year (d.month - 1))
  else ofParts? (d.year - 1) 12 31

/-- A year with four digits; outside 0 to 9999 it has a sign and at least four
digits. -/
def yearText (year : Int) : List Char :=
  if 0 ≤ year ∧ year ≤ 9999 then Text.paddedDigits 4 year.natAbs
  else (if year < 0 then '-' else '+') :: Text.paddedDigits 4 year.natAbs

/-- Year, month and day with hyphens between them. -/
def chars (d : Date) : List Char :=
  yearText d.year ++ '-' :: Text.paddedDigits 2 d.month ++ '-' :: Text.paddedDigits 2 d.day

/-- The written form as a string. -/
def text (d : Date) : String :=
  String.ofList d.chars

end Date

end BoundSql
