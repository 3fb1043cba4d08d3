import BoundSql.Calendar.Date

/-!
# Timestamps

Instants in universal time with nanoseconds. A second may be carried past its
thousand million nanoseconds by as many again. Carried so, the last second of a
minute is a leap second and is written as second sixty; any other one is written
as the second that follows it.
-/

namespace BoundSql

namespace Calendar

/-- The seconds of a day. -/
def daySeconds : Nat := 86400

/-- The nanoseconds of a second. -/
def secondNanos : Nat := 1000000000

/-- Whether a second of the day and its nanoseconds are a time. The nanoseconds
of one further second are admitted on every second, not on the last of a minute
only. -/
def IsTime (second nanos : Nat) : Prop :=
  second < daySeconds ∧ nanos < 2 * secondNanos

instance (second nanos : Nat) : Decidable (IsTime second nanos) := by
  unfold IsTime
  infer_instance

end Calendar

/-- An instant in universal time. -/
structure Timestamp where
  date : Date
  second : Nat
  nanos : Nat
  isTime : Calendar.IsTime second nanos
  deriving DecidableEq, Repr

namespace Timestamp

/-- The timestamp with these parts, if there is one. -/
def ofParts? (date : Date) (second nanos : Nat) : Option Timestamp :=
  if h : Calendar.IsTime second nanos then some ⟨date, second, nanos, h⟩ else none

/-- A local time at a distance of `offset` seconds from universal time, as
universal time. -/
def ofLocal? (date : Date) (second nanos : Nat) (offset : Int) : Option Timestamp :=
  let shifted : Int := second - offset
  if shifted < 0 then
    date.previous? >>= fun d => ofParts? d (shifted + Calendar.daySeconds).toNat nanos
  else if (Calendar.daySeconds : Int) ≤ shifted then
    date.next? >>= fun d => ofParts? d (shifted - Calendar.daySeconds).toNat nanos
  else ofParts? date shifted.toNat nanos

/-- Hour, minute and second with colons between them. -/
def clockText (t : Timestamp) : List Char :=
  let hour := t.second / 3600
  let minute := t.second / 60 % 60
  let second := t.second % 60 + t.nanos / Calendar.secondNanos
  Text.paddedDigits 2 hour ++ ':' :: Text.paddedDigits 2 minute ++ ':' ::
    Text.paddedDigits 2 second

/-- The nanoseconds within the second as written. -/
def fraction (t : Timestamp) : Nat :=
  t.nanos % Calendar.secondNanos

/-- The first `places` digits of the fraction, behind a point. -/
def fractionText (t : Timestamp) (places : Nat) : List Char :=
  '.' :: Text.paddedDigits places (t.fraction / Nat.pow 10 (9 - places))

/-- The fraction with the fewest of 0, 3, 6 or 9 digits that lose nothing. -/
def exactFraction (t : Timestamp) : List Char :=
  if t.fraction = 0 then []
  else if t.fraction % 1000000 = 0 then t.fractionText 3
  else if t.fraction % 1000 = 0 then t.fractionText 6
  else t.fractionText 9

/-- The form of RFC 3339, with `Z` for universal time. -/
def rfc3339 (t : Timestamp) : String :=
  String.ofList (t.date.chars ++ 'T' :: t.clockText ++ t.exactFraction ++ ['Z'])

/-- The form shown to people. -/
def displayText (t : Timestamp) : String :=
  String.ofList (t.date.chars ++ ' ' :: t.clockText ++ t.exactFraction ++ [' ', 'U', 'T', 'C'])

end Timestamp

/-- A written form with a fixed number of fraction digits, and the text that
follows them. -/
structure TimestampLayout where
  places : Nat
  suffix : String
  deriving DecidableEq, Repr

namespace TimestampLayout

/-- The layout as a conversion pattern. -/
def pattern (layout : TimestampLayout) : String :=
  "%Y-%m-%d %H:%M:%S%." ++ toString layout.places ++ "f" ++ layout.suffix

/-- A timestamp in this layout; digits beyond its places are cut off. -/
def chars (layout : TimestampLayout) (t : Timestamp) : List Char :=
  t.date.chars ++ ' ' :: t.clockText ++ t.fractionText layout.places ++ layout.suffix.toList

/-- The written form as a string. -/
def text (layout : TimestampLayout) (t : Timestamp) : String :=
  String.ofList (layout.chars t)

end TimestampLayout

end BoundSql
