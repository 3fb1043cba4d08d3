import BoundSql.Calendar.Timestamp
import BoundSql.Text.Blank

/-!
# Reading dates and timestamps

A pattern is a list of items, each of which takes a piece of the text and sets
one field. The fields are put together at the end, where a day that the calendar
does not have is refused.

Patterns for databases are lenient: numbers may be short, blanks may precede
them, the offset may lack its minutes. The pattern of RFC 3339 is strict, and
the pattern for stored documents lies between the two.
-/

namespace BoundSql.Calendar

/-- Why a text does not fit a pattern. -/
inductive ReadingFault where
  | outOfRange
  | invalid
  | tooShort
  | tooLong
  deriving DecidableEq, Repr

/-- The wording of a fault. -/
def ReadingFault.message : ReadingFault → String
  | .outOfRange => "input is out of range"
  | .invalid => "input contains invalid characters"
  | .tooShort => "premature end of input"
  | .tooLong => "trailing input"

/-- How the offset from universal time is written. -/
structure OffsetStyle where
  /-- Colons and blanks between hours and minutes are skipped; otherwise exactly
  one colon is required. -/
  looseSeparator : Bool
  /-- The minutes may be left out. -/
  hoursOnly : Bool
  /-- The greatest offset in seconds. -/
  limit : Int
  deriving DecidableEq, Repr

/-- A field of a date or a time. -/
inductive Part where
  | year | month | day | hour | minute | second
  deriving DecidableEq, Repr

/-- An item of a pattern. -/
inductive Item where
  /-- Blanks, then a number of one or more digits; a year may have a sign. -/
  | number (part : Part)
  /-- A number of exactly this many digits. -/
  | fixed (part : Part) (width : Nat)
  /-- This character. -/
  | mark (c : Char)
  /-- One of these characters. -/
  | oneOf (cs : List Char)
  /-- Any number of blanks. -/
  | blanks
  /-- A point and digits, or nothing. -/
  | fraction
  /-- The distance from universal time. -/
  | offset (style : OffsetStyle)
  /-- The letters `UTC` in any case, or the distance from universal time. -/
  | namedOffset (style : OffsetStyle)
  deriving DecidableEq, Repr

/-- The fields read so far. -/
structure Fields where
  year : Int := 0
  month : Nat := 1
  day : Nat := 1
  hour : Nat := 0
  minute : Nat := 0
  second : Nat := 0
  nanos : Nat := 0
  offset : Int := 0
  deriving DecidableEq, Repr

/-- A field set to a number, if the field has room for it. -/
def Fields.set (f : Fields) (part : Part) (n : Int) : Except ReadingFault Fields :=
  match part with
  | .year =>
      if Int32.minValue.toInt ≤ n ∧ n ≤ Int32.maxValue.toInt then .ok { f with year := n }
      else .error .outOfRange
  | .month => if 1 ≤ n ∧ n ≤ 12 then .ok { f with month := n.toNat } else .error .outOfRange
  | .day => if 1 ≤ n ∧ n ≤ 31 then .ok { f with day := n.toNat } else .error .outOfRange
  | .hour => if 0 ≤ n ∧ n ≤ 23 then .ok { f with hour := n.toNat } else .error .outOfRange
  | .minute => if 0 ≤ n ∧ n ≤ 59 then .ok { f with minute := n.toNat } else .error .outOfRange
  | .second => if 0 ≤ n ∧ n ≤ 60 then .ok { f with second := n.toNat } else .error .outOfRange

/-- At least `least` digits and at most `most`, and the text behind them. -/
def takeNumber (least : Nat) (most : Option Nat) (cs : List Char) :
    Except ReadingFault (Nat × List Char) :=
  let run := cs.takeWhile Char.isDigit
  let ds := match most with | some n => run.take n | none => run
  if ds.length < least then
    if cs.length < least then .error .tooShort else .error .invalid
  else
    let n := Text.natOfDigits ds
    if n < UInt64.size / 2 then .ok (n, cs.drop ds.length) else .error .outOfRange

/-- The number of digits of a part without a sign. -/
def Part.width : Part → Nat
  | .year => 4
  | _ => 2

/-- A number of this part, with a sign for a year. -/
def takePart (part : Part) (cs : List Char) : Except ReadingFault (Int × List Char) :=
  match part, cs with
  | .year, '-' :: rest => (takeNumber 1 none rest).map fun (n, tail) => (-(n : Int), tail)
  | .year, '+' :: rest => (takeNumber 1 none rest).map fun (n, tail) => ((n : Int), tail)
  | _, _ => (takeNumber 1 (some part.width) cs).map fun (n, tail) => ((n : Int), tail)

/-- A character, which has to be the given one. -/
def takeMark (c : Char) : List Char → Except ReadingFault (List Char)
  | [] => .error .tooShort
  | d :: rest => if d = c then .ok rest else .error .invalid

/-- Two digits and the text behind them. -/
def takePair : List Char → Except ReadingFault (Nat × List Char)
  | a :: b :: rest =>
      if a.isDigit ∧ b.isDigit then .ok (Text.natOfDigits [a, b], rest) else .error .invalid
  | _ => .error .tooShort

/-- The minutes of an offset, below sixty. -/
def takeOffsetMinutes (style : OffsetStyle) (cs : List Char) :
    Except ReadingFault (Nat × List Char) :=
  if cs.isEmpty ∧ style.hoursOnly then .ok (0, [])
  else
    match takePair cs with
    | .error fault => .error fault
    | .ok (n, rest) => if n < 60 then .ok (n, rest) else .error .outOfRange

/-- A signed offset, in seconds. The minus sign may be a hyphen or U+2212. -/
def takeOffset (style : OffsetStyle) (cs : List Char) :
    Except ReadingFault (Int × List Char) :=
  match cs with
  | [] => .error .tooShort
  | c :: rest =>
      if c = 'Z' ∨ c = 'z' then .ok (0, rest)
      else if c = '+' ∨ c = '-' ∨ c.toNat = 0x2212 then do
        let (hours, behind) ← takePair rest
        let separated ←
          if style.looseSeparator then
            .ok (behind.dropWhile fun c => c == ':' || Text.isBlank c)
          else takeMark ':' behind
        let (minutes, tail) ← takeOffsetMinutes style separated
        let seconds : Int := hours * 3600 + minutes * 60
        if style.limit < seconds then .error .outOfRange
        else .ok (if c = '+' then seconds else -seconds, tail)
      else .error .invalid

/-- A fraction of a second, if a point follows: digits past the ninth are
skipped. -/
def takeFraction (cs : List Char) : Except ReadingFault (Option Nat × List Char) :=
  match cs with
  | '.' :: rest =>
      let run := rest.takeWhile Char.isDigit
      if run.isEmpty then .error (if rest.isEmpty then .tooShort else .invalid)
      else
        let ds := run.take 9
        .ok (some (Text.natOfDigits ds * Nat.pow 10 (9 - ds.length)), rest.drop run.length)
  | _ => .ok (none, cs)

/-- One item taken from the front of the text. -/
def Item.take (item : Item) (f : Fields) (cs : List Char) :
    Except ReadingFault (Fields × List Char) :=
  match item with
  | .number part => do
      let (n, rest) ← takePart part (Text.trimLeft cs)
      return (← f.set part n, rest)
  | .fixed part width => do
      let (n, rest) ← takeNumber width (some width) cs
      return (← f.set part n, rest)
  | .mark c => do return (f, ← takeMark c cs)
  | .oneOf choices =>
      match cs with
      | [] => .error .tooShort
      | c :: rest => if c ∈ choices then .ok (f, rest) else .error .invalid
  | .blanks => .ok (f, Text.trimLeft cs)
  | .fraction => do
      let (nanos, rest) ← takeFraction cs
      return ({ f with nanos := nanos.getD 0 }, rest)
  | .offset style => do
      let body := if style.looseSeparator then Text.trimLeft cs else cs
      let (seconds, rest) ← takeOffset style body
      return ({ f with offset := seconds }, rest)
  | .namedOffset style => do
      let body := Text.trimLeft cs
      if (body.take 3).map Char.toUpper = ['U', 'T', 'C'] then
        return ({ f with offset := 0 }, body.drop 3)
      else
        let (seconds, rest) ← takeOffset style body
        return ({ f with offset := seconds }, rest)

/-- The items in order, which have to use up the text. -/
def readItems : List Item → Fields → List Char → Except ReadingFault Fields
  | [], f, [] => .ok f
  | [], _, _ :: _ => .error .tooLong
  | item :: items, f, cs => do
      let (next, rest) ← item.take f cs
      readItems items next rest

/-- The date in the fields. -/
def Fields.date (f : Fields) : Except ReadingFault Date :=
  match Date.ofParts? f.year f.month f.day with
  | some d => .ok d
  | none => .error .outOfRange

/-- The instant in the fields. Second sixty is the leap second of its minute. -/
def Fields.timestamp (f : Fields) : Except ReadingFault Timestamp := do
  let date ← f.date
  let leap := f.second = 60
  let second := f.hour * 3600 + f.minute * 60 + if leap then 59 else f.second
  let nanos := if leap then f.nanos + secondNanos else f.nanos
  if f.offset.natAbs < daySeconds then
    match Timestamp.ofLocal? date second nanos f.offset with
    | some t => .ok t
    | none => .error .outOfRange
  else .error .outOfRange

/-! ## Patterns -/

/-- A date in the lenient form. -/
def lenientDate : List Item :=
  [.number .year, .mark '-', .number .month, .mark '-', .number .day]

/-- A time in the lenient form. -/
def lenientTime : List Item :=
  [.number .hour, .mark ':', .number .minute, .mark ':', .number .second, .fraction]

/-- An offset in the lenient form. -/
def lenientOffset : Item :=
  .offset ⟨true, true, 99 * 3600 + 59 * 60⟩

/-- The strict form of RFC 3339. -/
def strictTimestamp : List Item :=
  [.fixed .year 4, .mark '-', .fixed .month 2, .mark '-', .fixed .day 2, .oneOf ['t', 'T', ' '],
    .fixed .hour 2, .mark ':', .fixed .minute 2, .mark ':', .fixed .second 2, .fraction,
    .offset ⟨false, false, 23 * 3600 + 59 * 60⟩]

/-- A date in a stored document: blanks may stand before the marks and at the
end. -/
def storedDate : List Item :=
  [.number .year, .blanks, .mark '-', .number .month, .blanks, .mark '-', .number .day]

/-- A timestamp in a stored document. -/
def storedTimestamp : List Item :=
  storedDate ++ [.oneOf ['t', 'T', ' '], .number .hour, .blanks, .mark ':', .number .minute,
    .blanks, .mark ':', .number .second, .fraction, .blanks,
    .namedOffset ⟨true, false, 99 * 3600 + 59 * 60⟩, .blanks]

/-- The patterns of a timestamp with an offset that a database may send, in the
order in which they are tried, and then those without an offset. -/
def databaseTimestamps : List (List Item) :=
  [lenientDate ++ .blanks :: lenientTime ++ [lenientOffset],
    lenientDate ++ .mark 'T' :: lenientTime ++ [lenientOffset],
    strictTimestamp,
    lenientDate ++ .blanks :: lenientTime,
    lenientDate ++ .mark 'T' :: lenientTime]

/-- The instant a text spells in the first pattern that fits it. -/
def readFirst : List (List Item) → List Char → Option Timestamp
  | [], _ => none
  | items :: more, cs =>
      match readItems items {} cs >>= Fields.timestamp with
      | .ok t => some t
      | .error _ => readFirst more cs

/-- A date as a database writes it. -/
def readDate (cs : List Char) : Except ReadingFault Date :=
  readItems lenientDate {} cs >>= Fields.date

/-- A timestamp as a database writes it. -/
def readTimestamp? (cs : List Char) : Option Timestamp :=
  readFirst databaseTimestamps cs

/-- A date as a stored document holds it. -/
def readStoredDate? (cs : List Char) : Option Date :=
  (readItems (storedDate ++ [.blanks]) {} cs >>= Fields.date).toOption

/-- A timestamp as a stored document holds it. -/
def readStoredTimestamp? (cs : List Char) : Option Timestamp :=
  (readItems storedTimestamp {} cs >>= Fields.timestamp).toOption

end BoundSql.Calendar
