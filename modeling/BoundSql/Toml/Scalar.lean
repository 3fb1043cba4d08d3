import BoundSql.Binary64.Text
import BoundSql.Calendar.Date
import BoundSql.Json.Basic
import BoundSql.Json.Document

/-!
# TOML scalars

Strings, numbers, truth values, dates and times at the start of a text. Every
reader gives the value and the text behind it. What may follow a value is
checked by the caller, so a number that breaks off in the middle is refused
there.

Values are JSON values from the start: dates and times become strings in their
normal form, and floats that JSON cannot hold become null.
-/

namespace BoundSql.Toml

/-! ## Characters -/

/-- Blanks within a line. -/
def isSpace (c : Char) : Bool :=
  c == ' ' || c == '\t'

/-- Characters that may stand in comments and strings: no controls but the
tabulator. -/
def isPrintable (c : Char) : Bool :=
  c == '\t' || (0x20 ≤ c.toNat && c.toNat != 0x7f)

/-- The text behind the blanks at its start. -/
def skipSpace (cs : List Char) : List Char :=
  cs.dropWhile isSpace

/-- The text behind a line end. -/
def afterNewline? : List Char → Option (List Char)
  | '\n' :: cs => some cs
  | '\r' :: '\n' :: cs => some cs
  | _ => none

/-- The text behind a line end, if there is one. -/
def skipNewline (cs : List Char) : List Char :=
  (afterNewline? cs).getD cs

/-- The text behind blanks and line ends. -/
def skipBlankLines : List Char → List Char
  | [] => []
  | '\r' :: '\n' :: cs => skipBlankLines cs
  | c :: cs => if isSpace c || c == '\n' then skipBlankLines cs else c :: cs

theorem length_skipBlankLines_le (cs : List Char) :
    (skipBlankLines cs).length ≤ cs.length := by
  fun_induction skipBlankLines cs with
  | case1 => simp
  | case2 cs ih => simp; omega
  | case3 c cs _ _ ih => simp; omega
  | case4 => simp

/-! ## Strings -/

/-- The value of a run of hexadecimal digits. -/
def hexNumber? (ds : List Char) : Option Nat :=
  ds.foldl (fun n c => n.bind fun n => (Json.Document.hexValue? c).map (n * 16 + ·)) (some 0)

/-- The character with a number, which may not be a surrogate. -/
def scalar? (n : Nat) : Option Char :=
  if n.isValidChar then some (Char.ofNat n) else none

/-- The character of an escape of one letter. -/
def simpleEscape? (c : Char) : Option Char :=
  if c = 'b' then some (Char.ofNat 0x08)
  else if c = 't' then some '\t'
  else if c = 'n' then some '\n'
  else if c = 'f' then some (Char.ofNat 0x0c)
  else if c = 'r' then some '\r'
  else if c = '"' then some '"'
  else if c = '\\' then some '\\'
  else none

/-- The character of an escape by number, behind its letter. -/
def numberEscape? (width : Nat) (cs : List Char) : Option (Char × List Char) :=
  if (cs.take width).length = width then
    ((hexNumber? (cs.take width)).bind scalar?).map fun e => (e, cs.drop width)
  else none

/-- The character of an escape, behind its backslash. -/
def escape? : List Char → Option (Char × List Char)
  | [] => none
  | c :: cs =>
      if c = 'u' then numberEscape? 4 cs
      else if c = 'U' then numberEscape? 8 cs
      else (simpleEscape? c).map fun e => (e, cs)

theorem length_numberEscape? {width : Nat} {cs rest : List Char} {c : Char}
    (h : numberEscape? width cs = some (c, rest)) : rest.length ≤ cs.length := by
  unfold numberEscape? at h
  split at h
  · obtain ⟨_, _, heq⟩ := Option.map_eq_some_iff.1 h
    rw [← (Prod.mk.inj heq).2]
    simp
  · cases h

theorem length_escape? {cs rest : List Char} {c : Char} (h : escape? cs = some (c, rest)) :
    rest.length < cs.length := by
  unfold escape? at h
  split at h
  · cases h
  · simp only [List.length_cons]
    split at h
    · have := length_numberEscape? h
      omega
    · split at h
      · have := length_numberEscape? h
        omega
      · obtain ⟨_, _, heq⟩ := Option.map_eq_some_iff.1 h
        rw [← (Prod.mk.inj heq).2]
        omega

/-- A string with escapes on one line, behind its opening quote. -/
def basicBody? (cs : List Char) : Option (List Char × List Char) :=
  match cs with
  | [] => none
  | '"' :: rest => some ([], rest)
  | '\\' :: rest =>
      match _escape : escape? rest with
      | some (c, tail) => (basicBody? tail).map fun r => (c :: r.1, r.2)
      | none => none
  | c :: rest =>
      if isPrintable c then (basicBody? rest).map fun r => (c :: r.1, r.2) else none
termination_by cs.length
decreasing_by
  · have := length_escape? ‹_›
    simp only [List.length_cons]
    omega
  · simp

/-- A string without escapes on one line, behind its opening quote. -/
def literalBody? : List Char → Option (List Char × List Char)
  | [] => none
  | c :: rest =>
      if c = '\'' then some ([], rest)
      else if isPrintable c then (literalBody? rest).map fun r => (c :: r.1, r.2)
      else none

/-- The text behind a backslash at the end of a line: blanks and line ends up to
the next character are skipped. -/
def continuation? (cs : List Char) : Option (List Char) :=
  (afterNewline? (skipSpace cs)).map skipBlankLines

theorem length_continuation? {cs rest : List Char} (h : continuation? cs = some rest) :
    rest.length < cs.length := by
  obtain ⟨after, hafter, rfl⟩ := Option.map_eq_some_iff.1 h
  have h1 := length_skipBlankLines_le after
  have h2 : (skipSpace cs).length ≤ cs.length := (List.dropWhile_sublist _).length_le
  unfold afterNewline? at hafter
  split at hafter
  · rename_i tail htail
    cases hafter
    rw [htail] at h2
    simp only [List.length_cons] at h2
    omega
  · rename_i tail htail
    cases hafter
    rw [htail] at h2
    simp only [List.length_cons] at h2
    omega
  · cases hafter

/-- A string with escapes on several lines, behind its opening quotes. Up to two
quotes may stand before the closing ones. -/
def multilineBasicBody? (cs : List Char) : Option (List Char × List Char) :=
  match cs with
  | [] => none
  | '"' :: '"' :: '"' :: '"' :: '"' :: rest => some (['"', '"'], rest)
  | '"' :: '"' :: '"' :: '"' :: rest => some (['"'], rest)
  | '"' :: '"' :: '"' :: rest => some ([], rest)
  | '\r' :: '\n' :: rest => (multilineBasicBody? rest).map fun r => ('\n' :: r.1, r.2)
  | '\\' :: rest =>
      match _line : continuation? rest with
      | some tail => multilineBasicBody? tail
      | none =>
          match _escape : escape? rest with
          | some (c, tail) => (multilineBasicBody? tail).map fun r => (c :: r.1, r.2)
          | none => none
  | c :: rest =>
      if isPrintable c || c == '\n' then
        (multilineBasicBody? rest).map fun r => (c :: r.1, r.2)
      else none
termination_by cs.length
decreasing_by
  · simp only [List.length_cons]
    omega
  · have := length_continuation? ‹_›
    simp only [List.length_cons]
    omega
  · have := length_escape? ‹_›
    simp only [List.length_cons]
    omega
  · simp

/-- A string without escapes on several lines, behind its opening quotes. -/
def multilineLiteralBody? : List Char → Option (List Char × List Char)
  | [] => none
  | '\'' :: '\'' :: '\'' :: '\'' :: '\'' :: rest => some (['\'', '\''], rest)
  | '\'' :: '\'' :: '\'' :: '\'' :: rest => some (['\''], rest)
  | '\'' :: '\'' :: '\'' :: rest => some ([], rest)
  | '\r' :: '\n' :: rest => (multilineLiteralBody? rest).map fun r => ('\n' :: r.1, r.2)
  | c :: rest =>
      if isPrintable c || c == '\n' then
        (multilineLiteralBody? rest).map fun r => (c :: r.1, r.2)
      else none

/-- A string of any of the four forms. A line end right behind three opening
quotes is no part of the string. -/
def string? : List Char → Option (List Char × List Char)
  | '"' :: '"' :: '"' :: cs => multilineBasicBody? (skipNewline cs)
  | '\'' :: '\'' :: '\'' :: cs => multilineLiteralBody? (skipNewline cs)
  | '"' :: cs => basicBody? cs
  | '\'' :: cs => literalBody? cs
  | _ => none

/-! ## Numbers -/

/-- Digits behind a digit, single underscores between digits skipped. -/
def moreDigits (isDigit : Char → Bool) : List Char → List Char × List Char
  | '_' :: c :: cs =>
      if isDigit c then
        let r := moreDigits isDigit cs
        (c :: r.1, r.2)
      else ([], '_' :: c :: cs)
  | c :: cs =>
      if isDigit c then
        let r := moreDigits isDigit cs
        (c :: r.1, r.2)
      else ([], c :: cs)
  | [] => ([], [])

/-- At least one digit. -/
def digitRun? (isDigit : Char → Bool) : List Char → Option (List Char × List Char)
  | [] => none
  | c :: cs =>
      if isDigit c then
        let r := moreDigits isDigit cs
        some (c :: r.1, r.2)
      else none

/-- The digits of a decimal integer: no zero before other digits. -/
def wholeDigits? : List Char → Option (List Char × List Char)
  | '0' :: cs => some (['0'], cs)
  | cs => digitRun? Char.isDigit cs

/-- A sixty-four bit integer. -/
def int64Json? (n : Int) : Option Json :=
  if Int64.minValue.toInt ≤ n ∧ n ≤ Int64.maxValue.toInt then some (.number (.int n)) else none

/-- An integer whose digits follow a mark of their base. -/
def based? (isDigit : Char → Bool) (base : Nat) (cs : List Char) :
    Option (Json × List Char) := do
  let (ds, rest) ← digitRun? isDigit cs
  let value := ds.foldl (fun n c => n * base + (Json.Document.hexValue? c).getD 0) 0
  let json ← int64Json? value
  return (json, rest)

/-- An integer. -/
def integer? : List Char → Option (Json × List Char)
  | '0' :: 'x' :: cs => based? (fun c => (Json.Document.hexValue? c).isSome) 16 cs
  | '0' :: 'o' :: cs => based? (fun c => '0' ≤ c && c ≤ '7') 8 cs
  | '0' :: 'b' :: cs => based? (fun c => c == '0' || c == '1') 2 cs
  | cs => do
      let signed := FloatReading.takeSign cs
      let (ds, rest) ← wholeDigits? signed.2
      let n : Int := Text.natOfDigits ds
      let json ← int64Json? (if signed.1 then -n else n)
      return (json, rest)

/-- The exponent part of a float. -/
def exponent? : List Char → Option (Int × List Char)
  | [] => none
  | c :: cs =>
      if c = 'e' ∨ c = 'E' then do
        let signed := FloatReading.takeSign cs
        let (ds, rest) ← digitRun? Char.isDigit signed.2
        let n : Int := Text.natOfDigits ds
        return (if signed.1 then -n else n, rest)
      else none

/-- The places of a float. -/
def places? : List Char → Option (List Char × List Char)
  | '.' :: cs => digitRun? Char.isDigit cs
  | _ => none

/-- A float as JSON. A number too large for a float is refused. -/
def floatJson? (x : Binary64) : Option Json :=
  if x = .infinite false then none else some (.ofBinary64 x)

/-- A float with places, an exponent or both. -/
def decimalFloat? (cs : List Char) : Option (Json × List Char) := do
  let signed := FloatReading.takeSign cs
  let (whole, rest) ← wholeDigits? signed.2
  match places? rest with
  | some (places, behind) =>
      let (e, tail) := (exponent? behind).getD (0, behind)
      let digits := Text.natOfDigits (whole ++ places)
      let json ← floatJson? (.ofDecimal signed.1 digits (e - places.length))
      return (json, tail)
  | none =>
      let (e, tail) ← exponent? rest
      let json ← floatJson? (.ofDecimal signed.1 (Text.natOfDigits whole) e)
      return (json, tail)

/-- The words for infinity and for no number, with an optional sign; JSON has
neither. -/
def wordFloat? (cs : List Char) : Option (Json × List Char) :=
  match (FloatReading.takeSign cs).2 with
  | 'i' :: 'n' :: 'f' :: rest => some (.null, rest)
  | 'n' :: 'a' :: 'n' :: rest => some (.null, rest)
  | _ => none

/-! ## Dates and times -/

/-- A number of exactly `width` digits. -/
def fixedNumber? (width : Nat) (cs : List Char) : Option (Nat × List Char) :=
  let ds := cs.take width
  if ds.length = width ∧ ds.all Char.isDigit then some (Text.natOfDigits ds, cs.drop width)
  else none

/-- The text behind a character. -/
def after? (c : Char) : List Char → Option (List Char)
  | [] => none
  | d :: cs => if d = c then some cs else none

/-- A day of the calendar in its written form. -/
def date? (cs : List Char) : Option (List Char × List Char) := do
  let (year, rest) ← fixedNumber? 4 cs
  let rest ← after? '-' rest
  let (month, rest) ← fixedNumber? 2 rest
  let rest ← after? '-' rest
  let (day, rest) ← fixedNumber? 2 rest
  let date ← Date.ofParts? year month day
  return (date.chars, rest)

/-- A number of two digits below a bound, in its written form. -/
def pair? (bound : Nat) (cs : List Char) : Option (Nat × List Char) := do
  let (n, rest) ← fixedNumber? 2 cs
  if n < bound then return (n, rest) else none

/-- The places of a second: nine digits at most, without zeros at their end. -/
def secondPlaces : List Char → List Char × List Char
  | '.' :: cs =>
      let ds := cs.takeWhile Char.isDigit
      if ds.isEmpty then ([], '.' :: cs)
      else
        let kept := ((ds.take 9).reverse.dropWhile (· == '0')).reverse
        (if kept.isEmpty then [] else '.' :: kept, cs.drop ds.length)
  | cs => ([], cs)

/-- A time of day in its written form; second sixty is allowed. -/
def time? (cs : List Char) : Option (List Char × List Char) := do
  let (hour, rest) ← pair? 24 cs
  let rest ← after? ':' rest
  let (minute, rest) ← pair? 60 rest
  let rest ← after? ':' rest
  let (second, rest) ← pair? 61 rest
  let (places, tail) := secondPlaces rest
  return (Text.paddedDigits 2 hour ++ ':' :: Text.paddedDigits 2 minute ++ ':' ::
    Text.paddedDigits 2 second ++ places, tail)

/-- A distance from universal time in its written form. The distance zero has a
plus sign. -/
def offset? : List Char → Option (List Char × List Char)
  | [] => none
  | c :: cs =>
      if c = 'Z' ∨ c = 'z' then some (['Z'], cs)
      else if c = '+' ∨ c = '-' then do
        let (hours, rest) ← pair? 24 cs
        let rest ← after? ':' rest
        let (minutes, rest) ← pair? 60 rest
        let sign := if c = '-' ∧ (hours ≠ 0 ∨ minutes ≠ 0) then '-' else '+'
        return (sign :: Text.paddedDigits 2 hours ++ ':' :: Text.paddedDigits 2 minutes, rest)
      else none

/-- A date, a time, or both with an optional distance from universal time. -/
def dateTime? (cs : List Char) : Option (List Char × List Char) :=
  match date? cs with
  | none => time? cs
  | some (date, rest) =>
      match rest with
      | [] => some (date, [])
      | c :: body =>
          if c = 'T' ∨ c = 't' ∨ c = ' ' then
            match time? body with
            | none => some (date, rest)
            | some (time, behind) =>
                let (offset, tail) := (offset? behind).getD ([], behind)
                some (date ++ 'T' :: time ++ offset, tail)
          else some (date, rest)

/-! ## All scalars -/

/-- A scalar at the start of a text. -/
def scalarValue? (cs : List Char) : Option (Json × List Char) :=
  match cs with
  | 't' :: 'r' :: 'u' :: 'e' :: rest => some (.bool true, rest)
  | 'f' :: 'a' :: 'l' :: 's' :: 'e' :: rest => some (.bool false, rest)
  | _ =>
      ((string? cs).map fun r => (.string (String.ofList r.1), r.2)) <|>
        ((dateTime? cs).map fun r => (.string (String.ofList r.1), r.2)) <|>
        decimalFloat? cs <|> wordFloat? cs <|> integer? cs

end BoundSql.Toml
