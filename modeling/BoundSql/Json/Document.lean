import BoundSql.Json.Basic

/-!
# JSON documents

The syntax tree of a JSON text, before it is decided what the text means. A
document keeps repeated keys and the digits of its numbers, and it keeps a
string with an unpaired surrogate as a string without a value: whether such
parts are faults depends on who reads them.

`Json.Document.ofText?` accepts exactly one document with white space around it;
`Json.Document.read?` accepts one at the start of a text and returns the rest.
-/

namespace BoundSql.Json

/-- A number as written. The lists hold digits. -/
structure NumberText where
  negative : Bool
  whole : List Char
  places : Option (List Char)
  exponent : Option (Bool × List Char)
  deriving DecidableEq, Repr

/-- A JSON text as a tree. A string without a value holds an unpaired
surrogate. -/
inductive Document where
  | null
  | bool (b : Bool)
  | number (n : NumberText)
  | string (s : Option String)
  | array (items : List Document)
  | object (fields : List (Option String × Document))
  deriving Repr, Inhabited

namespace Document

/-- JSON white space. -/
def isSpace (c : Char) : Bool :=
  c == ' ' || c == '\t' || c == '\n' || c == '\r'

/-- The text behind its white space. -/
def skipSpace (cs : List Char) : List Char :=
  cs.dropWhile isSpace

/-! ## Numbers -/

/-- The exponent of a number, if an `e` follows. -/
def readExponent? : List Char → Option (Option (Bool × List Char) × List Char)
  | [] => some (none, [])
  | c :: cs =>
      if c = 'e' ∨ c = 'E' then
        let (negative, rest) := FloatReading.takeSign cs
        let (ds, tail) := Text.spanDigits rest
        if ds.isEmpty then none else some (some (negative, ds), tail)
      else some (none, c :: cs)

/-- The places of a number, if a point follows. -/
def readPlaces? : List Char → Option (Option (List Char) × List Char)
  | '.' :: cs =>
      let (ds, tail) := Text.spanDigits cs
      if ds.isEmpty then none else some (some ds, tail)
  | cs => some (none, cs)

/-- A number; only the digit zero may start with a zero. -/
def readNumber? (cs : List Char) : Option (NumberText × List Char) := do
  let (negative, body) :=
    match cs with
    | '-' :: rest => (true, rest)
    | _ => (false, cs)
  let (whole, rest) := Text.spanDigits body
  if whole.isEmpty || (whole.head? = some '0' && whole.length ≠ 1) then none
  else
    let (places, behind) ← readPlaces? rest
    let (exponent, tail) ← readExponent? behind
    return (⟨negative, whole, places, exponent⟩, tail)

/-! ## Strings -/

/-- The value of a hexadecimal digit. -/
def hexValue? (c : Char) : Option Nat :=
  if c.isDigit then some (c.toNat - '0'.toNat)
  else if 'a' ≤ c ∧ c ≤ 'f' then some (c.toNat - 'a'.toNat + 10)
  else if 'A' ≤ c ∧ c ≤ 'F' then some (c.toNat - 'A'.toNat + 10)
  else none

/-- Four hexadecimal digits. -/
def hexQuad? (a b c d : Char) : Option Nat := do
  return (← hexValue? a) * 4096 + (← hexValue? b) * 256 + (← hexValue? c) * 16 + (← hexValue? d)

/-- The character of an escape of one letter. -/
def simpleEscape? (c : Char) : Option Char :=
  if c = '"' then some '"'
  else if c = '\\' then some '\\'
  else if c = '/' then some '/'
  else if c = 'b' then some (Char.ofNat 0x08)
  else if c = 'f' then some (Char.ofNat 0x0c)
  else if c = 'n' then some '\n'
  else if c = 'r' then some '\r'
  else if c = 't' then some '\t'
  else none

/-- A unit of a string: a character, or an escape by number. -/
inductive Unit where
  | char (c : Char)
  | code (n : Nat)
  deriving DecidableEq, Repr

/-- The units up to the closing quote, and the text behind it. -/
def readUnits? : List Char → Option (List Unit × List Char)
  | [] => none
  | '"' :: cs => some ([], cs)
  | '\\' :: 'u' :: a :: b :: c :: d :: cs => do
      let n ← hexQuad? a b c d
      let (units, rest) ← readUnits? cs
      return (.code n :: units, rest)
  | '\\' :: c :: cs => do
      let e ← simpleEscape? c
      let (units, rest) ← readUnits? cs
      return (.char e :: units, rest)
  | c :: cs =>
      if c = '\\' ∨ c.toNat < 0x20 then none
      else do
        let (units, rest) ← readUnits? cs
        return (.char c :: units, rest)

/-- The characters of the units: a high and a low surrogate together are one
character, alone they are none. -/
def decodeUnits? : List Unit → Option (List Char)
  | [] => some []
  | .char c :: units => (decodeUnits? units).map (c :: ·)
  | .code high :: .code low :: units =>
      if 0xd800 ≤ high ∧ high < 0xdc00 then
        if 0xdc00 ≤ low ∧ low < 0xe000 then
          (decodeUnits? units).map
            (Char.ofNat (0x10000 + (high - 0xd800) * 0x400 + (low - 0xdc00)) :: ·)
        else none
      else if 0xdc00 ≤ high ∧ high < 0xe000 then none
      else (decodeUnits? (.code low :: units)).map (Char.ofNat high :: ·)
  | .code n :: units =>
      if 0xd800 ≤ n ∧ n < 0xe000 then none
      else (decodeUnits? units).map (Char.ofNat n :: ·)

/-- A string behind its opening quote. -/
def readString? (cs : List Char) : Option (Option String × List Char) :=
  (readUnits? cs).map fun (units, rest) => ((decodeUnits? units).map String.ofList, rest)

/-! ## Documents -/

/-- The text behind a word, if it starts with it. -/
def afterWord? : List Char → List Char → Option (List Char)
  | [], cs => some cs
  | w :: ws, c :: cs => if w = c then afterWord? ws cs else none
  | _ :: _, [] => none

mutual

/-- A value. Every call takes at least one character off the text before it
calls again, so the length of the text bounds the number of nested calls. -/
def readValue? : Nat → List Char → Option (Document × List Char)
  | 0, _ => none
  | fuel + 1, cs =>
      match skipSpace cs with
      | [] => none
      | c :: rest =>
          if c = 'n' then (afterWord? ['u', 'l', 'l'] rest).map (.null, ·)
          else if c = 't' then (afterWord? ['r', 'u', 'e'] rest).map (.bool true, ·)
          else if c = 'f' then (afterWord? ['a', 'l', 's', 'e'] rest).map (.bool false, ·)
          else if c = '"' then (readString? rest).map fun (s, tail) => (.string s, tail)
          else if c = '[' then
            match skipSpace rest with
            | ']' :: tail => some (.array [], tail)
            | body => (readItems? fuel body).map fun (items, tail) => (.array items, tail)
          else if c = '{' then
            match skipSpace rest with
            | '}' :: tail => some (.object [], tail)
            | body => (readFields? fuel body).map fun (fields, tail) => (.object fields, tail)
          else (readNumber? (c :: rest)).map fun (n, tail) => (.number n, tail)

/-- One or more items and the closing bracket. -/
def readItems? : Nat → List Char → Option (List Document × List Char)
  | 0, _ => none
  | fuel + 1, cs => do
      let (item, rest) ← readValue? fuel cs
      match skipSpace rest with
      | ']' :: tail => return ([item], tail)
      | ',' :: tail =>
          let (items, final) ← readItems? fuel tail
          return (item :: items, final)
      | _ => none

/-- One or more fields and the closing brace. -/
def readFields? : Nat → List Char → Option (List (Option String × Document) × List Char)
  | 0, _ => none
  | fuel + 1, cs =>
      match skipSpace cs with
      | '"' :: rest => do
          let (key, behind) ← readString? rest
          match skipSpace behind with
          | ':' :: body =>
              let (value, after) ← readValue? fuel body
              match skipSpace after with
              | '}' :: tail => return ([(key, value)], tail)
              | ',' :: tail =>
                  let (fields, final) ← readFields? fuel tail
                  return ((key, value) :: fields, final)
              | _ => none
          | _ => none
      | _ => none

end

/-- The document at the start of a text, and the text behind it. -/
def read? (cs : List Char) : Option (Document × List Char) :=
  readValue? (2 * cs.length + 2) cs

/-- The document that a text is. -/
def ofText? (cs : List Char) : Option Document :=
  (read? cs).bind fun (d, rest) => if (skipSpace rest).isEmpty then some d else none

end Document

end BoundSql.Json
