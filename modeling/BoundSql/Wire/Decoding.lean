import BoundSql.Bind.Basic
import BoundSql.Decimal.Binary
import BoundSql.Error
import BoundSql.Json.Reader

/-!
# Wire values as binds

How a backend's answer is read as a bind of a wanted kind. Texts are read
without the blanks around them, and a message repeats the text as it came, save
for timestamps, which are repeated without their blanks.

A null on the wire is the null bind, whatever kind is wanted.
-/

namespace BoundSql

namespace Wire

/-- The spellings of truth, in lowercase. -/
def trueSpellings : List String := ["t", "true", "1", "y", "yes", "on"]

/-- The spellings of falsehood, in lowercase. -/
def falseSpellings : List String := ["f", "false", "0", "n", "no", "off"]

/-- Reads a boolean from text. -/
def decodeBoolText (s : String) : Except Error Bool :=
  let word := Text.asciiLowercase (Text.trimString s)
  if word ∈ trueSpellings then .ok true
  else if word ∈ falseSpellings then .ok false
  else .error (.decode (.boolean s))

/-- Reads a boolean from text or from zero or one. -/
def decodeBool (wire : Wire) : Except Error Bool :=
  match wire with
  | .text s => decodeBoolText s
  | .int n =>
      if n = 0 then .ok false
      else if n = 1 then .ok true
      else .error (.decode (.kind "boolean" wire))
  | _ => .error (.decode (.kind "boolean" wire))

/-- Reads an integer from text. -/
def decodeIntText (s : String) : Except Error Int64 :=
  (Text.readInt64 (Text.trim s.toList)).mapError fun fault => .decode (.integer s fault)

/-- Reads an integer. -/
def decodeInt (wire : Wire) : Except Error Int64 :=
  match wire with
  | .int n => .ok n
  | .text s => decodeIntText s
  | _ => .error (.decode (.kind "integer" wire))

/-- Reads a float from text. -/
def decodeFloatText (s : String) : Except Error Binary64 :=
  (Binary64.ofText (Text.trim s.toList)).mapError fun fault => .decode (.float s fault)

/-- Reads a float; an integer becomes the nearest one. -/
def decodeFloat (wire : Wire) : Except Error Binary64 :=
  match wire with
  | .float x => .ok x
  | .int n => .ok (.ofInt n.toInt)
  | .text s => decodeFloatText s
  | .null => .error (.decode (.kind "float" wire))

/-- Reads a decimal from text. -/
def decodeDecimalText (s : String) : Except Error Decimal :=
  (Decimal.ofText (Text.trim s.toList)).mapError fun fault => .decode (.decimal s fault)

/-- Reads a decimal. -/
def decodeDecimal (wire : Wire) : Except Error Decimal :=
  match wire with
  | .int n => .ok (.ofInt64 n)
  | .float x =>
      (Decimal.ofBinary64 x).mapError fun fault => .decode (.decimalOfFloat x fault)
  | .text s => decodeDecimalText s
  | .null => .error (.decode (.kind "decimal" wire))

/-- Reads a timestamp from text. -/
def decodeTimestampText (s : String) : Except Error Timestamp :=
  match Calendar.readTimestamp? (Text.trim s.toList) with
  | some t => .ok t
  | none => .error (.decode (.timestamp (Text.trimString s)))

/-- Reads a timestamp, which is always text. -/
def decodeTimestamp (wire : Wire) : Except Error Timestamp :=
  match wire with
  | .text s => decodeTimestampText s
  | _ => .error (.decode (.kind "timestamp" wire))

/-- Reads a date from text. -/
def decodeDateText (s : String) : Except Error Date :=
  (Calendar.readDate (Text.trim s.toList)).mapError fun fault => .decode (.date s fault)

/-- Reads a date, which is always text. -/
def decodeDate (wire : Wire) : Except Error Date :=
  match wire with
  | .text s => decodeDateText s
  | _ => .error (.decode (.kind "date" wire))

/-- Reads a JSON value; a number that came as such is a value by itself. -/
def decodeJson (wire : Wire) : Except Error Json :=
  match wire with
  | .int n => .ok (.number (.int n.toInt))
  | .float x => .ok (.ofBinary64 x)
  | .text s =>
      match Json.ofText? s.toList with
      | some j => .ok j
      | none => .error (.decode (.json s))
  | .null => .error (.decode (.kind "JSON" wire))

/-- Reads elements in order, nulls as nulls; the first fault decides. -/
def decodeElements {α : Type} (read : String → Except Error α) :
    List (Option String) → Except Error (List (Option α))
  | [] => .ok []
  | none :: rest => (decodeElements read rest).map (none :: ·)
  | some s :: rest =>
      match read s with
      | .error e => .error e
      | .ok value => (decodeElements read rest).map (some value :: ·)

/-- Reads the elements of an array from their texts. -/
def decodeArray (kind : ElementKind) (texts : List (Option String)) : Except Error BindArray :=
  match kind with
  | .bool => (decodeElements decodeBoolText texts).map .bool
  | .int => (decodeElements decodeIntText texts).map .int
  | .float => (decodeElements decodeFloatText texts).map .float
  | .decimal => (decodeElements decodeDecimalText texts).map .decimal
  | .string => .ok (.string texts)
  | .timestamp => (decodeElements decodeTimestampText texts).map .timestamp
  | .date => (decodeElements decodeDateText texts).map .date

/-- Reads an array from its literal. -/
def decodeArrayText (kind : ElementKind) (literal : String) : Except Error BindArray :=
  match ArrayLiteral.parse literal with
  | .ok texts => decodeArray kind texts
  | .error fault => .error (.decode (.array literal fault))

/-- Reads a wire value other than null as a bind of a kind other than array. -/
def decodeScalar (wire : Wire) : BindKind → Except Error Bind
  | .bool => wire.decodeBool.map .bool
  | .int => wire.decodeInt.map .int
  | .float => wire.decodeFloat.map .float
  | .decimal => wire.decodeDecimal.map .decimal
  | .string => .ok (.string wire.display)
  | .timestamp => wire.decodeTimestamp.map .timestamp
  | .date => wire.decodeDate.map .date
  | .json => wire.decodeJson.map .json
  | .array _ => .error (.decode (.kind "array literal" wire))

end Wire

/-- Reads a wire value as a bind of the wanted kind. -/
def Backend.decode (b : Backend) (kind : BindKind) (wire : Wire) : Except Error Bind :=
  match kind, wire with
  | .array element, wire =>
      match b.require .arrays with
      | .error e => .error e
      | .ok () =>
          match wire with
          | .null => .ok .null
          | .text literal => (Wire.decodeArrayText element literal).map .array
          | other => .error (.decode (.kind "array literal" other))
  | _, .null => .ok .null
  | kind, wire => wire.decodeScalar kind

end BoundSql
