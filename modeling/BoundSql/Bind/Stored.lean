import BoundSql.Bind.Basic
import BoundSql.Calendar.Reader
import BoundSql.Decimal.Reader
import BoundSql.Json.Tagged

/-!
# Stored binds

The JSON form in which binds are kept: an object with the `type` of a bind and
its `value`, and inside the value of an array the `type` and the `elements`.
Decimals, timestamps and dates are strings. A float that JSON cannot hold is
written as null, which does not read back.
-/

namespace BoundSql

open Json (Document stringChars arrayChars objectChars)

/-! ## Writing -/

/-- The word null. -/
def nullChars : List Char := ['n', 'u', 'l', 'l']

/-- A float, null if it is not finite. -/
def Binary64.storedChars (x : Binary64) : List Char :=
  (Json.ofBinary64 x).chars

/-- The elements of an array, each written. -/
def BindArray.elementChars : BindArray → List (List Char)
  | .bool items => items.map (·.elim nullChars fun b => (Json.bool b).chars)
  | .int items => items.map (·.elim nullChars fun n => Text.signedDigits n.toInt)
  | .float items => items.map (·.elim nullChars Binary64.storedChars)
  | .decimal items => items.map (·.elim nullChars fun d => stringChars d.text)
  | .string items => items.map (·.elim nullChars stringChars)
  | .timestamp items => items.map (·.elim nullChars fun t => stringChars t.rfc3339)
  | .date items => items.map (·.elim nullChars fun d => stringChars d.text)

/-- The stored form of an array. -/
def BindArray.storedChars (a : BindArray) : List Char :=
  objectChars [("type", stringChars a.elementKind.name), ("elements", arrayChars a.elementChars)]

namespace Bind

/-- An object with a type and a value. -/
def typedChars (type : String) (value : List Char) : List Char :=
  objectChars [("type", stringChars type), ("value", value)]

/-- The stored form of a bind. -/
def storedChars : Bind → List Char
  | .null => objectChars [("type", stringChars "Null")]
  | .bool b => typedChars "Bool" (Json.bool b).chars
  | .int n => typedChars "Int" (Text.signedDigits n.toInt)
  | .float x => typedChars "Float" x.storedChars
  | .decimal d => typedChars "Decimal" (stringChars d.text)
  | .string s => typedChars "String" (stringChars s)
  | .timestamp t => typedChars "Timestamp" (stringChars t.rfc3339)
  | .date d => typedChars "Date" (stringChars d.text)
  | .json j => typedChars "Json" j.chars
  | .array a => typedChars "Array" a.storedChars

/-- The stored form of a bind as a string. -/
def storedText (b : Bind) : String :=
  String.ofList b.storedChars

end Bind

/-! ## Reading -/

/-- A decimal from a string in either form or from a number. -/
def Decimal.ofStored? : Document → Option Decimal
  | .string s => s.bind fun s => (Decimal.ofText s.toList).toOption
  | .number n =>
      match n.value? with
      | some (.int k) => Decimal.ofParts? (k < 0) k.natAbs 0
      | some (.float x) => (Decimal.ofPlain (FloatLayout.plain.text x)).toOption
      | none => none
  | _ => none

/-- A timestamp from a string. -/
def Timestamp.ofStored? (d : Document) : Option Timestamp :=
  d.string?.bind fun s => Calendar.readStoredTimestamp? s.toList

/-- A date from a string. -/
def Date.ofStored? (d : Document) : Option Date :=
  d.string?.bind fun s => Calendar.readStoredDate? s.toList

/-- The elements of an array of the given kind. -/
def BindArray.ofElements? (kind : ElementKind) (items : List Document) : Option BindArray :=
  match kind with
  | .bool => (Document.optionItems? Document.bool? items).map .bool
  | .int => (Document.optionItems? Document.int64? items).map .int
  | .float => (Document.optionItems? Document.float? items).map .float
  | .decimal => (Document.optionItems? Decimal.ofStored? items).map .decimal
  | .string => (Document.optionItems? Document.string? items).map .string
  | .timestamp => (Document.optionItems? Timestamp.ofStored? items).map .timestamp
  | .date => (Document.optionItems? Date.ofStored? items).map .date

/-- An array from its stored form. -/
def BindArray.ofStored? (early : Bool) (depth : Nat) (d : Document) : Option BindArray := do
  let t ← d.tagged? early (depth - 1) (ElementKind.all.map ElementKind.name) "type" "elements"
  let kind ← ElementKind.ofName? t.tag
  let content ← t.content
  let items ← content.items?
  BindArray.ofElements? kind items

namespace Bind

/-- A bind of one of the kinds that elements can have. -/
def ofScalar? (kind : ElementKind) (d : Document) : Option Bind :=
  match kind with
  | .bool => d.bool?.map .bool
  | .int => d.int64?.map .int
  | .float => d.float?.map .float
  | .decimal => (Decimal.ofStored? d).map .decimal
  | .string => d.string?.map .string
  | .timestamp => (Timestamp.ofStored? d).map .timestamp
  | .date => (Date.ofStored? d).map .date

/-- The names of the cases of a bind, in order. -/
def caseNames : List String :=
  "Null" :: ElementKind.all.map ElementKind.name ++ ["Json", "Array"]

/-- A bind from its stored form, with containers nested at most `depth` deep. -/
def ofStored? (depth : Nat) (d : Document) : Option Bind := do
  let t ← d.tagged? false (depth - 1) caseNames "type" "value"
  if t.tag = "Null" then
    if t.content.all Document.isNull then return .null else none
  else
    let content ← t.content
    if t.tag = "Json" then (content.value? (depth - 1)).map .json
    else if t.tag = "Array" then (BindArray.ofStored? t.early (depth - 1) content).map .array
    else (ElementKind.ofName? t.tag).bind (ofScalar? · content)

/-- A bind from the text of its stored form. -/
def ofStoredText? (cs : List Char) : Option Bind :=
  (Document.ofText? cs).bind (ofStored? Document.maxDepth)

end Bind

end BoundSql
