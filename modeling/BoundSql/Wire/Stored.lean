import BoundSql.Backend
import BoundSql.Bind.Stored
import BoundSql.Wire

/-!
# Stored wire values and backends

The JSON forms in which wire values and names of backends are kept. Null and the
backends are strings; every other wire value is an object with one field, its
kind.
-/

namespace BoundSql

open Json (Document stringChars objectChars)

namespace Wire

/-- The stored form of a wire value. -/
def storedChars : Wire → List Char
  | .null => stringChars "Null"
  | .int n => objectChars [("Int", Text.signedDigits n.toInt)]
  | .float x => objectChars [("Float", x.storedChars)]
  | .text s => objectChars [("Text", stringChars s)]

/-- The stored form as a string. -/
def storedText (w : Wire) : String :=
  String.ofList w.storedChars

/-- A wire value from its stored form. -/
def ofStored? (d : Document) : Option Wire := do
  let (name, content) ← d.variant?
  if name = "Null" then
    if content.all Document.isNull then return .null else none
  else
    let content ← content
    if name = "Int" then content.int64?.map .int
    else if name = "Float" then content.float?.map .float
    else if name = "Text" then content.string?.map .text
    else none

/-- A wire value from the text of its stored form. -/
def ofStoredText? (cs : List Char) : Option Wire :=
  (Document.ofText? cs).bind ofStored?

end Wire

namespace Backend

/-- The stored form of a backend. -/
def storedChars (b : Backend) : List Char :=
  stringChars b.name

/-- The stored form as a string. -/
def storedText (b : Backend) : String :=
  String.ofList b.storedChars

/-- A backend from its stored form. -/
def ofStored? (d : Document) : Option Backend :=
  (d.unitVariant? false).bind ofName?

/-- A backend from the text of its stored form. -/
def ofStoredText? (cs : List Char) : Option Backend :=
  (Document.ofText? cs).bind ofStored?

end Backend

end BoundSql
