import BoundSql.Sql.Compiled
import BoundSql.Wire.Stored

/-!
# Stored compiled queries

The JSON form in which compiled queries are kept: an object with the SQL text,
the binds and the backend, or an array of the three. What is read from it goes
through `Compiled.ofParts`, so a stored query that was tampered with is refused
like any other from outside.
-/

namespace BoundSql

open Json (Document stringChars arrayChars objectChars)

/-- Why a text is not a stored query: it is not of the form, or its parts do not
fit together. -/
inductive StoredFault where
  | malformed
  | rejected (error : Error)
  deriving DecidableEq, Repr

namespace Compiled

/-- The stored form of a compiled query. -/
def storedChars (q : Compiled) : List Char :=
  objectChars [("sql", stringChars q.sql), ("binds", arrayChars (q.binds.map Bind.storedChars)),
    ("backend", q.backend.storedChars)]

/-- The stored form as a string. -/
def storedText (q : Compiled) : String :=
  String.ofList q.storedChars

/-- The documents of the text, the binds and the backend. Unknown keys are
ignored; the known ones occur once each. -/
def storedParts? : Document → Option (Document × Document × Document)
  | .array [sql, binds, backend] => some (sql, binds, backend)
  | .object fields =>
      if Document.keysRead fields then
        match Document.valuesOf "sql" fields, Document.valuesOf "binds" fields,
          Document.valuesOf "backend" fields with
        | [sql], [binds], [backend] => some (sql, binds, backend)
        | _, _, _ => none
      else none
  | _ => none

/-- Reads binds in order. -/
def storedBinds? (depth : Nat) : List Document → Option (List Bind)
  | [] => some []
  | d :: rest =>
      match Bind.ofStored? depth d with
      | some bind => (storedBinds? depth rest).map (bind :: ·)
      | none => none

/-- The text, the binds and the backend of a document, not yet checked against
each other. -/
def storedFields? (d : Document) : Option (String × List Bind × Backend) := do
  let (sql, binds, backend) ← storedParts? d
  let text ← sql.string?
  let items ← binds.items?
  let values ← storedBinds? (Document.maxDepth - 2) items
  let name ← Backend.ofStored? backend
  return (text, values, name)

/-- A compiled query from the text of its stored form. Parts that do not fit
together are reported before anything that follows the document. -/
def ofStoredText (cs : List Char) : Except StoredFault Compiled :=
  match Document.read? cs with
  | none => .error .malformed
  | some (d, rest) =>
      match storedFields? d with
      | none => .error .malformed
      | some (sql, binds, backend) =>
          match ofParts sql binds backend with
          | .error e => .error (.rejected e)
          | .ok q =>
              if (Document.skipSpace rest).isEmpty then .ok q else .error .malformed

end Compiled

end BoundSql
