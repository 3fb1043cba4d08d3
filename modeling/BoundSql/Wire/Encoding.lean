import BoundSql.Bind.Basic
import BoundSql.Error

/-!
# Binds on the wire

How each backend sends a bind. Only booleans, timestamps and arrays depend on
the backend: booleans are letters or integers, timestamps have the backend's
precision, and arrays need a backend that has them.
-/

namespace BoundSql

namespace Backend

/-- A boolean on the wire. -/
def encodeBool (b : Backend) (value : Bool) : Wire :=
  match b with
  | .postgresql => .text (if value then "t" else "f")
  | _ => .int (if value then 1 else 0)

/-- A timestamp as text. -/
def timestampText (b : Backend) (t : Timestamp) : String :=
  b.timestampLayout.text t

/-- The texts of the elements of an array. -/
def elementTexts (b : Backend) : BindArray → List (Option String)
  | .bool items => items.map (·.map fun value => (b.encodeBool value).display)
  | .int items => items.map (·.map Text.int64Text)
  | .float items => items.map (·.map fun x => x.toText .plain)
  | .decimal items => items.map (·.map Decimal.text)
  | .string items => items
  | .timestamp items => items.map (·.map b.timestampText)
  | .date items => items.map (·.map Date.text)

/-- The literal of an array. Only strings are quoted. -/
def arrayText (b : Backend) (a : BindArray) : String :=
  ArrayLiteral.render (a.elementKind == .string) (b.elementTexts a)

/-- A bind on the wire. -/
def encode (b : Backend) : Bind → Except Error Wire
  | .null => .ok .null
  | .bool value => .ok (b.encodeBool value)
  | .int n => .ok (.int n)
  | .float x => .ok (.float x)
  | .decimal d => .ok (.text d.text)
  | .string s => .ok (.text s)
  | .timestamp t => .ok (.text (b.timestampText t))
  | .date d => .ok (.text d.text)
  | .json j => .ok (.text j.text)
  | .array a =>
      match b.require .arrays with
      | .ok () => .ok (.text (b.arrayText a))
      | .error e => .error e

/-- Binds on the wire, in order; the first that cannot be sent decides. -/
def encodeAll (b : Backend) : List Bind → Except Error (List Wire)
  | [] => .ok []
  | bind :: rest =>
      match b.encode bind with
      | .error e => .error e
      | .ok wire => (b.encodeAll rest).map (wire :: ·)

end Backend

end BoundSql
