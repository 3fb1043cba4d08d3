import BoundSql.Binary64.Text
import BoundSql.Text.Integer

/-!
# Wire values

What a database receives for a bind, and what it sends back: null, an integer, a
float or a text.
-/

namespace BoundSql

/-- A value on the wire. -/
inductive Wire where
  | null
  | int (n : Int64)
  | float (x : Binary64)
  | text (s : String)
  deriving DecidableEq, Repr

namespace Wire

/-- Whether a wire value is null. -/
def isNull : Wire → Bool
  | .null => true
  | _ => false

/-- The text of a wire value. -/
def display : Wire → String
  | .null => "NULL"
  | .int n => Text.int64Text n
  | .float x => x.toText .plain
  | .text s => s

/-- A wire value with its kind, as messages name it. -/
def describe : Wire → String
  | .null => "Null"
  | .int n => "Int(" ++ Text.int64Text n ++ ")"
  | .float x => "Float(" ++ x.toText .tagged ++ ")"
  | .text s => "Text(\"" ++ s ++ "\")"

/-- Equality of values, floats as numbers. -/
def sameValue : Wire → Wire → Bool
  | .null, .null => true
  | .int a, .int b => a == b
  | .float a, .float b => a == b
  | .text a, .text b => a == b
  | _, _ => false

end Wire

end BoundSql
