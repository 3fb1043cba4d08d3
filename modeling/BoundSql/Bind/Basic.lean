import BoundSql.Decimal.Basic
import BoundSql.Calendar.Timestamp
import BoundSql.Json.Basic
import BoundSql.Text.Integer

/-!
# Bind values

The values that travel beside SQL text, and the kinds they have. An array holds
elements of one kind, any of which may be null.
-/

namespace BoundSql

/-- The kind of an array's elements. -/
inductive ElementKind where
  | bool | int | float | decimal | string | timestamp | date
  deriving DecidableEq, Repr

/-- The kind of a bind other than null. -/
inductive BindKind where
  | bool | int | float | decimal | string | timestamp | date | json
  | array (element : ElementKind)
  deriving DecidableEq, Repr

/-- The name of an element kind. -/
def ElementKind.name : ElementKind → String
  | .bool => "Bool"
  | .int => "Int"
  | .float => "Float"
  | .decimal => "Decimal"
  | .string => "String"
  | .timestamp => "Timestamp"
  | .date => "Date"

/-- All element kinds. -/
def ElementKind.all : List ElementKind :=
  [.bool, .int, .float, .decimal, .string, .timestamp, .date]

/-- The element kind with this name. -/
def ElementKind.ofName? (s : String) : Option ElementKind :=
  ElementKind.all.find? (·.name == s)

/-- The kind of a single element. -/
def ElementKind.toBindKind : ElementKind → BindKind
  | .bool => .bool
  | .int => .int
  | .float => .float
  | .decimal => .decimal
  | .string => .string
  | .timestamp => .timestamp
  | .date => .date

/-- The name of a kind. -/
def BindKind.name : BindKind → String
  | .bool => "Bool"
  | .int => "Int"
  | .float => "Float"
  | .decimal => "Decimal"
  | .string => "String"
  | .timestamp => "Timestamp"
  | .date => "Date"
  | .json => "Json"
  | .array element => "Array(" ++ element.name ++ ")"

/-- All kinds. -/
def BindKind.all : List BindKind :=
  ElementKind.all.map ElementKind.toBindKind ++ .json :: ElementKind.all.map .array

/-- The kind with this name. -/
def BindKind.ofName? (s : String) : Option BindKind :=
  BindKind.all.find? (·.name == s)

/-- An array of elements of one kind. -/
inductive BindArray where
  | bool (items : List (Option Bool))
  | int (items : List (Option Int64))
  | float (items : List (Option Binary64))
  | decimal (items : List (Option Decimal))
  | string (items : List (Option String))
  | timestamp (items : List (Option Timestamp))
  | date (items : List (Option Date))
  deriving DecidableEq, Repr

namespace BindArray

/-- The kind of the elements. -/
def elementKind : BindArray → ElementKind
  | .bool _ => .bool
  | .int _ => .int
  | .float _ => .float
  | .decimal _ => .decimal
  | .string _ => .string
  | .timestamp _ => .timestamp
  | .date _ => .date

/-- The number of elements, nulls included. -/
def size : BindArray → Nat
  | .bool items => items.length
  | .int items => items.length
  | .float items => items.length
  | .decimal items => items.length
  | .string items => items.length
  | .timestamp items => items.length
  | .date items => items.length

/-- Equality of values, element by element. -/
def sameValue : BindArray → BindArray → Bool
  | .bool xs, .bool ys => xs == ys
  | .int xs, .int ys => xs == ys
  | .float xs, .float ys => xs == ys
  | .decimal xs, .decimal ys => xs == ys
  | .string xs, .string ys => xs == ys
  | .timestamp xs, .timestamp ys => xs == ys
  | .date xs, .date ys => xs == ys
  | _, _ => false

instance : BEq BindArray := ⟨sameValue⟩

end BindArray

/-- A value that travels beside SQL text. -/
inductive Bind where
  | null
  | bool (b : Bool)
  | int (n : Int64)
  | float (x : Binary64)
  | decimal (d : Decimal)
  | string (s : String)
  | timestamp (t : Timestamp)
  | date (d : Date)
  | json (j : Json)
  | array (a : BindArray)
  deriving Repr, Inhabited

namespace Bind

/-- Whether a bind is null. -/
def isNull : Bind → Bool
  | .null => true
  | _ => false

/-- The kind of a bind; null has none. -/
def kind? : Bind → Option BindKind
  | .null => none
  | .bool _ => some .bool
  | .int _ => some .int
  | .float _ => some .float
  | .decimal _ => some .decimal
  | .string _ => some .string
  | .timestamp _ => some .timestamp
  | .date _ => some .date
  | .json _ => some .json
  | .array a => some (.array a.elementKind)

/-- The string of a string bind. -/
def string? : Bind → Option String
  | .string s => some s
  | _ => none

/-- The integer of an integer bind. -/
def int? : Bind → Option Int64
  | .int n => some n
  | _ => none

/-- Equality of values: floats and decimals as numbers, the rest as written. -/
def sameValue : Bind → Bind → Bool
  | .null, .null => true
  | .bool a, .bool b => a == b
  | .int a, .int b => a == b
  | .float a, .float b => a == b
  | .decimal a, .decimal b => a == b
  | .string a, .string b => a == b
  | .timestamp a, .timestamp b => a == b
  | .date a, .date b => a == b
  | .json a, .json b => a == b
  | .array a, .array b => a == b
  | _, _ => false

instance : BEq Bind := ⟨sameValue⟩

/-- The text shown for a bind. -/
def text : Bind → String
  | .null => "NULL"
  | .bool b => if b then "true" else "false"
  | .int n => Text.int64Text n
  | .float x => x.toText .plain
  | .decimal d => d.text
  | .string s => s
  | .timestamp t => t.displayText
  | .date d => d.text
  | .json j => j.text
  | .array a => "<" ++ toString a.size ++ " element array>"

@[simp] theorem isNull_iff {b : Bind} : b.isNull = true ↔ b = .null := by
  cases b <;> simp [isNull]

@[simp] theorem kind?_eq_none_iff {b : Bind} : b.kind? = none ↔ b = .null := by
  cases b <;> simp [kind?]

end Bind

end BoundSql
