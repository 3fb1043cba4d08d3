import BoundSql.Calendar.Timestamp
import BoundSql.Lexical.Marker
import BoundSql.Text.Blank
import BoundSql.Text.Integer
import BoundSql.Text.Lowercase

/-!
# Database backends

The three backends and everything in which they differ as plain data: names,
quotes, marker styles, capabilities, timestamp layouts and the few pieces of SQL
that only some of them have.
-/

namespace BoundSql

/-- A supported database. -/
inductive Backend where
  | postgresql
  | mysql
  | sqlite
  deriving DecidableEq, Repr, Inhabited

/-- How a backend writes its bind markers: `$1`, `$2`, … or always `?`. -/
inductive MarkerStyle where
  | numbered
  | positional
  deriving DecidableEq, Repr

/-- A feature that only some backends have. -/
inductive Capability where
  | returning
  | ddlTransactions
  | advisoryLock
  | arrays
  | cursors
  | ilike
  deriving DecidableEq, Repr

/-- The name of a capability in messages. -/
def Capability.name : Capability → String
  | .returning => "RETURNING"
  | .ddlTransactions => "transactional DDL"
  | .advisoryLock => "advisory locks"
  | .arrays => "arrays"
  | .cursors => "cursors"
  | .ilike => "ILIKE"

/-- The name of a marker style. -/
def MarkerStyle.name : MarkerStyle → String
  | .numbered => "Numbered"
  | .positional => "Positional"

/-- The marker of the bind with this number, counted from one. The number is a machine word. -/
def MarkerStyle.marker (style : MarkerStyle) (index : Nat) : String :=
  match style with
  | .numbered => String.ofList ('$' :: Text.digits (Lexical.wrapIndex index))
  | .positional => "?"

namespace Backend

/-- The name of a backend. -/
def name : Backend → String
  | .postgresql => "postgresql"
  | .mysql => "mysql"
  | .sqlite => "sqlite"

/-- All backends. -/
def all : List Backend := [.postgresql, .mysql, .sqlite]

/-- The backend with exactly this name. -/
def ofName? (s : String) : Option Backend :=
  all.find? (·.name == s)

/-- A spelling of a backend without blanks around it and in lowercase, as it is
looked up. -/
def normalise (s : String) : String :=
  Text.asciiLowercase (Text.trimString s)

/-- The backend that a normalised spelling stands for. -/
def ofSpelling? (s : String) : Option Backend :=
  if s = "postgresql" ∨ s = "postgres" ∨ s = "pg" then some .postgresql
  else if s = "mysql" then some .mysql
  else if s = "sqlite" ∨ s = "sqlite3" then some .sqlite
  else none

/-- The character around identifiers. -/
def quoteChar : Backend → Char
  | .mysql => '\x60'
  | _ => '"'

/-- The style of bind markers. -/
def markerStyle : Backend → MarkerStyle
  | .postgresql => .numbered
  | _ => .positional

/-- Whether the backend has a capability. -/
def supports : Backend → Capability → Bool
  | .postgresql, _ => true
  | .mysql, .advisoryLock => true
  | .mysql, .cursors => true
  | .mysql, _ => false
  | .sqlite, .returning => true
  | .sqlite, .ddlTransactions => true
  | .sqlite, _ => false

/-- Whether `NULLS FIRST` and `NULLS LAST` are understood. -/
def nullsOrdering : Backend → Bool
  | .mysql => false
  | _ => true

/-- How timestamps are written. -/
def timestampLayout : Backend → TimestampLayout
  | .postgresql => ⟨6, "+00:00"⟩
  | .mysql => ⟨6, ""⟩
  | .sqlite => ⟨3, ""⟩

/-- The limit that stands for none, where an offset needs a limit before it. -/
def unboundedLimit? : Backend → Option String
  | .postgresql => none
  | .mysql => some "18446744073709551615"
  | .sqlite => some "-1"

/-- The statement that takes the advisory lock `key`. -/
def lockSql? (key : Int64) : Backend → Option String
  | .postgresql => some ("SELECT pg_advisory_lock(" ++ Text.int64Text key ++ ")")
  | .mysql => some ("SELECT GET_LOCK('" ++ Text.int64Text key ++ "', -1)")
  | .sqlite => none

/-- The statement that gives the advisory lock `key` back. -/
def unlockSql? (key : Int64) : Backend → Option String
  | .postgresql => some ("SELECT pg_advisory_unlock(" ++ Text.int64Text key ++ ")")
  | .mysql => some ("SELECT RELEASE_LOCK('" ++ Text.int64Text key ++ "')")
  | .sqlite => none

/-- The marker of the bind with this number, counted from one. -/
def marker (b : Backend) (index : Nat) : String :=
  b.markerStyle.marker index

end Backend

end BoundSql
