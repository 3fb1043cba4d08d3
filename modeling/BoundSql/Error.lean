import BoundSql.ArrayLiteral
import BoundSql.Backend
import BoundSql.Calendar.Reader
import BoundSql.Decimal.Reader
import BoundSql.Operator
import BoundSql.Wire

/-!
# Errors

What can go wrong, by cause. `Error.message` is the only place that knows the
wording, and `Error.category` gives each kind of error a short stable code.

An error that reaches the library from outside as a text has a constructor
`other` in its group.
-/

namespace BoundSql

/-- Why a predicate, a fragment of SQL or a statement is refused. -/
inductive PredicateFault where
  /-- The operator takes another number of binds. -/
  | arity (op : Operator) (field : String) (expected got : Nat)
  /-- A numbered marker stands in raw SQL, whose markers are placeholders. -/
  | numberedMarker (sql : String)
  /-- A marker or a placeholder stands in the SQL of a select list. -/
  | selectListMarker (sql : String)
  /-- The numbered markers are not those from one to the number of binds. -/
  | markerGaps (sql : String) (binds : Nat)
  | insertWithoutColumns (table : String)
  | updateWithoutAssignments (table : String)
  | other (text : String)
  deriving DecidableEq, Repr

/-- Why a wire value does not decode. -/
inductive DecodeFault where
  /-- The wire value is of a kind that never decodes so. -/
  | kind (expected : String) (got : Wire)
  | boolean (text : String)
  | integer (text : String) (fault : Text.IntegerFault)
  | float (text : String) (fault : FloatFault)
  | decimal (text : String) (fault : DecimalFault)
  | decimalOfFloat (value : Binary64) (fault : DecimalFault)
  | timestamp (text : String)
  | date (text : String) (fault : Calendar.ReadingFault)
  | json (text : String)
  | array (literal : String) (fault : ArrayFault)
  | other (text : String)
  deriving DecidableEq, Repr

/-- A format of settings documents. -/
inductive DocumentFormat where
  | toml
  | json
  deriving DecidableEq, Repr

/-- Why settings are refused. -/
inductive ConfigurationFault where
  | unknownBackend (spelling : String)
  /-- The text is not a document of its format. -/
  | malformed (format : DocumentFormat)
  /-- The document is well formed and does not describe settings. -/
  | unfit (format : DocumentFormat)
  | missingFile (path : String)
  | alreadyConfigured
  | other (text : String)
  deriving DecidableEq, Repr

/-- An error of this library or of a database behind it. -/
inductive Error where
  | placeholderMismatch (placeholders binds : Nat) (sql : String)
  | unknownOperator (spelling : String)
  | invalidPredicate (fault : PredicateFault)
  | dialectMismatch (expected found : String)
  | unsupportedCapability (dialect capability : String)
  | encode (text : String)
  | decode (fault : DecodeFault)
  | configuration (fault : ConfigurationFault)
  | database (text : String)
  | io (text : String)
  deriving DecidableEq, Repr

/-- The wording of a predicate fault. -/
def PredicateFault.message : PredicateFault → String
  | .arity op field expected got =>
      op.name ++ " on " ++ field ++ " expects " ++ toString expected ++ " bind(s), got "
        ++ toString got
  | .numberedMarker sql =>
      "Raw SQL must use \x60?\x60 placeholders, not numbered markers: " ++ sql
  | .selectListMarker sql => "Select-list SQL may not contain bind placeholders: " ++ sql
  | .markerGaps sql binds =>
      "Numbered markers must be $1..=$" ++ toString binds ++ " without gaps: \x60" ++ sql
        ++ "\x60"
  | .insertWithoutColumns table =>
      "INSERT into " ++ table ++ " requires at least one column"
  | .updateWithoutAssignments table =>
      "UPDATE of " ++ table ++ " requires at least one assignment"
  | .other text => text

/-- The wording of a decode fault. -/
def DecodeFault.message : DecodeFault → String
  | .kind expected got => "Expected " ++ expected ++ ", got " ++ got.describe
  | .boolean text => "Invalid boolean '" ++ text ++ "'"
  | .integer text fault => "Invalid integer '" ++ text ++ "': " ++ fault.message
  | .float text fault => "Invalid float '" ++ text ++ "': " ++ fault.message
  | .decimal text fault => "Invalid decimal '" ++ text ++ "': " ++ fault.message
  | .decimalOfFloat value fault =>
      "Invalid decimal " ++ value.toText .plain ++ ": " ++ fault.message
  | .timestamp text => "Invalid timestamp '" ++ text ++ "'"
  | .date text fault => "Invalid date '" ++ text ++ "': " ++ fault.message
  | .json text => "Invalid JSON '" ++ text ++ "'"
  | .array literal fault => fault.message literal
  | .other text => text

/-- The name of a document format. -/
def DocumentFormat.name : DocumentFormat → String
  | .toml => "TOML"
  | .json => "JSON"

/-- The wording of a configuration fault. -/
def ConfigurationFault.message : ConfigurationFault → String
  | .unknownBackend spelling => "Unknown database backend '" ++ spelling ++ "'"
  | .malformed format => "Failed to parse " ++ format.name
  | .unfit format => "Failed to deserialize settings from " ++ format.name
  | .missingFile path =>
      "Failed to read TOML file '" ++ path ++ "': No such file or directory (os error 2)"
  | .alreadyConfigured => "Settings have already been configured"
  | .other text => text

namespace Error

/-- The short code of an error. -/
def category : Error → String
  | .placeholderMismatch .. => "placeholder_mismatch"
  | .unknownOperator _ => "unknown_operator"
  | .invalidPredicate _ => "invalid_predicate"
  | .dialectMismatch .. => "dialect_mismatch"
  | .unsupportedCapability .. => "capability"
  | .encode _ => "encode"
  | .decode _ => "decode"
  | .configuration _ => "configuration"
  | .database _ => "database"
  | .io _ => "io"

/-- The full text of an error. -/
def message : Error → String
  | .placeholderMismatch placeholders binds sql =>
      "Placeholder mismatch: " ++ toString placeholders ++ " placeholder(s) but "
        ++ toString binds ++ " bind(s) in \x60" ++ sql ++ "\x60"
  | .unknownOperator spelling => "Unknown predicate operator: " ++ spelling
  | .invalidPredicate fault => "Invalid predicate: " ++ fault.message
  | .dialectMismatch expected found =>
      "Dialect mismatch: expected " ++ expected ++ ", found " ++ found
  | .unsupportedCapability dialect capability =>
      "Unsupported capability: " ++ dialect ++ " does not support " ++ capability
  | .encode text => "Encode error: " ++ text
  | .decode fault => "Decode error: " ++ fault.message
  | .configuration fault => "Configuration error: " ++ fault.message
  | .database text => "Database error: " ++ text
  | .io text => "IO error: " ++ text

/-- Whether an error says that a backend lacks a feature. -/
def isCapability : Error → Bool
  | .unsupportedCapability .. => true
  | _ => false

/-- A fragment for one backend met another one. -/
def foreignFragment (expected found : Backend) : Error :=
  .dialectMismatch expected.name found.name

end Error

namespace Backend

/-- The error of a backend that lacks a capability. -/
def lacks (b : Backend) (c : Capability) : Error :=
  .unsupportedCapability b.name c.name

/-- Fails unless the backend has a capability. -/
def require (b : Backend) (c : Capability) : Except Error Unit :=
  if b.supports c then .ok () else .error (b.lacks c)

/-- The backend that a text spells: a name or an alias in any case, blanks
around it ignored. -/
def parse (s : String) : Except Error Backend :=
  match ofSpelling? (normalise s) with
  | some b => .ok b
  | none => .error (.configuration (.unknownBackend (normalise s)))

end Backend

/-- The operator that a text spells. -/
def Operator.parse (s : String) : Except Error Operator :=
  match Operator.ofSpelling? s with
  | some op => .ok op
  | none => .error (.unknownOperator s)

end BoundSql
