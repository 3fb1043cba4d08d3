import BoundSql.Dialect

/-!
# Fields

A reference to a column, possibly of a table. The logical name appears in
messages, the column in SQL. A field can carry its written form for one backend;
a change of the column drops it.
-/

namespace BoundSql

/-- A reference to a column. -/
structure Field where
  name : String
  table : Option String
  column : String
  prepared : Option (Backend × String)
  deriving DecidableEq, Repr

namespace Field

/-- A field whose column has the field's own name. -/
def named (name : String) : Field :=
  ⟨name, none, name, none⟩

/-- A field of a table. -/
def onTable (table name : String) : Field :=
  ⟨name, some table, name, none⟩

/-- The field with another column. -/
def withColumn (f : Field) (column : String) : Field :=
  { f with column := column, prepared := none }

/-- The identifiers that the field is written with. -/
def names (f : Field) : List String :=
  f.table.toList ++ [f.column]

/-- The written form, given how identifiers are written. -/
def formWith (f : Field) (form : String → String) : String :=
  match f.table with
  | some table => form table ++ "." ++ form f.column
  | none => form f.column

/-- The prepared form for a backend, if the field carries one. -/
def preparedFor? (f : Field) (b : Backend) : Option String :=
  match f.prepared with
  | some (backend, text) => if backend = b then some text else none
  | none => none

/-- The field with its form in a dialect. -/
def prepare (f : Field) (d : Dialect) : Field × Dialect :=
  ({ f with prepared := some (d.backend, f.formWith d.form) }, d.noteAll f.names)

/-- The form of the field in a dialect: the prepared one if there is one. -/
def render (f : Field) (d : Dialect) : String × Dialect :=
  match f.preparedFor? d.backend with
  | some text => (text, d)
  | none => (f.formWith d.form, d.noteAll f.names)

/-- The prepared form, for whatever backend. -/
def qualifiedName? (f : Field) : Option String :=
  f.prepared.map (·.2)

/-- The field in messages, by its logical name. -/
def display (f : Field) : String :=
  match f.table with
  | some table => table ++ "." ++ f.name
  | none => f.name

/-- The field as a reference, by its column. -/
def describe (f : Field) : String :=
  match f.table with
  | some table => "FieldRef(" ++ table ++ "." ++ f.column ++ ")"
  | none => "FieldRef(" ++ f.column ++ ")"

end Field

end BoundSql
