import BoundSql.Identifier
import BoundSql.Sql.Compiled

/-!
# Dialects

A backend together with the written forms of identifiers that have been used
with it. A form is computed once; from then on, or if another form was recorded
first, the recorded one is used.

Operations that write identifiers return the text and the dialect that remembers
them.
-/

namespace BoundSql

/-- A backend and the identifiers written with it. -/
structure Dialect where
  backend : Backend
  cache : QuoteCache
  deriving DecidableEq, Repr

namespace Dialect

/-- The dialect of a backend with nothing recorded. -/
def fresh (b : Backend) : Dialect := ⟨b, .empty⟩

/-- The form in which an identifier is written now. -/
def form (d : Dialect) (name : String) : String :=
  d.cache.getD name (Identifier.quoted d.backend name)

/-- Records the current form of an identifier. -/
def note (d : Dialect) (name : String) : Dialect :=
  { d with cache := d.cache.insertNew name (Identifier.quoted d.backend name) }

/-- Records identifiers in order. -/
def noteAll (d : Dialect) (names : List String) : Dialect :=
  names.foldl note d

/-- Writes an identifier. -/
def quote (d : Dialect) (name : String) : String × Dialect :=
  (d.form name, d.note name)

/-- Writes a column of a table. -/
def qualify (d : Dialect) (table column : String) : String × Dialect :=
  (d.form table ++ "." ++ d.form column, d.noteAll [table, column])

/-- Records a form for an identifier that has none, and gives the form in use. -/
def record (d : Dialect) (name form : String) : String × Dialect :=
  (d.cache.getD name form, { d with cache := d.cache.insertNew name form })

/-- Forgets all recorded forms. -/
def clear (d : Dialect) : Dialect :=
  { d with cache := .empty }

@[simp] theorem backend_note (d : Dialect) (name : String) :
    (d.note name).backend = d.backend := rfl

@[simp] theorem backend_noteAll (d : Dialect) (names : List String) :
    (d.noteAll names).backend = d.backend := by
  induction names generalizing d with
  | nil => rfl
  | cons name names ih => simpa [noteAll] using ih (d.note name)

/-- Recording identifiers does not change how any identifier is written. -/
@[simp] theorem form_note (d : Dialect) (name : String) : (d.note name).form = d.form := by
  funext other
  by_cases h : other = name
  · subst h
    simp [form, note, QuoteCache.getD, QuoteCache.find?_insertNew_self]
  · simp [form, note, QuoteCache.getD, QuoteCache.find?_insertNew_of_ne h]

@[simp] theorem form_noteAll (d : Dialect) (names : List String) :
    (d.noteAll names).form = d.form := by
  induction names generalizing d with
  | nil => rfl
  | cons name names ih =>
      have := ih (d.note name)
      simpa [noteAll] using this

@[simp] theorem form_fresh (b : Backend) (name : String) :
    (fresh b).form name = Identifier.quoted b name := rfl

end Dialect

end BoundSql
