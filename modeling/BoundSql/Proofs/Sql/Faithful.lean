import BoundSql.Proofs.Sql.Pieces

/-!
# Faithful forms

A dialect is **honest** when it writes each identifier as its backend quotes it. A
field is **faithful** when the form that it carries, if any, is the form that its
identifiers have in an honest dialect.

A fresh dialect is honest, and the operations on fields make faithful fields out of
faithful fields. An honest dialect compiles like its backend
(`Dialect.compile_of_honest`).
-/

namespace BoundSql

namespace Dialect

/-- A dialect that writes each identifier as its backend quotes it. -/
def Honest (d : Dialect) : Prop :=
  d.form = Identifier.quoted d.backend

theorem honest_fresh (b : Backend) : (fresh b).Honest := rfl

/-- What an honest dialect compiles does not depend on what it remembers. -/
theorem compile_of_honest {d : Dialect} (h : d.Honest) (s : Statement) :
    (d.compile s).1 = s.compile d.backend := by
  rw [compile, Statement.compile, ← h]

end Dialect

namespace Field

/-- A field that carries no form, or the one that its backend gives it. -/
def Faithful (f : Field) : Prop :=
  ∀ p ∈ f.prepared, p.2 = f.formWith (Identifier.quoted p.1)

instance (f : Field) : Decidable f.Faithful :=
  inferInstanceAs (Decidable (∀ p ∈ f.prepared, p.2 = f.formWith (Identifier.quoted p.1)))

theorem faithful_of_prepared_none {f : Field} (h : f.prepared = none) : f.Faithful := by
  intro p hp
  rw [h] at hp
  cases hp

theorem faithful_named (name : String) : (named name).Faithful :=
  faithful_of_prepared_none rfl

theorem faithful_onTable (table name : String) : (onTable table name).Faithful :=
  faithful_of_prepared_none rfl

theorem faithful_withColumn (f : Field) (column : String) : (f.withColumn column).Faithful :=
  faithful_of_prepared_none rfl

/-- An honest dialect prepares fields faithfully. -/
theorem faithful_prepare (f : Field) {d : Dialect} (h : d.Honest) : (f.prepare d).1.Faithful := by
  rintro p ⟨⟩
  show f.formWith d.form = f.formWith (Identifier.quoted d.backend)
  rw [h]

theorem Faithful.preparedFor? {f : Field} (h : f.Faithful) {b : Backend} {text : String}
    (htext : f.preparedFor? b = some text) : text = f.formWith (Identifier.quoted b) := by
  unfold Field.preparedFor? at htext
  split at htext
  · rename_i backend prepared hp
    split at htext
    · rename_i hb
      subst hb
      rw [← Option.some.inj htext]
      exact h _ hp
    · exact absurd htext (by simp)
  · exact absurd htext (by simp)

/-- A faithful field is written by its identifiers, prepared or not. -/
theorem Faithful.written_pieces {f : Field} (h : f.Faithful) (b : Backend) (count : Nat) :
    Piece.written b count (f.pieces b) = (f.formWith (Identifier.quoted b)).toList := by
  unfold pieces
  split
  · rename_i text htext
    simp [Piece.ownText, h.preparedFor? htext]
  · unfold formWith
    cases f.table with
    | none => simp [Piece.ownText]
    | some table => simp [Piece.ownText]

/-- A field carries no binds. -/
theorem binds_pieces (f : Field) (b : Backend) : Piece.binds (f.pieces b) = [] := by
  unfold pieces
  split
  · rfl
  · cases f.table <;> rfl

end Field

end BoundSql
