import BoundSql.Sql.Compiled

/-!
# Raw SQL

A fragment of SQL with placeholders and a bind for each of them. The compiler
numbers the binds, so numbered markers are refused.
-/

namespace BoundSql

/-- A fragment of SQL with a bind for each placeholder. -/
structure RawSql where
  sql : String
  binds : List Bind
  noMarkers : Lexical.numberedMarkers sql = []
  parity : Lexical.countPlaceholders sql = binds.length

namespace RawSql

/-- Accepts a fragment without numbered markers and with a bind for each
placeholder. -/
def ofParts (sql : String) (binds : List Bind) : Except Error RawSql :=
  if hm : Lexical.numberedMarkers sql = [] then
    if hp : Lexical.countPlaceholders sql = binds.length then .ok ⟨sql, binds, hm, hp⟩
    else .error (.placeholderMismatch (Lexical.countPlaceholders sql) binds.length sql)
  else .error (.invalidPredicate (.numberedMarker sql))

/-- The byte offsets of the placeholders. -/
def offsets (raw : RawSql) : List Nat :=
  Lexical.placeholderOffsets raw.sql

/-- The texts around the placeholders, one more than there are binds. -/
def texts (raw : RawSql) : List (List Char) :=
  Lexical.splitPlaceholders (Lexical.glyphs raw.sql.toList)

theorem length_texts (raw : RawSql) : raw.texts.length = raw.binds.length + 1 := by
  rw [texts, Lexical.length_splitPlaceholders, ← raw.parity, Lexical.countPlaceholders,
    Lexical.placeholderOffsets, Lexical.length_placeholdersFrom]

/-- Equality of texts and bind values. -/
def sameValue (p q : RawSql) : Bool :=
  p.sql == q.sql && p.binds == q.binds

instance : BEq RawSql := ⟨sameValue⟩

end RawSql

end BoundSql
