import BoundSql.Bind.Basic
import BoundSql.Error
import BoundSql.Lexical.Marker
import BoundSql.Wire.Encoding

/-!
# Compiled queries

SQL text with the binds that its markers stand for, for one backend. The
compiler makes compiled queries; `Compiled.ofParts` accepts one from outside
after it has counted its markers, and for a backend with numbered markers it
also checks that each number from one to the number of binds is used.
-/

namespace BoundSql

/-- The number of markers of a style in a text. -/
def MarkerStyle.count (style : MarkerStyle) (sql : String) : Nat :=
  match style with
  | .numbered => (Lexical.numberedMarkers sql).length
  | .positional => Lexical.countPlaceholders sql

/-- SQL text with its binds. -/
structure Compiled where
  sql : String
  binds : List Bind
  backend : Backend
  deriving Repr

namespace Compiled

/-- Equality of texts, backends and bind values. -/
def sameValue (p q : Compiled) : Bool :=
  p.sql == q.sql && p.binds == q.binds && p.backend == q.backend

instance : BEq Compiled := ⟨sameValue⟩

/-- Whether every number from one to `count` is among the indices. -/
def coversNumbers (indices : List Nat) (count : Nat) : Bool :=
  (List.range' 1 count).all indices.contains

/-- The indices of the numbered markers of a text, in their order. -/
def markerIndices (sql : String) : List Nat :=
  (Lexical.numberedMarkers sql).map (·.index)

/-- Accepts SQL text and binds from outside if the markers fit the binds. -/
def ofParts (sql : String) (binds : List Bind) (backend : Backend) : Except Error Compiled :=
  let markers := backend.markerStyle.count sql
  if markers ≠ binds.length then .error (.placeholderMismatch markers binds.length sql)
  else if backend.markerStyle = .numbered ∧ !coversNumbers (markerIndices sql) binds.length then
    .error (.invalidPredicate (.markerGaps sql binds.length))
  else .ok ⟨sql, binds, backend⟩

/-- The number of markers in the text. -/
def markerCount (q : Compiled) : Nat :=
  q.backend.markerStyle.count q.sql

/-- The text as it stands behind `offset` other binds: numbered markers are
raised, placeholders need no change. -/
def rebasedSql (q : Compiled) (offset : Nat) : String :=
  match q.backend.markerStyle with
  | .numbered => Lexical.rebase q.sql offset
  | .positional => q.sql

/-- The binds as a backend sends them. It need not be the backend of the text. -/
def paramsFor (q : Compiled) (backend : Backend) : Except Error (List Wire) :=
  backend.encodeAll q.binds

/-- The binds as the query's own backend sends them. -/
def params (q : Compiled) : Except Error (List Wire) :=
  q.paramsFor q.backend

end Compiled

end BoundSql
