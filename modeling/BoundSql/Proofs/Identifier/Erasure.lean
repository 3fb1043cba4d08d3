import BoundSql.Proofs.Identifier.Token
import BoundSql.Proofs.Sql.Faithful

/-!
# Statements without their names

`Statement.writtenNames` lists the names of a statement in the order in which a backend
writes them, with the repetitions: a field in a list that holds nulls is written twice, and
so is one in an order whose nulls the backend cannot place by words; a membership in the
empty list does not write its field at all. A compiled query in a statement writes the
names in its text.

`Statement.erase` is the statement with all these names empty. Two statements differ only
in their names if they are equal without them.
-/

namespace BoundSql

open Identifier (Token render namesOf tokens?)

/-! ## Compiled queries -/

namespace Compiled

/-- The tokens of the text, if its names end. -/
def tokens (q : Compiled) : List Token :=
  (tokens? q.backend.quoteChar q.sql.toList).getD []

/-- The names in the text. -/
def writtenNames (q : Compiled) : List String :=
  namesOf q.tokens

/-- The query with its names empty. -/
def erase (q : Compiled) : Compiled :=
  { q with sql := String.ofList (render q.backend.quoteChar (q.tokens.map Token.erase)) }

end Compiled

/-! ## Fields and conditions -/

/-- The field with its names empty, and not prepared. -/
def Field.erase (f : Field) : Field :=
  ⟨"", f.table.map fun _ => "", "", none⟩

namespace Predicate

/-- The predicate with its names empty. -/
def erase (p : Predicate) : Predicate :=
  { p with field := p.field.erase }

/-- The names of a predicate. -/
def writtenNames (p : Predicate) : List String :=
  match p.op with
  | .inList | .notInList =>
      if p.binds.isEmpty then []
      else if p.binds.any (·.isNull) && p.binds.any (!·.isNull) then p.field.names ++ p.field.names
      else p.field.names
  | _ => p.field.names

end Predicate

namespace Expr

/-- The expression with its names empty. -/
def erase : Expr → Expr
  | .predicate p => .predicate p.erase
  | .and left right => .and left.erase right.erase
  | .or left right => .or left.erase right.erase
  | .not inner => .not inner.erase
  | .raw r => .raw r
  | .subquery m => .subquery ⟨m.field.erase, m.negated, m.query.erase⟩

/-- The names of an expression, leaf by leaf. Raw SQL has none. -/
def writtenNames : Expr → List String
  | .predicate p => p.writtenNames
  | .and left right => left.writtenNames ++ right.writtenNames
  | .or left right => left.writtenNames ++ right.writtenNames
  | .not inner => inner.writtenNames
  | .raw _ => []
  | .subquery m => m.field.names ++ m.query.writtenNames

end Expr

/-! ## Queries -/

namespace SelectColumn

/-- The column with its names empty. -/
def erase : SelectColumn → SelectColumn
  | .star => .star
  | .field f => .field f.erase
  | .aliased f _ => .aliased f.erase ""
  | .raw sql => .raw sql

/-- The names of a column. -/
def writtenNames : SelectColumn → List String
  | .field f => f.names
  | .aliased f name => f.names ++ [name]
  | _ => []

end SelectColumn

namespace OrderBy

/-- The order with its names empty. -/
def erase (o : OrderBy) : OrderBy :=
  { o with field := o.field.erase }

/-- The names of an order. -/
def writtenNames (b : Backend) (o : OrderBy) : List String :=
  if o.nulls.isSome && !b.nullsOrdering then o.field.names ++ o.field.names else o.field.names

end OrderBy

namespace Join

/-- The join with its names empty. -/
def erase (j : Join) : Join :=
  { j with table := "", tableAlias := j.tableAlias.map fun _ => "", on := j.on.erase }

/-- The names of a join. -/
def writtenNames (j : Join) : List String :=
  j.table :: j.tableAlias.toList ++ j.on.writtenNames

end Join

namespace Cte

/-- The common table expression with its names empty. -/
def erase (c : Cte) : Cte :=
  ⟨"", c.query.erase⟩

/-- The names of a common table expression. -/
def writtenNames (c : Cte) : List String :=
  c.name :: c.query.writtenNames

end Cte

namespace Query

/-- The query with its names empty. -/
def erase (q : Query) : Query :=
  { q with
    table := ""
    columns := q.columns.map SelectColumn.erase
    condition := q.condition.map Expr.erase
    groupBy := q.groupBy.map Field.erase
    having := q.having.map Expr.erase
    joins := q.joins.map Join.erase
    orderBy := q.orderBy.map OrderBy.erase
    ctes := q.ctes.map Cte.erase }

/-- The names of a query, clause by clause. -/
def writtenNames (b : Backend) (q : Query) : List String :=
  q.ctes.flatMap (·.writtenNames) ++ q.columns.flatMap (·.writtenNames) ++
    q.table :: q.joins.flatMap (·.writtenNames) ++
    q.condition.toList.flatMap (·.writtenNames) ++ q.groupBy.flatMap (·.names) ++
    q.having.toList.flatMap (·.writtenNames) ++ q.orderBy.flatMap (·.writtenNames b)

end Query

/-! ## Statements -/

namespace Statement

/-- The statement with its names empty. -/
def erase : Statement → Statement
  | .select q => .select q.erase
  | .count q => .count q.erase
  | .condition e => .condition e.erase
  | .insert _ values returning =>
      .insert "" (values.map fun v => ("", v.2)) (returning.map fun _ => "")
  | .update _ assignments cond returning =>
      .update "" (assignments.map fun a => ("", a.2)) (cond.map Expr.erase)
        (returning.map fun _ => "")
  | .delete _ cond returning => .delete "" (cond.map Expr.erase) (returning.map fun _ => "")

/-- The names of a statement as a backend writes them. A count names the query that it
counts. -/
def writtenNames (b : Backend) : Statement → List String
  | .select q => q.writtenNames b
  | .count q => q.writtenNames b ++ ["subquery"]
  | .condition e => e.writtenNames
  | .insert table values returning => table :: values.map (·.1) ++ returning
  | .update table assignments cond returning =>
      table :: assignments.map (·.1) ++ cond.toList.flatMap (·.writtenNames) ++ returning
  | .delete table cond returning => table :: cond.toList.flatMap (·.writtenNames) ++ returning

end Statement

/-! ## Statements without raw text -/

/-- Queries compiled from statements without raw text, whose fields carry no forms but
those that their names have, and whose compiled queries are of this kind themselves. -/
inductive Compiled.RawFree : Compiled → Prop
  | compiled {b : Backend} {s : Statement} {q : Compiled}
      (hfields : ∀ f ∈ s.fields, f.Faithful) (hraws : s.raws = []) (hcolumns : s.rawColumns = [])
      (hfragments : ∀ p ∈ s.fragments, RawFree p) (hcompile : s.compile b = .ok q) : RawFree q

/-- A statement without raw text, as queries are compiled from. -/
structure Statement.RawFree (s : Statement) : Prop where
  fields : ∀ f ∈ s.fields, f.Faithful
  raws : s.raws = []
  columns : s.rawColumns = []
  fragments : ∀ p ∈ s.fragments, p.RawFree

theorem Statement.RawFree.compile {b : Backend} {s : Statement} {q : Compiled} (h : s.RawFree)
    (hcompile : s.compile b = .ok q) : q.RawFree :=
  .compiled h.fields h.raws h.columns h.fragments hcompile

end BoundSql
