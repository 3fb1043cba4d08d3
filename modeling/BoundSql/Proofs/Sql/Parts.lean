import BoundSql.Sql.Query

/-!
# The parts of statements

What a statement is made of, by kind: its conditions, fields, raw SQL, compiled
fragments, identifiers and raw columns, each kind in the order of the text.
Properties of the parts are stated over these lists.

`Statement.collect` walks a statement in the order of its text and collects from
each bind that will be sent and from each compiled fragment. A comparison with null
and a list membership send no nulls (`Predicate.keptBinds`).
-/

namespace BoundSql

/-- The binds of a predicate that are sent: nulls become null tests where equality
is tested. -/
def Predicate.keptBinds (p : Predicate) : List Bind :=
  match p.op with
  | .eq | .neq | .inList | .notInList => p.binds.filter (!·.isNull)
  | _ => p.binds

namespace Expr

/-- The fields that an expression tests. -/
def fields : Expr → List Field
  | .predicate p => [p.field]
  | .and left right => left.fields ++ right.fields
  | .or left right => left.fields ++ right.fields
  | .not inner => inner.fields
  | .raw _ => []
  | .subquery m => [m.field]

/-- The raw SQL of an expression. -/
def raws : Expr → List RawSql
  | .predicate _ => []
  | .and left right => left.raws ++ right.raws
  | .or left right => left.raws ++ right.raws
  | .not inner => inner.raws
  | .raw r => [r]
  | .subquery _ => []

/-- The compiled queries that an expression tests membership in. -/
def fragments : Expr → List Compiled
  | .predicate _ => []
  | .and left right => left.fragments ++ right.fragments
  | .or left right => left.fragments ++ right.fragments
  | .not inner => inner.fragments
  | .raw _ => []
  | .subquery m => [m.query]

/-- What is collected from the binds and the fragments of an expression, leaf by
leaf from left to right. -/
def collect {α : Type} (onBind : Bind → List α) (onFragment : Compiled → List α) :
    Expr → List α
  | .predicate p => p.keptBinds.flatMap onBind
  | .and left right => left.collect onBind onFragment ++ right.collect onBind onFragment
  | .or left right => left.collect onBind onFragment ++ right.collect onBind onFragment
  | .not inner => inner.collect onBind onFragment
  | .raw r => r.binds.flatMap onBind
  | .subquery m => onFragment m.query

theorem collect_fragments (e : Expr) :
    e.collect (fun _ => []) (fun q => [q]) = e.fragments := by
  induction e with
  | predicate p => simp [collect, fragments]
  | and left right ihleft ihright => rw [collect, ihleft, ihright, fragments]
  | or left right ihleft ihright => rw [collect, ihleft, ihright, fragments]
  | not inner ih => rw [collect, ih, fragments]
  | raw r => simp [collect, fragments]
  | subquery m => rfl

end Expr

namespace SelectColumn

/-- The field of a column. -/
def field? : SelectColumn → Option Field
  | .field f => some f
  | .aliased f _ => some f
  | _ => none

/-- The name given to a column. -/
def givenName? : SelectColumn → Option String
  | .aliased _ name => some name
  | _ => none

/-- The text of a raw column. -/
def rawText? : SelectColumn → Option String
  | .raw sql => some sql
  | _ => none

end SelectColumn

namespace Query

/-- The conditions of joins, of the rows and of the groups. -/
def conditions (q : Query) : List Expr :=
  q.joins.map (·.on) ++ q.condition.toList ++ q.having.toList

/-- The fields outside conditions. -/
def ownFields (q : Query) : List Field :=
  q.columns.filterMap (·.field?) ++ q.groupBy ++ q.orderBy.map (·.field)

/-- The identifiers outside fields. -/
def identifiers (q : Query) : List String :=
  q.ctes.map (·.name) ++ q.columns.filterMap (·.givenName?) ++
    q.table :: q.joins.flatMap fun j => j.table :: j.tableAlias.toList

end Query

namespace Statement

/-- The query of a statement that selects or counts rows. -/
def query? : Statement → Option Query
  | .select q => some q
  | .count q => some q
  | _ => none

/-- The conditions of a statement. -/
def conditions : Statement → List Expr
  | .select q => q.conditions
  | .count q => q.conditions
  | .condition e => [e]
  | .insert .. => []
  | .update _ _ cond _ => cond.toList
  | .delete _ cond _ => cond.toList

/-- The fields of a statement. -/
def fields (s : Statement) : List Field :=
  s.query?.toList.flatMap (·.ownFields) ++ s.conditions.flatMap (·.fields)

/-- The raw SQL in the conditions of a statement. -/
def raws (s : Statement) : List RawSql :=
  s.conditions.flatMap (·.raws)

/-- The compiled queries in a statement. -/
def fragments (s : Statement) : List Compiled :=
  s.query?.toList.flatMap (fun q => q.ctes.map (·.query)) ++ s.conditions.flatMap (·.fragments)

/-- The texts of raw columns. -/
def rawColumns (s : Statement) : List String :=
  s.query?.toList.flatMap fun q => q.columns.filterMap (·.rawText?)

/-- The identifiers of a statement outside fields. -/
def identifiers : Statement → List String
  | .select q => q.identifiers
  | .count q => q.identifiers
  | .condition _ => []
  | .insert table values returning => table :: values.map (·.1) ++ returning
  | .update table assignments _ returning => table :: assignments.map (·.1) ++ returning
  | .delete table _ returning => table :: returning

/-- What is collected from the binds and the fragments of a statement: common table
expressions first, then conditions; assigned values before a condition. -/
def collect {α : Type} (onBind : Bind → List α) (onFragment : Compiled → List α) :
    Statement → List α
  | .select q | .count q =>
      q.ctes.flatMap (fun c => onFragment c.query) ++
        q.conditions.flatMap (·.collect onBind onFragment)
  | .condition e => e.collect onBind onFragment
  | .insert _ values _ => values.flatMap fun v => onBind v.2
  | .update _ assignments cond _ =>
      assignments.flatMap (fun a => onBind a.2) ++
        cond.toList.flatMap (·.collect onBind onFragment)
  | .delete _ cond _ => cond.toList.flatMap (·.collect onBind onFragment)

theorem collect_fragments (s : Statement) :
    s.collect (fun _ => []) (fun q => [q]) = s.fragments := by
  cases s <;>
    simp [collect, fragments, query?, conditions, Expr.collect_fragments, ← List.map_eq_flatMap]

end Statement

end BoundSql
