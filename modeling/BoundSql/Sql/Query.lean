import BoundSql.Sql.Expr

/-!
# Statements

The shapes of the statements that can be compiled. A `Query` describes a
`SELECT`; its conditions grow by `filter` and `whenGrouped`, which join a new
condition to the present one.
-/

namespace BoundSql

/-- Where nulls stand in an order. -/
inductive NullsPlacement where
  | first
  | last
  deriving DecidableEq, Repr

/-- An order by a field. -/
structure OrderBy where
  field : Field
  descending : Bool := false
  nulls : Option NullsPlacement := none
  deriving DecidableEq, Repr

/-- A column of a select list. -/
inductive SelectColumn where
  | star
  | field (f : Field)
  | aliased (f : Field) (name : String)
  /-- SQL text, which may not hold markers. -/
  | raw (sql : String)
  deriving DecidableEq, Repr

/-- The kinds of joins. -/
inductive JoinKind where
  | inner | left | right
  deriving DecidableEq, Repr

/-- The words of a kind of join. -/
def JoinKind.keyword : JoinKind → String
  | .inner => "INNER JOIN"
  | .left => "LEFT JOIN"
  | .right => "RIGHT JOIN"

/-- A joined table and its condition. -/
structure Join where
  kind : JoinKind
  table : String
  tableAlias : Option String
  on : Expr

/-- A compiled query under a name. -/
structure Cte where
  name : String
  query : Compiled
  deriving Repr

/-- The shape of a `SELECT`. An empty column list stands for all columns. -/
structure Query where
  table : String
  columns : List SelectColumn := []
  condition : Option Expr := none
  groupBy : List Field := []
  having : Option Expr := none
  joins : List Join := []
  orderBy : List OrderBy := []
  limit : Option UInt64 := none
  offset : Option UInt64 := none
  ctes : List Cte := []
  distinct : Bool := false

namespace Query

/-- The query for the rows that also meet a condition. -/
def filter (q : Query) (e : Expr) : Query :=
  { q with condition := some (Expr.andAlso q.condition e) }

/-- The query for the groups that also meet a condition. -/
def whenGrouped (q : Query) (e : Expr) : Query :=
  { q with having := some (Expr.andAlso q.having e) }

/-- The query with this text as its whole select list. -/
def overrideColumns (q : Query) (sql : String) : Query :=
  { q with columns := [.raw sql] }

end Query

/-- A statement. `condition` is a bare condition, without a statement around it. -/
inductive Statement where
  | select (q : Query)
  | count (q : Query)
  | condition (e : Expr)
  | insert (table : String) (values : List (String × Bind)) (returning : List String)
  | update (table : String) (assignments : List (String × Bind)) (condition : Option Expr)
      (returning : List String)
  | delete (table : String) (condition : Option Expr) (returning : List String)

end BoundSql
