import BoundSql.Sql.Field
import BoundSql.Sql.Raw

/-!
# Boolean expressions

The trees that become conditions: comparisons of a field with binds, raw SQL,
membership of a field in a compiled query, and `and`, `or` and `not` over these.
-/

namespace BoundSql

/-- A comparison of a field with binds. Whether the number of binds fits the
operator is found out when the predicate is compiled. -/
structure Predicate where
  field : Field
  op : Operator
  binds : List Bind
  deriving Repr

namespace Predicate

/-- Equality of fields, operators and bind values. -/
def sameValue (p q : Predicate) : Bool :=
  p.field == q.field && p.op == q.op && p.binds == q.binds

instance : BEq Predicate := ⟨sameValue⟩

/-- A predicate whose operator is given by its spelling. -/
def ofSpelling (field : Field) (spelling : String) (binds : List Bind) :
    Except Error Predicate :=
  (Operator.parse spelling).map fun op => ⟨field, op, binds⟩

end Predicate

/-- Membership of a field in the rows of a compiled query. -/
structure Membership where
  field : Field
  negated : Bool
  query : Compiled
  deriving Repr

namespace Membership

/-- Equality of fields, signs and queries. -/
def sameValue (p q : Membership) : Bool :=
  p.field == q.field && p.negated == q.negated && p.query == q.query

instance : BEq Membership := ⟨sameValue⟩

end Membership

/-- A boolean expression. -/
inductive Expr where
  | predicate (p : Predicate)
  | and (left right : Expr)
  | or (left right : Expr)
  | not (inner : Expr)
  | raw (r : RawSql)
  | subquery (m : Membership)

namespace Expr

/-- Equality of trees, leaf by leaf. -/
def sameValue : Expr → Expr → Bool
  | .predicate p, .predicate q => p == q
  | .and a b, .and c d => a.sameValue c && b.sameValue d
  | .or a b, .or c d => a.sameValue c && b.sameValue d
  | .not a, .not b => a.sameValue b
  | .raw r, .raw s => r == s
  | .subquery m, .subquery n => m == n
  | _, _ => false

instance : BEq Expr := ⟨sameValue⟩

/-- Raw SQL as an expression. -/
def ofSql (sql : String) (binds : List Bind) : Except Error Expr :=
  (RawSql.ofParts sql binds).map .raw

/-- The binds that the tree carries, in the order of its text. -/
def declaredBinds : Expr → List Bind
  | .predicate p => p.binds
  | .and left right => left.declaredBinds ++ right.declaredBinds
  | .or left right => left.declaredBinds ++ right.declaredBinds
  | .not inner => inner.declaredBinds
  | .raw r => r.binds
  | .subquery m => m.query.binds

/-- Two conditions of which the first may be missing, both required. -/
def andAlso : Option Expr → Expr → Expr
  | some existing, e => .and existing e
  | none, e => e

end Expr

namespace Field

/-- A field compared with binds. -/
def compare (f : Field) (op : Operator) (binds : List Bind) : Expr :=
  .predicate ⟨f, op, binds⟩

/-- The field equals a bind. -/
def eq (f : Field) (value : Bind) : Expr := f.compare .eq [value]

/-- The field differs from a bind. -/
def neq (f : Field) (value : Bind) : Expr := f.compare .neq [value]

/-- The field is greater than a bind. -/
def gt (f : Field) (value : Bind) : Expr := f.compare .gt [value]

/-- The field is at least a bind. -/
def gte (f : Field) (value : Bind) : Expr := f.compare .gte [value]

/-- The field is less than a bind. -/
def lt (f : Field) (value : Bind) : Expr := f.compare .lt [value]

/-- The field is at most a bind. -/
def lte (f : Field) (value : Bind) : Expr := f.compare .lte [value]

/-- The field matches a pattern. -/
def like (f : Field) (pattern : Bind) : Expr := f.compare .like [pattern]

/-- The field matches a pattern in any case. -/
def ilike (f : Field) (pattern : Bind) : Expr := f.compare .ilike [pattern]

/-- The field lies between two binds. -/
def between (f : Field) (low high : Bind) : Expr := f.compare .between [low, high]

/-- The field is null. -/
def isNull (f : Field) : Expr := f.compare .isNull []

/-- The field is not null. -/
def isNotNull (f : Field) : Expr := f.compare .isNotNull []

/-- The field is one of the values. -/
def inList (f : Field) (values : List Bind) : Expr := f.compare .inList values

/-- The field is none of the values. -/
def notInList (f : Field) (values : List Bind) : Expr := f.compare .notInList values

/-- The field is in the rows of a query. -/
def inSubquery (f : Field) (query : Compiled) : Expr := .subquery ⟨f, false, query⟩

/-- The field is not in the rows of a query. -/
def notInSubquery (f : Field) (query : Compiled) : Expr := .subquery ⟨f, true, query⟩

end Field

end BoundSql
