/-!
# Predicate operators

The closed set of operators that compare a field with binds, their names and
spellings, and how many binds each takes.
-/

namespace BoundSql

/-- An operator between a field and binds. -/
inductive Operator where
  | eq | neq | gt | gte | lt | lte
  | like | ilike
  | between
  | isNull | isNotNull
  | inList | notInList
  deriving DecidableEq, Repr

namespace Operator

/-- All operators. -/
def all : List Operator :=
  [.eq, .neq, .gt, .gte, .lt, .lte, .like, .ilike, .between, .isNull, .isNotNull, .inList,
    .notInList]

/-- The name of an operator. -/
def name : Operator → String
  | .eq => "eq"
  | .neq => "neq"
  | .gt => "gt"
  | .gte => "gte"
  | .lt => "lt"
  | .lte => "lte"
  | .like => "like"
  | .ilike => "ilike"
  | .between => "between"
  | .isNull => "is_null"
  | .isNotNull => "is_not_null"
  | .inList => "in"
  | .notInList => "not_in"

/-- Other spellings that stand for an operator. -/
def aliases : Operator → List String
  | .eq => ["="]
  | .neq => ["ne", "!=", "<>"]
  | .gt => [">"]
  | .gte => [">="]
  | .lt => ["<"]
  | .lte => ["<="]
  | _ => []

/-- The operator with this name or alias. -/
def ofSpelling? (s : String) : Option Operator :=
  all.find? fun op => op.name == s || op.aliases.contains s

/-- The number of binds an operator takes; the list operators take any number. -/
def arity? : Operator → Option Nat
  | .isNull | .isNotNull => some 0
  | .between => some 2
  | .inList | .notInList => none
  | _ => some 1

/-- Whether an operator takes this number of binds. -/
def takes (op : Operator) (count : Nat) : Bool :=
  op.arity?.all (· == count)

end Operator

end BoundSql
