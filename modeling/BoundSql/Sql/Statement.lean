import BoundSql.Sql.Piece
import BoundSql.Sql.Query

/-!
# Statements in pieces

The pieces of every statement for a backend, from fields and predicates up to
whole statements. Comparisons with null become null tests here, and features
that a backend lacks are written with what it has or become failures.
-/

namespace BoundSql

open Piece (commaSeparated)

/-! ## Fields and predicates -/

/-- The pieces of a field: its prepared form, or its identifiers. -/
def Field.pieces (b : Backend) (f : Field) : List Piece :=
  match f.preparedFor? b with
  | some text => [.text text]
  | none =>
      match f.table with
      | some table => [.name table, .text ".", .name f.column]
      | none => [.name f.column]

/-- A piece that looks up what another piece writes. -/
def Piece.mentioned? : Piece → Option Piece
  | .name ident => some (.mention ident)
  | _ => none

namespace Backend

/-- The SQL that matches a field with a pattern in any case. -/
def caseInsensitiveLike (b : Backend) (field pattern : List Piece) : List Piece :=
  if b.supports .ilike then field ++ .text " ILIKE " :: pattern
  else .text "LOWER(" :: field ++ .text ") LIKE LOWER(" :: pattern ++ [.text ")"]

/-- The words for a direction. -/
def direction (descending : Bool) : String :=
  if descending then "DESC" else "ASC"

/-- One term of an order. Where nulls cannot be placed by words, a first key says
whether the field is null. -/
def orderTerm (b : Backend) (field : List Piece) (descending : Bool)
    (nulls : Option NullsPlacement) : List Piece :=
  let plain := field ++ [.text (" " ++ direction descending)]
  match nulls with
  | none => plain
  | some placement =>
      if b.nullsOrdering then
        plain ++ [.text (if placement = .first then " NULLS FIRST" else " NULLS LAST")]
      else
        field ++ .text (" IS NULL " ++ direction (placement = .first) ++ ", ") :: plain

end Backend

/-- A comparison of a field with one bind. -/
def comparison (field : List Piece) (token : String) (value : Bind) : List Piece :=
  field ++ [.text (" " ++ token ++ " "), .bind value]

/-- The test for null, or for its contrary. -/
def nullTest (negated : Bool) (field : List Piece) : List Piece :=
  field ++ [.text (if negated then " IS NOT NULL" else " IS NULL")]

/-- The membership of a field in values none of which is null. -/
def valueList (negated : Bool) (field : List Piece) (values : List Bind) : List Piece :=
  field ++ .text (if negated then " NOT IN (" else " IN (") ::
    commaSeparated (values.map fun value => [.bind value]) ++ [.text ")"]

/-- The membership of a field in a list of binds. An empty list decides without
the field; a null among the binds becomes a null test. -/
def listTest (negated : Bool) (field : List Piece) (binds : List Bind) : List Piece :=
  let values := binds.filter (!·.isNull)
  if binds.isEmpty then
    field.filterMap Piece.mentioned? ++ [.text (if negated then "1 = 1" else "1 = 0")]
  else if values.isEmpty then nullTest negated field
  else if binds.any (·.isNull) then
    .text "(" :: valueList negated field values ++
      .text (if negated then " AND " else " OR ") :: nullTest negated field ++ [.text ")"]
  else valueList negated field values

/-- The pieces of a predicate. A number of binds that the operator does not take
is a failure. -/
def Predicate.pieces (b : Backend) (p : Predicate) : List Piece :=
  let field := p.field.pieces b
  match p.op, p.binds with
  | .eq, [x] => if x.isNull then nullTest false field else comparison field "=" x
  | .neq, [x] => if x.isNull then nullTest true field else comparison field "<>" x
  | .gt, [x] => comparison field ">" x
  | .gte, [x] => comparison field ">=" x
  | .lt, [x] => comparison field "<" x
  | .lte, [x] => comparison field "<=" x
  | .like, [x] => comparison field "LIKE" x
  | .ilike, [x] => b.caseInsensitiveLike field [.bind x]
  | .between, [low, high] =>
      field ++ [.text " BETWEEN ", .bind low, .text " AND ", .bind high]
  | .isNull, [] => nullTest false field
  | .isNotNull, [] => nullTest true field
  | .inList, binds => listTest false field binds
  | .notInList, binds => listTest true field binds
  | op, binds =>
      [.fail (.invalidPredicate
        (.arity op p.field.display (op.arity?.getD 0) binds.length))]

/-! ## Expressions -/

/-- Texts and binds in turn, beginning with a text. -/
def weave : List (List Char) → List Bind → List Piece
  | [], _ => []
  | text :: _, [] => [.text (String.ofList text)]
  | text :: texts, value :: values =>
      .text (String.ofList text) :: .bind value :: weave texts values

/-- The pieces of raw SQL. -/
def RawSql.pieces (raw : RawSql) : List Piece :=
  weave raw.texts raw.binds

/-- A compiled query as part of a statement for a backend, which has to be the
query's own. -/
def Compiled.pieces (b : Backend) (q : Compiled) : List Piece :=
  if q.backend = b then [.fragment q] else [.fail (.foreignFragment b q.backend)]

/-- The pieces of a membership in a query. -/
def Membership.pieces (b : Backend) (m : Membership) : List Piece :=
  m.field.pieces b ++ .text (if m.negated then " NOT IN (" else " IN (") ::
    m.query.pieces b ++ [.text ")"]

/-- The pieces of an expression. -/
def Expr.pieces (b : Backend) : Expr → List Piece
  | .predicate p => p.pieces b
  | .and left right =>
      .text "(" :: left.pieces b ++ .text " AND " :: right.pieces b ++ [.text ")"]
  | .or left right =>
      .text "(" :: left.pieces b ++ .text " OR " :: right.pieces b ++ [.text ")"]
  | .not inner => .text "NOT (" :: inner.pieces b ++ [.text ")"]
  | .raw r => r.pieces
  | .subquery m => m.pieces b

/-- A keyword and a condition, if there is a condition. -/
def conditionPieces (b : Backend) (keyword : String) : Option Expr → List Piece
  | none => []
  | some e => .text keyword :: e.pieces b

/-! ## Clauses of a query -/

/-- The pieces of a common table expression. -/
def Cte.pieces (b : Backend) (c : Cte) : List Piece :=
  .name c.name :: .text " AS (" :: c.query.pieces b ++ [.text ")"]

/-- Whether a text holds a marker of either style. -/
def holdsMarker (sql : String) : Bool :=
  Lexical.countPlaceholders sql != 0 || !(Lexical.numberedMarkers sql).isEmpty

theorem holdsMarker_eq_false_iff {sql : String} :
    holdsMarker sql = false ↔
      Lexical.placeholderOffsets sql = [] ∧ Lexical.numberedMarkers sql = [] := by
  simp [holdsMarker, Lexical.countPlaceholders]

/-- The pieces of a column. Raw text with a marker is a failure. -/
def SelectColumn.pieces (b : Backend) : SelectColumn → List Piece
  | .star => [.text "*"]
  | .field f => f.pieces b
  | .aliased f name => f.pieces b ++ [.text " AS ", .name name]
  | .raw sql =>
      if holdsMarker sql then [.fail (.invalidPredicate (.selectListMarker sql))]
      else [.text sql]

/-- The pieces of a join. -/
def Join.pieces (b : Backend) (j : Join) : List Piece :=
  .text (" " ++ j.kind.keyword ++ " ") :: .name j.table ::
    (match j.tableAlias with
      | some name => [.text " AS ", .name name]
      | none => []) ++ .text " ON " :: j.on.pieces b

/-- A list of clauses behind a keyword, with `stop` at its end; nothing for the
empty list. -/
def listClause (keyword stop : String) : List (List Piece) → List Piece
  | [] => []
  | items => .text keyword :: commaSeparated items ++ [.text stop]

/-- The limit and the offset. An offset needs a limit on some backends. -/
def boundsPieces (b : Backend) (limit offset : Option UInt64) : List Piece :=
  let limitText : Option String :=
    match limit, offset with
    | some n, _ => some (toString n.toNat)
    | none, some _ => b.unboundedLimit?
    | none, none => none
  (limitText.map fun n => Piece.text (" LIMIT " ++ n)).toList ++
    (offset.map fun n => Piece.text (" OFFSET " ++ toString n.toNat)).toList

/-- The pieces of a query. -/
def Query.pieces (b : Backend) (q : Query) : List Piece :=
  listClause "WITH " " " (q.ctes.map (·.pieces b)) ++
    .text "SELECT " :: (if q.distinct then [.text "DISTINCT "] else []) ++
    (if q.columns.isEmpty then [.text "*"] else commaSeparated (q.columns.map (·.pieces b))) ++
    .text " FROM " :: .name q.table :: q.joins.flatMap (·.pieces b) ++
    conditionPieces b " WHERE " q.condition ++
    listClause " GROUP BY " "" (q.groupBy.map (·.pieces b)) ++
    conditionPieces b " HAVING " q.having ++
    listClause " ORDER BY " ""
      (q.orderBy.map fun o => b.orderTerm (o.field.pieces b) o.descending o.nulls) ++
    boundsPieces b q.limit q.offset

/-! ## Statements -/

/-- The identifiers of a list, with commas between them. -/
def namePieces (names : List String) : List Piece :=
  commaSeparated (names.map fun name => [.name name])

/-- The columns to return, which some backends cannot. -/
def returningPieces (b : Backend) (returning : List String) : List Piece :=
  if returning.isEmpty then []
  else if b.supports .returning then .text " RETURNING " :: namePieces returning
  else [.fail (b.lacks .returning)]

/-- The pieces of a statement. -/
def Statement.pieces (b : Backend) : Statement → List Piece
  | .select q => q.pieces b
  | .count q =>
      .text "SELECT COUNT(*) FROM (" :: q.pieces b ++ [.text ") AS ", .name "subquery"]
  | .condition e => e.pieces b
  | .insert table values returning =>
      if values.isEmpty then [.fail (.invalidPredicate (.insertWithoutColumns table))]
      else
        .text "INSERT INTO " :: .name table :: .text " (" :: namePieces (values.map (·.1)) ++
          .text ") VALUES (" :: commaSeparated (values.map fun v => [.bind v.2]) ++
          .text ")" :: returningPieces b returning
  | .update table assignments cond returning =>
      if assignments.isEmpty then
        [.fail (.invalidPredicate (.updateWithoutAssignments table))]
      else
        .text "UPDATE " :: .name table :: .text " SET " ::
          commaSeparated (assignments.map fun a => [.name a.1, .text " = ", .bind a.2]) ++
          conditionPieces b " WHERE " cond ++ returningPieces b returning
  | .delete table cond returning =>
      .text "DELETE FROM " :: .name table :: conditionPieces b " WHERE " cond ++
        returningPieces b returning

/-! ## Compiling -/

/-- Compiles a statement in a dialect. The dialect remembers the identifiers
that were written, also when the statement fails behind them. -/
def Dialect.compile (d : Dialect) (s : Statement) : Except Error Compiled × Dialect :=
  let pieces := s.pieces d.backend
  (Piece.assemble d.form d.backend pieces, d.noteAll (Piece.names pieces))

/-- Compiles a statement for a backend. -/
def Statement.compile (b : Backend) (s : Statement) : Except Error Compiled :=
  Piece.assemble (Identifier.quoted b) b (s.pieces b)

/-- Compiles a bare condition for a backend. -/
def Expr.compile (b : Backend) (e : Expr) : Except Error Compiled :=
  Statement.compile b (.condition e)

/-- A dialect with nothing recorded compiles like its backend. -/
theorem Dialect.compile_fresh (b : Backend) (s : Statement) :
    ((Dialect.fresh b).compile s).1 = s.compile b := rfl

end BoundSql
