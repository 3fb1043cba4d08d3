import BoundSql.Proofs.Sql.Pieces

/-!
# Values stay out of the text

Replacing the bind values of a statement by others changes nothing in its SQL text,
in its outcome or in what the dialect remembers; the binds of the result are the
replaced ones, in the same places. The only thing that compiling looks at in a value
is whether it is null, since comparisons with null become null tests
(`Dialect.compile_mapBinds`).

The replacement commutes with each step: the pieces of the new statement are the
pieces of the old one with their binds replaced (`Statement.pieces_mapBinds`), and
text, names and failures of pieces do not depend on the values
(`Piece.assemble_mapBinds`).
-/

namespace BoundSql

/-! ## Replacing values -/

/-- The query with each bind replaced. -/
def Compiled.mapBinds (f : Bind → Bind) (q : Compiled) : Compiled :=
  { q with binds := q.binds.map f }

/-- The raw SQL with each bind replaced. -/
def RawSql.mapBinds (f : Bind → Bind) (raw : RawSql) : RawSql :=
  ⟨raw.sql, raw.binds.map f, raw.noMarkers, by rw [List.length_map]; exact raw.parity⟩

/-- The predicate with each bind replaced. -/
def Predicate.mapBinds (f : Bind → Bind) (p : Predicate) : Predicate :=
  { p with binds := p.binds.map f }

/-- The membership in the query with each bind replaced. -/
def Membership.mapBinds (f : Bind → Bind) (m : Membership) : Membership :=
  { m with query := m.query.mapBinds f }

/-- The expression with each bind replaced, also in its fragments. -/
def Expr.mapBinds (f : Bind → Bind) : Expr → Expr
  | .predicate p => .predicate (p.mapBinds f)
  | .and left right => .and (left.mapBinds f) (right.mapBinds f)
  | .or left right => .or (left.mapBinds f) (right.mapBinds f)
  | .not inner => .not (inner.mapBinds f)
  | .raw r => .raw (r.mapBinds f)
  | .subquery m => .subquery (m.mapBinds f)

/-- The join with each bind of its condition replaced. -/
def Join.mapBinds (f : Bind → Bind) (j : Join) : Join :=
  { j with on := j.on.mapBinds f }

/-- The common table expression with each bind replaced. -/
def Cte.mapBinds (f : Bind → Bind) (c : Cte) : Cte :=
  { c with query := c.query.mapBinds f }

/-- The query with each bind replaced. -/
def Query.mapBinds (f : Bind → Bind) (q : Query) : Query :=
  { q with
    condition := q.condition.map (Expr.mapBinds f)
    having := q.having.map (Expr.mapBinds f)
    joins := q.joins.map (Join.mapBinds f)
    ctes := q.ctes.map (Cte.mapBinds f) }

/-- The statement with each bind replaced: assigned values, conditions and
fragments. -/
def Statement.mapBinds (f : Bind → Bind) : Statement → Statement
  | .select q => .select (q.mapBinds f)
  | .count q => .count (q.mapBinds f)
  | .condition e => .condition (e.mapBinds f)
  | .insert table values returning =>
      .insert table (values.map fun v => (v.1, f v.2)) returning
  | .update table assignments cond returning =>
      .update table (assignments.map fun a => (a.1, f a.2)) (cond.map (Expr.mapBinds f)) returning
  | .delete table cond returning => .delete table (cond.map (Expr.mapBinds f)) returning

namespace Piece

/-- The piece with each bind replaced. -/
def mapBinds (f : Bind → Bind) : Piece → Piece
  | .bind value => .bind (f value)
  | .fragment q => .fragment (q.mapBinds f)
  | p => p

variable {f : Bind → Bind}

/-! ## Views of replaced pieces -/

theorem ownBinds_mapBinds (p : Piece) : (p.mapBinds f).ownBinds = p.ownBinds.map f := by
  cases p <;> rfl

theorem binds_mapBinds (ps : List Piece) :
    binds (ps.map (mapBinds f)) = (binds ps).map f := by
  induction ps with
  | nil => rfl
  | cons p ps ih => simp [ih, ownBinds_mapBinds]

theorem failure?_mapBinds (ps : List Piece) :
    failure? (ps.map (mapBinds f)) = failure? ps := by
  induction ps with
  | nil => rfl
  | cons p ps ih =>
      rw [List.map_cons, failure?_cons, failure?_cons, ih]
      cases p <;> rfl

theorem names_mapBinds (ps : List Piece) : names (ps.map (mapBinds f)) = names ps := by
  induction ps with
  | nil => rfl
  | cons p ps ih => cases p <;> simp [names, mapBinds, ih]

/-- A marker says the number of its bind, never its value. -/
theorem chars_mapBinds (form : String → String) (b : Backend) (count : Nat) (ps : List Piece) :
    chars form b count (ps.map (mapBinds f)) = chars form b count ps := by
  induction ps generalizing count with
  | nil => rfl
  | cons p ps ih =>
      have hown : (p.mapBinds f).ownText form b count = p.ownText form b count := by
        cases p <;> rfl
      rw [List.map_cons, chars_cons, chars_cons, hown, ownBinds_mapBinds, List.length_map, ih]

theorem assemble_mapBinds (form : String → String) (b : Backend) (ps : List Piece) :
    assemble form b (ps.map (mapBinds f)) = (assemble form b ps).map (Compiled.mapBinds f) := by
  unfold assemble
  rw [failure?_mapBinds, chars_mapBinds, binds_mapBinds]
  cases failure? ps <;> rfl

theorem map_commaSeparated (lists : List (List Piece)) :
    (commaSeparated lists).map (mapBinds f) =
      commaSeparated (lists.map (List.map (mapBinds f))) := by
  fun_induction commaSeparated lists with
  | case1 => rfl
  | case2 ps => rfl
  | case3 ps rest hrest ih =>
      obtain ⟨qs, rest, rfl⟩ := List.exists_cons_of_ne_nil hrest
      rw [List.map_append, List.map_cons, ih]
      rfl

end Piece

open Piece (commaSeparated map_commaSeparated)

/-! ## Predicates -/

section Replaced

variable {f : Bind → Bind} {b : Backend} {field : List Piece}

/-- Pieces without binds stay as they are. -/
theorem Field.map_pieces (b : Backend) (fd : Field) :
    (fd.pieces b).map (Piece.mapBinds f) = fd.pieces b := by
  unfold pieces
  split
  · rfl
  · cases fd.table <;> rfl

theorem map_nullTest (hfield : field.map (Piece.mapBinds f) = field) (negated : Bool) :
    (nullTest negated field).map (Piece.mapBinds f) = nullTest negated field := by
  rw [nullTest, List.map_append, hfield]
  rfl

theorem map_comparison (hfield : field.map (Piece.mapBinds f) = field) (token : String)
    (value : Bind) :
    (comparison field token value).map (Piece.mapBinds f) = comparison field token (f value) := by
  rw [comparison, List.map_append, hfield]
  rfl

theorem map_valueList (hfield : field.map (Piece.mapBinds f) = field) (negated : Bool)
    (values : List Bind) :
    (valueList negated field values).map (Piece.mapBinds f) =
      valueList negated field (values.map f) := by
  simp [valueList, hfield, map_commaSeparated, Piece.mapBinds, Function.comp_def]

/-- The nulls of a list stay in their places, so the list is tested in the same
way. -/
theorem map_listTest (hf : ∀ value, (f value).isNull = value.isNull)
    (hfield : field.map (Piece.mapBinds f) = field) (negated : Bool) (binds : List Bind) :
    (listTest negated field binds).map (Piece.mapBinds f) =
      listTest negated field (binds.map f) := by
  have hmentions : (field.filterMap Piece.mentioned?).map (Piece.mapBinds f) =
      field.filterMap Piece.mentioned? := by
    rw [List.map_filterMap]
    refine List.filterMap_congr fun p _ => ?_
    cases p <;> rfl
  have hvalues : (binds.map f).filter (!·.isNull) = (binds.filter (!·.isNull)).map f := by
    rw [List.filter_map]
    simp [Function.comp_def, hf]
  have hany : (binds.map f).any (·.isNull) = binds.any (·.isNull) := by
    simp [List.any_map, Function.comp_def, hf]
  unfold listTest
  simp only [List.isEmpty_map, hvalues, hany]
  split
  · simp [hmentions, Piece.mapBinds]
  · split
    · exact map_nullTest hfield negated
    · split
      · simp [map_valueList hfield, map_nullTest hfield, Piece.mapBinds]
      · exact map_valueList hfield negated _

theorem Predicate.pieces_mapBinds (hf : ∀ value, (f value).isNull = value.isNull)
    (p : Predicate) : (p.mapBinds f).pieces b = (p.pieces b).map (Piece.mapBinds f) := by
  obtain ⟨fd, op, binds⟩ := p
  have hfield := fd.map_pieces (f := f) b
  cases htakes : op.takes binds.length with
  | false =>
      have htakes' : op.takes (binds.map f).length = false := by rwa [List.length_map]
      rw [pieces_of_not_takes (p := ⟨fd, op, binds⟩) htakes, mapBinds, pieces_of_not_takes htakes']
      simp [Piece.mapBinds]
  | true =>
      have harity := fun n => Operator.length_of_takes (n := n) htakes
      cases op with
      | inList => exact (map_listTest hf hfield false binds).symm
      | notInList => exact (map_listTest hf hfield true binds).symm
      | isNull =>
          obtain rfl := List.length_eq_zero_iff.mp (harity 0 rfl)
          exact (map_nullTest hfield false).symm
      | isNotNull =>
          obtain rfl := List.length_eq_zero_iff.mp (harity 0 rfl)
          exact (map_nullTest hfield true).symm
      | between =>
          obtain ⟨low, high, rfl⟩ := List.length_eq_two.mp (harity 2 rfl)
          simp [pieces, mapBinds, hfield, Piece.mapBinds]
      | ilike =>
          obtain ⟨value, rfl⟩ := List.length_eq_one_iff.mp (harity 1 rfl)
          simp only [pieces, mapBinds, List.map_cons, List.map_nil, Backend.caseInsensitiveLike]
          split <;> simp [hfield, Piece.mapBinds]
      | eq =>
          obtain ⟨value, rfl⟩ := List.length_eq_one_iff.mp (harity 1 rfl)
          simp only [pieces, mapBinds, List.map_cons, List.map_nil, hf]
          split
          · exact (map_nullTest hfield false).symm
          · exact (map_comparison hfield _ _).symm
      | neq =>
          obtain ⟨value, rfl⟩ := List.length_eq_one_iff.mp (harity 1 rfl)
          simp only [pieces, mapBinds, List.map_cons, List.map_nil, hf]
          split
          · exact (map_nullTest hfield true).symm
          · exact (map_comparison hfield _ _).symm
      | gt | gte | lt | lte | like =>
          obtain ⟨value, rfl⟩ := List.length_eq_one_iff.mp (harity 1 rfl)
          exact (map_comparison hfield _ _).symm

/-! ## Expressions -/

theorem map_weave (texts : List (List Char)) (values : List Bind) :
    (weave texts values).map (Piece.mapBinds f) = weave texts (values.map f) := by
  fun_induction weave texts values with
  | case1 values => rfl
  | case2 text rest => rfl
  | case3 text texts value values ih => simp [weave, Piece.mapBinds, ih]

theorem Compiled.pieces_mapBinds (q : Compiled) :
    (q.mapBinds f).pieces b = (q.pieces b).map (Piece.mapBinds f) := by
  unfold Compiled.pieces
  split
  · rename_i hb
    rw [if_pos (show q.backend = b from hb)]
    rfl
  · rename_i hb
    rw [if_neg (show q.backend ≠ b from hb)]
    rfl

theorem Membership.pieces_mapBinds (m : Membership) :
    (m.mapBinds f).pieces b = (m.pieces b).map (Piece.mapBinds f) := by
  simp only [Membership.pieces, Membership.mapBinds, Compiled.pieces_mapBinds, List.map_append,
    List.map_cons, Field.map_pieces]
  rfl

theorem Expr.pieces_mapBinds (hf : ∀ value, (f value).isNull = value.isNull) (e : Expr) :
    (e.mapBinds f).pieces b = (e.pieces b).map (Piece.mapBinds f) := by
  induction e with
  | predicate p => exact Predicate.pieces_mapBinds hf p
  | and left right ihleft ihright => simp [mapBinds, pieces, ihleft, ihright, Piece.mapBinds]
  | or left right ihleft ihright => simp [mapBinds, pieces, ihleft, ihright, Piece.mapBinds]
  | not inner ih => simp [mapBinds, pieces, ih, Piece.mapBinds]
  | raw r => exact (map_weave r.texts r.binds).symm
  | subquery m => exact m.pieces_mapBinds

theorem conditionPieces_mapBinds (hf : ∀ value, (f value).isNull = value.isNull)
    (keyword : String) (cond : Option Expr) :
    conditionPieces b keyword (cond.map (Expr.mapBinds f)) =
      (conditionPieces b keyword cond).map (Piece.mapBinds f) := by
  cases cond with
  | none => rfl
  | some e => simp [conditionPieces, Expr.pieces_mapBinds hf, Piece.mapBinds]

/-! ## Queries and statements -/

theorem map_listClause (keyword stop : String) (items : List (List Piece)) :
    (listClause keyword stop items).map (Piece.mapBinds f) =
      listClause keyword stop (items.map (List.map (Piece.mapBinds f))) := by
  cases items with
  | nil => rfl
  | cons ps items => simp [listClause, map_commaSeparated, Piece.mapBinds]

theorem Cte.pieces_mapBinds (c : Cte) :
    (c.mapBinds f).pieces b = (c.pieces b).map (Piece.mapBinds f) := by
  simp [Cte.pieces, Cte.mapBinds, Compiled.pieces_mapBinds, Piece.mapBinds]

theorem Join.pieces_mapBinds (hf : ∀ value, (f value).isNull = value.isNull) (j : Join) :
    (j.mapBinds f).pieces b = (j.pieces b).map (Piece.mapBinds f) := by
  unfold Join.pieces
  cases halias : j.tableAlias <;>
    simp [Join.mapBinds, halias, Expr.pieces_mapBinds hf, Piece.mapBinds]

theorem SelectColumn.map_pieces (c : SelectColumn) :
    (c.pieces b).map (Piece.mapBinds f) = c.pieces b := by
  cases c with
  | star => rfl
  | field fd => exact fd.map_pieces b
  | aliased fd name => simp [pieces, fd.map_pieces, Piece.mapBinds]
  | raw sql =>
      simp only [pieces]
      split <;> rfl

theorem Backend.map_orderTerm (hfield : field.map (Piece.mapBinds f) = field) (descending : Bool)
    (nulls : Option NullsPlacement) :
    (b.orderTerm field descending nulls).map (Piece.mapBinds f) =
      b.orderTerm field descending nulls := by
  unfold Backend.orderTerm
  cases nulls with
  | none => simp [hfield, Piece.mapBinds]
  | some placement =>
      simp only []
      split <;> simp [hfield, Piece.mapBinds]

theorem map_boundsPieces (limit offset : Option UInt64) :
    (boundsPieces b limit offset).map (Piece.mapBinds f) = boundsPieces b limit offset := by
  refine (List.map_congr_left fun p hp => ?_).trans (List.map_id _)
  obtain ⟨s, rfl⟩ := text_of_mem_boundsPieces hp
  rfl

theorem map_namePieces (names : List String) :
    (namePieces names).map (Piece.mapBinds f) = namePieces names := by
  simp [namePieces, map_commaSeparated, Piece.mapBinds, Function.comp_def]

theorem map_returningPieces (returning : List String) :
    (returningPieces b returning).map (Piece.mapBinds f) = returningPieces b returning := by
  unfold returningPieces
  split
  · rfl
  · split
    · simp [map_namePieces, Piece.mapBinds]
    · rfl

theorem Query.pieces_mapBinds (hf : ∀ value, (f value).isNull = value.isNull) (q : Query) :
    (q.mapBinds f).pieces b = (q.pieces b).map (Piece.mapBinds f) := by
  have hctes : (q.ctes.map (Cte.mapBinds f)).map (·.pieces b) =
      (q.ctes.map (·.pieces b)).map (List.map (Piece.mapBinds f)) := by
    simp [Function.comp_def, Cte.pieces_mapBinds]
  have hjoins : (q.joins.map (Join.mapBinds f)).flatMap (·.pieces b) =
      (q.joins.flatMap (·.pieces b)).map (Piece.mapBinds f) := by
    simp [List.flatMap_map, List.map_flatMap, Join.pieces_mapBinds hf]
  have hdistinct : (if q.distinct then [Piece.text "DISTINCT "] else []).map (Piece.mapBinds f) =
      if q.distinct then [.text "DISTINCT "] else [] := by
    split <;> rfl
  have hcolumns : (if q.columns.isEmpty then [Piece.text "*"]
      else commaSeparated (q.columns.map (·.pieces b))).map (Piece.mapBinds f) =
        if q.columns.isEmpty then [.text "*"]
        else commaSeparated (q.columns.map (·.pieces b)) := by
    split
    · rfl
    · simp [map_commaSeparated, Function.comp_def, SelectColumn.map_pieces]
  have hgroup : (q.groupBy.map (·.pieces b)).map (List.map (Piece.mapBinds f)) =
      q.groupBy.map (·.pieces b) := by
    simp [Function.comp_def, Field.map_pieces]
  have horder : (q.orderBy.map fun o => b.orderTerm (o.field.pieces b) o.descending o.nulls).map
      (List.map (Piece.mapBinds f)) =
        q.orderBy.map fun o => b.orderTerm (o.field.pieces b) o.descending o.nulls := by
    simp [Function.comp_def, Backend.map_orderTerm, Field.map_pieces]
  simp only [Query.pieces, Query.mapBinds, List.map_append, List.map_cons, map_listClause, hctes,
    hdistinct, hcolumns, hjoins, conditionPieces_mapBinds hf, hgroup, horder, map_boundsPieces]
  rfl

theorem Statement.pieces_mapBinds (hf : ∀ value, (f value).isNull = value.isNull)
    (s : Statement) : (s.mapBinds f).pieces b = (s.pieces b).map (Piece.mapBinds f) := by
  cases s with
  | select q => exact q.pieces_mapBinds hf
  | count q => simp [pieces, mapBinds, q.pieces_mapBinds hf, Piece.mapBinds]
  | condition e => exact e.pieces_mapBinds hf
  | insert table values returning =>
      simp only [pieces, mapBinds, List.isEmpty_map]
      split
      · rfl
      · simp [map_namePieces, map_commaSeparated, map_returningPieces, Piece.mapBinds,
          Function.comp_def]
  | update table assignments cond returning =>
      simp only [pieces, mapBinds, List.isEmpty_map]
      split
      · rfl
      · simp [map_commaSeparated, conditionPieces_mapBinds hf, map_returningPieces,
          Piece.mapBinds, Function.comp_def]
  | delete table cond returning =>
      simp [pieces, mapBinds, conditionPieces_mapBinds hf, map_returningPieces, Piece.mapBinds]

end Replaced

/-- Values that agree in which of them are null compile to the same text, or fail with
the same error, and leave the dialect the same. The binds of the result are the
values in their places. -/
theorem Dialect.compile_mapBinds {f : Bind → Bind}
    (hf : ∀ value, (f value).isNull = value.isNull) (d : Dialect) (s : Statement) :
    d.compile (s.mapBinds f) =
      ((d.compile s).1.map (Compiled.mapBinds f), (d.compile s).2) := by
  unfold Dialect.compile
  simp only [Statement.pieces_mapBinds hf, Piece.assemble_mapBinds, Piece.names_mapBinds]

theorem Dialect.compile_mapBinds_hostile :
    let f : Bind → Bind := fun value =>
      if value.isNull then value else .string "'; DROP TABLE t; --"
    let s : Statement := .update "t" [("a", .int 1)]
      (some (.predicate ⟨.named "b", .inList, [.null, .int 2]⟩)) []
    let sql := "UPDATE \"t\" SET \"a\" = $1 WHERE (\"b\" IN ($2) OR \"b\" IS NULL)"
    (∀ value, (f value).isNull = value.isNull) ∧
      ((Dialect.fresh .postgresql).compile s).1 =
        .ok ⟨sql, [.int 1, .int 2], .postgresql⟩ ∧
      ((Dialect.fresh .postgresql).compile (s.mapBinds f)).1 =
        .ok ⟨sql, [.string "'; DROP TABLE t; --", .string "'; DROP TABLE t; --"], .postgresql⟩ := by
  intro f s sql
  have hf : ∀ value, (f value).isNull = value.isNull := by
    intro value
    cases value <;> rfl
  have hcompile : ((Dialect.fresh .postgresql).compile s).1 =
      .ok ⟨sql, [.int 1, .int 2], .postgresql⟩ := by
    rw [Dialect.compile_fresh]
    exact Statement.compile_of_pieces (by decide +kernel) (by decide +kernel) rfl rfl
  refine ⟨hf, hcompile, ?_⟩
  rw [Dialect.compile_mapBinds hf, hcompile]
  rfl

end BoundSql
