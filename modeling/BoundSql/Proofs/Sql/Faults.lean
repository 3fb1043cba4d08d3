import BoundSql.Proofs.Sql.Pieces

/-!
# Which statements fail

`Statement.fault?` names the fault of a statement for a backend: the first one in the
order of the text, where the leaves of a condition are tried from left to right.
`Statement.Compilable` says without any order what a statement must be like to have no
fault. A statement fails with its fault and with nothing else, and compiles if it has
none (`Dialect.compile_outcome`).

What a dialect remembers has no say in this, and neither have prepared fields.
-/

namespace BoundSql

open Piece (failure? commaSeparated)

/-! ## Faults of the parts -/

/-- A number of binds that the operator of a predicate does not take. -/
def Predicate.fault? (p : Predicate) : Option Error :=
  match p.op.arity? with
  | some n =>
      if p.binds.length = n then none
      else some (.invalidPredicate (.arity p.op p.field.display n p.binds.length))
  | none => none

/-- A compiled query for another backend. -/
def Compiled.fault? (b : Backend) (q : Compiled) : Option Error :=
  if q.backend = b then none else some (.foreignFragment b q.backend)

/-- A placeholder or a numbered marker in a raw column. -/
def SelectColumn.fault? : SelectColumn → Option Error
  | .raw sql =>
      if Lexical.placeholderOffsets sql = [] ∧ Lexical.numberedMarkers sql = [] then none
      else some (.invalidPredicate (.selectListMarker sql))
  | _ => none

/-- Columns to return from a backend that returns none. -/
def returningFault? (b : Backend) (returning : List String) : Option Error :=
  if returning ≠ [] ∧ b.supports .returning = false then some (b.lacks .returning) else none

namespace Expr

/-- The leaves of an expression from left to right. -/
def leaves : Expr → List Expr
  | .and left right => left.leaves ++ right.leaves
  | .or left right => left.leaves ++ right.leaves
  | .not inner => inner.leaves
  | leaf => [leaf]

/-- The fault of a leaf. Raw SQL has none. -/
def leafFault? (b : Backend) : Expr → Option Error
  | .predicate p => p.fault?
  | .subquery m => m.query.fault? b
  | _ => none

/-- The fault of the first leaf that has one. -/
def fault? (b : Backend) (e : Expr) : Option Error :=
  e.leaves.findSome? (leafFault? b)

/-- The predicates of an expression. -/
def predicates (e : Expr) : List Predicate :=
  e.leaves.filterMap fun
    | .predicate p => some p
    | _ => none

end Expr

/-- The first fault of a query: common table expressions, columns, joins, the condition of
the rows, the condition of the groups. -/
def Query.fault? (b : Backend) (q : Query) : Option Error :=
  (q.ctes.findSome? (·.query.fault? b)).or <|
    (q.columns.findSome? (·.fault?)).or <|
    (q.joins.findSome? (·.on.fault? b)).or <|
    (q.condition.bind (·.fault? b)).or <|
    q.having.bind (·.fault? b)

namespace Statement

/-- The first fault of a statement. -/
def fault? (b : Backend) : Statement → Option Error
  | .select q | .count q => q.fault? b
  | .condition e => e.fault? b
  | .insert table values returning =>
      if values = [] then some (.invalidPredicate (.insertWithoutColumns table))
      else returningFault? b returning
  | .update table assignments cond returning =>
      if assignments = [] then some (.invalidPredicate (.updateWithoutAssignments table))
      else (cond.bind (·.fault? b)).or (returningFault? b returning)
  | .delete _ cond returning => (cond.bind (·.fault? b)).or (returningFault? b returning)

/-- The columns that a statement returns. -/
def returned : Statement → List String
  | .insert _ _ returning | .update _ _ _ returning | .delete _ _ returning => returning
  | _ => []

/-- Whether a statement assigns something if it is one that assigns. -/
def Assigns : Statement → Prop
  | .insert _ values _ => values ≠ []
  | .update _ assignments _ _ => assignments ≠ []
  | _ => True

/-- What a statement must be like to have no fault. -/
@[mk_iff]
structure Compilable (b : Backend) (s : Statement) : Prop where
  assigns : s.Assigns
  arity : ∀ e ∈ s.conditions, ∀ p ∈ e.predicates, p.op.takes p.binds.length = true
  fragments : ∀ q ∈ s.fragments, q.backend = b
  columns : ∀ sql ∈ s.rawColumns,
    Lexical.placeholderOffsets sql = [] ∧ Lexical.numberedMarkers sql = []
  returned : s.returned = [] ∨ b.supports .returning = true

end Statement

/-! ## Faults are failures -/

namespace Piece

theorem failure?_commaSeparated_eq (lists : List (List Piece)) :
    failure? (commaSeparated lists) = lists.findSome? failure? := by
  fun_induction commaSeparated lists with
  | case1 => rfl
  | case2 ps => cases h : failure? ps <;> simp [h]
  | case3 ps rest hrest ih => cases h : failure? ps <;> simp [h, ih, error?]

theorem failure?_flatMap_eq {α : Type} (f : α → List Piece) (xs : List α) :
    failure? (xs.flatMap f) = xs.findSome? fun x => failure? (f x) := by
  induction xs with
  | nil => rfl
  | cons x xs ih => cases h : failure? (f x) <;> simp [h, ih]

/-- Pieces none of which is a failure. -/
theorem failure?_eq_none {ps : List Piece} (h : ∀ p ∈ ps, p.error? = none) :
    failure? ps = none :=
  List.findSome?_eq_none_iff.mpr h

end Piece

open Piece (failure?_commaSeparated_eq failure?_flatMap_eq failure?_eq_none)

variable {b : Backend}

theorem failure?_listClause_eq (keyword stop : String) (items : List (List Piece)) :
    failure? (listClause keyword stop items) = items.findSome? failure? := by
  cases items with
  | nil => rfl
  | cons ps items => simp [listClause, Piece.error?, failure?_commaSeparated_eq]

/-- Lists that are all written without failures. -/
theorem findSome?_failure?_map_eq_none {α : Type} {f : α → List Piece} (xs : List α)
    (h : ∀ x, failure? (f x) = none) : (xs.map f).findSome? failure? = none := by
  simp [h]

/-- A field never fails. -/
theorem Field.failure?_pieces (f : Field) : failure? (f.pieces b) = none := by
  unfold pieces
  split
  · rfl
  · cases f.table <;> rfl

section Tests

variable {field : List Piece} (hfield : failure? field = none)

include hfield

theorem failure?_nullTest (negated : Bool) : failure? (nullTest negated field) = none := by
  simp [nullTest, hfield, Piece.error?]

theorem failure?_comparison (token : String) (value : Bind) :
    failure? (comparison field token value) = none := by
  simp [comparison, hfield, Piece.error?]

theorem failure?_valueList (negated : Bool) (values : List Bind) :
    failure? (valueList negated field values) = none := by
  have hvalues : (values.map fun value => [Piece.bind value]).findSome? failure? = none :=
    findSome?_failure?_map_eq_none values fun _ => rfl
  simp [valueList, hfield, Piece.error?, failure?_commaSeparated_eq, hvalues]

theorem failure?_listTest (negated : Bool) (binds : List Bind) :
    failure? (listTest negated field binds) = none := by
  unfold listTest
  simp only []
  split
  · refine failure?_eq_none fun p hp => ?_
    rcases List.mem_append.mp hp with hp | hp
    · obtain ⟨q, -, hq⟩ := List.mem_filterMap.mp hp
      cases q <;> simp [Piece.mentioned?] at hq
      subst hq
      rfl
    · obtain rfl := List.mem_singleton.mp hp
      rfl
  · split
    · exact failure?_nullTest hfield negated
    · split
      · simp [failure?_valueList hfield, failure?_nullTest hfield, Piece.error?]
      · exact failure?_valueList hfield negated _

end Tests

/-- A predicate has no fault just if its operator takes the number of its binds. -/
theorem Predicate.fault?_eq_none_iff {p : Predicate} :
    p.fault? = none ↔ p.op.takes p.binds.length = true := by
  unfold fault? Operator.takes
  cases p.op.arity? with
  | none => simp
  | some n =>
      by_cases h : p.binds.length = n
      · simp [h]
      · simp [h, beq_iff_eq, Ne.symm h]

/-- A predicate fails with its fault. Every operator that takes the number of its binds has
a way of being written. -/
theorem Predicate.failure?_pieces (p : Predicate) : failure? (p.pieces b) = p.fault? := by
  cases htakes : p.op.takes p.binds.length with
  | false =>
      rw [pieces_of_not_takes htakes]
      unfold Operator.takes at htakes
      cases harity : p.op.arity? with
      | none => simp [harity] at htakes
      | some n =>
          have hne : p.binds.length ≠ n := by
            rintro rfl
            simp [harity] at htakes
          simp [fault?, harity, hne, Piece.error?]
  | true =>
      rw [fault?_eq_none_iff.mpr htakes]
      obtain ⟨f, op, binds⟩ := p
      have hfield : failure? (f.pieces b) = none := f.failure?_pieces
      have harity := fun n => Operator.length_of_takes (n := n) htakes
      cases op with
      | inList => exact failure?_listTest hfield false binds
      | notInList => exact failure?_listTest hfield true binds
      | isNull =>
          obtain rfl := List.length_eq_zero_iff.mp (harity 0 rfl)
          exact failure?_nullTest hfield false
      | isNotNull =>
          obtain rfl := List.length_eq_zero_iff.mp (harity 0 rfl)
          exact failure?_nullTest hfield true
      | between =>
          obtain ⟨low, high, rfl⟩ := List.length_eq_two.mp (harity 2 rfl)
          simp [pieces, hfield, Piece.error?]
      | ilike =>
          obtain ⟨value, rfl⟩ := List.length_eq_one_iff.mp (harity 1 rfl)
          simp only [pieces, Backend.caseInsensitiveLike]
          split <;> simp [hfield, Piece.error?]
      | eq =>
          obtain ⟨value, rfl⟩ := List.length_eq_one_iff.mp (harity 1 rfl)
          simp only [pieces]
          split
          · exact failure?_nullTest hfield false
          · exact failure?_comparison hfield "=" value
      | neq =>
          obtain ⟨value, rfl⟩ := List.length_eq_one_iff.mp (harity 1 rfl)
          simp only [pieces]
          split
          · exact failure?_nullTest hfield true
          · exact failure?_comparison hfield "<>" value
      | gt | gte | lt | lte | like =>
          obtain ⟨value, rfl⟩ := List.length_eq_one_iff.mp (harity 1 rfl)
          exact failure?_comparison hfield _ value

theorem Compiled.failure?_pieces (q : Compiled) : failure? (q.pieces b) = q.fault? b := by
  unfold Compiled.pieces fault?
  split <;> rfl

/-- An expression fails with the fault of its first leaf that has one. -/
theorem Expr.failure?_pieces (e : Expr) : failure? (e.pieces b) = e.fault? b := by
  induction e with
  | predicate p => simp [pieces, Predicate.failure?_pieces, fault?, leaves, leafFault?]
  | and left right ihleft ihright =>
      simp [pieces, ihleft, ihright, fault?, leaves, Piece.error?]
  | or left right ihleft ihright =>
      simp [pieces, ihleft, ihright, fault?, leaves, Piece.error?]
  | not inner ih => simp [pieces, ih, fault?, leaves, Piece.error?]
  | raw r => simp [pieces, RawSql.pieces, failure?_weave, fault?, leaves, leafFault?]
  | subquery m =>
      simp [pieces, Membership.pieces, Field.failure?_pieces, Compiled.failure?_pieces, fault?,
        leaves, leafFault?, Piece.error?]

theorem failure?_conditionPieces (keyword : String) (cond : Option Expr) :
    failure? (conditionPieces b keyword cond) = cond.bind (·.fault? b) := by
  cases cond with
  | none => rfl
  | some e => simp [conditionPieces, Expr.failure?_pieces, Piece.error?]

theorem Cte.failure?_pieces (c : Cte) : failure? (c.pieces b) = c.query.fault? b := by
  simp [pieces, Compiled.failure?_pieces, Piece.error?]

theorem SelectColumn.failure?_pieces (c : SelectColumn) : failure? (c.pieces b) = c.fault? := by
  cases c with
  | star => rfl
  | field f => exact f.failure?_pieces
  | aliased f name => simp [pieces, Field.failure?_pieces, fault?, Piece.error?]
  | raw sql =>
      rw [pieces, fault?]
      cases hsql : holdsMarker sql with
      | false =>
          rw [if_pos (holdsMarker_eq_false_iff.mp hsql)]
          rfl
      | true =>
          rw [if_neg fun h => absurd (holdsMarker_eq_false_iff.mpr h) (by simp [hsql])]
          rfl

theorem Join.failure?_pieces (j : Join) : failure? (j.pieces b) = j.on.fault? b := by
  unfold pieces
  cases j.tableAlias <;> simp [Expr.failure?_pieces, Piece.error?]

theorem Backend.failure?_orderTerm (f : Field) (descending : Bool)
    (nulls : Option NullsPlacement) :
    failure? (b.orderTerm (f.pieces b) descending nulls) = none := by
  unfold Backend.orderTerm
  cases nulls with
  | none => simp [Field.failure?_pieces, Piece.error?]
  | some placement =>
      simp only []
      split <;> simp [Field.failure?_pieces, Piece.error?]

theorem failure?_boundsPieces (limit offset : Option UInt64) :
    failure? (boundsPieces b limit offset) = none := by
  refine failure?_eq_none fun p hp => ?_
  obtain ⟨s, rfl⟩ := text_of_mem_boundsPieces hp
  rfl

theorem failure?_namePieces (names : List String) : failure? (namePieces names) = none := by
  rw [namePieces, failure?_commaSeparated_eq]
  exact findSome?_failure?_map_eq_none names fun _ => rfl

theorem failure?_returningPieces (returning : List String) :
    failure? (returningPieces b returning) = returningFault? b returning := by
  unfold returningPieces returningFault?
  cases returning with
  | nil => rfl
  | cons name rest =>
      cases hsupports : b.supports .returning <;>
        simp [failure?_namePieces, Piece.error?]

theorem Query.failure?_pieces (q : Query) : failure? (q.pieces b) = q.fault? b := by
  have hctes : (q.ctes.map (·.pieces b)).findSome? failure? =
      q.ctes.findSome? (·.query.fault? b) := by
    simp [List.findSome?_map, Function.comp_def, Cte.failure?_pieces]
  have hdistinct : failure? (if q.distinct then [Piece.text "DISTINCT "] else []) = none := by
    split <;> rfl
  have hcolumns : failure? (if q.columns.isEmpty then [Piece.text "*"]
      else commaSeparated (q.columns.map (·.pieces b))) = q.columns.findSome? (·.fault?) := by
    split
    · rename_i hempty
      rw [List.isEmpty_iff.mp hempty]
      rfl
    · simp [failure?_commaSeparated_eq, List.findSome?_map, Function.comp_def,
        SelectColumn.failure?_pieces]
  have hjoins : failure? (q.joins.flatMap (·.pieces b)) = q.joins.findSome? (·.on.fault? b) := by
    simp only [failure?_flatMap_eq, Join.failure?_pieces]
  have hgroup : (q.groupBy.map (·.pieces b)).findSome? failure? = none :=
    findSome?_failure?_map_eq_none q.groupBy Field.failure?_pieces
  have horder : (q.orderBy.map fun o =>
      b.orderTerm (o.field.pieces b) o.descending o.nulls).findSome? failure? = none :=
    findSome?_failure?_map_eq_none q.orderBy fun o =>
      Backend.failure?_orderTerm o.field o.descending o.nulls
  simp only [pieces, fault?, Piece.failure?_append, Piece.failure?_cons, Piece.error?,
    failure?_listClause_eq, failure?_conditionPieces, failure?_boundsPieces, hctes, hdistinct,
    hcolumns, hjoins, hgroup, horder, Option.none_or, Option.or_none, Option.or_assoc]

/-- The failure among the pieces of a statement is the fault of the statement. -/
theorem Statement.failure?_pieces (s : Statement) : failure? (s.pieces b) = s.fault? b := by
  cases s with
  | select q => exact q.failure?_pieces
  | count q => simp [pieces, fault?, Query.failure?_pieces, Piece.error?]
  | condition e => exact e.failure?_pieces
  | insert table values returning =>
      have hvalues : (values.map fun v => [Piece.bind v.2]).findSome? failure? = none :=
        findSome?_failure?_map_eq_none values fun _ => rfl
      cases values with
      | nil => rfl
      | cons v values =>
          simp only [pieces, fault?, List.isEmpty_cons, if_neg Bool.false_ne_true,
            if_neg (List.cons_ne_nil _ _), Piece.failure?_append, Piece.failure?_cons,
            Piece.error?, failure?_namePieces, failure?_commaSeparated_eq, hvalues,
            failure?_returningPieces, Option.none_or]
  | update table assignments cond returning =>
      have hassignments : (assignments.map fun a =>
          [Piece.name a.1, .text " = ", .bind a.2]).findSome? failure? = none :=
        findSome?_failure?_map_eq_none assignments fun _ => rfl
      cases assignments with
      | nil => rfl
      | cons a assignments =>
          simp only [pieces, fault?, List.isEmpty_cons, if_neg Bool.false_ne_true,
            if_neg (List.cons_ne_nil _ _), Piece.failure?_append, Piece.failure?_cons,
            Piece.error?, failure?_commaSeparated_eq, hassignments, failure?_conditionPieces,
            failure?_returningPieces, Option.none_or]
  | delete table cond returning =>
      simp [pieces, fault?, failure?_conditionPieces, failure?_returningPieces, Piece.error?]

/-! ## Statements without faults -/

namespace Expr

/-- The compiled queries of an expression are those of its leaves. -/
theorem mem_fragments_iff {e : Expr} {q : Compiled} :
    q ∈ e.fragments ↔ ∃ m, .subquery m ∈ e.leaves ∧ m.query = q := by
  induction e with
  | and left right ihleft ihright | or left right ihleft ihright =>
      simp [fragments, leaves, ihleft, ihright, or_and_right, exists_or]
  | not inner ih => simpa [fragments, leaves] using ih
  | predicate p => simp [fragments, leaves]
  | raw r => simp [fragments, leaves]
  | subquery m => simp [fragments, leaves, eq_comm]

theorem mem_predicates_iff {e : Expr} {p : Predicate} :
    p ∈ e.predicates ↔ .predicate p ∈ e.leaves := by
  simp only [predicates, List.mem_filterMap]
  constructor
  · rintro ⟨leaf, hleaf, hp⟩
    cases leaf <;> simp at hp
    rwa [← hp]
  · exact fun hp => ⟨_, hp, rfl⟩

/-- An expression has no fault just if its predicates have the binds that their operators
take and its compiled queries are for the backend. -/
theorem fault?_eq_none_iff {e : Expr} :
    e.fault? b = none ↔
      (∀ p ∈ e.predicates, p.op.takes p.binds.length = true) ∧
        ∀ q ∈ e.fragments, q.backend = b := by
  simp only [mem_predicates_iff, mem_fragments_iff, fault?, List.findSome?_eq_none_iff]
  constructor
  · intro h
    refine ⟨fun p hp => ?_, ?_⟩
    · exact Predicate.fault?_eq_none_iff.mp (h _ hp)
    · rintro q ⟨m, hm, rfl⟩
      simpa [leafFault?, Compiled.fault?] using h _ hm
  · rintro ⟨harity, hfragments⟩ leaf hleaf
    cases leaf with
    | predicate p => exact Predicate.fault?_eq_none_iff.mpr (harity p hleaf)
    | subquery m => simpa [leafFault?, Compiled.fault?] using hfragments _ ⟨m, hleaf, rfl⟩
    | and | or | not | raw => rfl

/-- Conditions have no fault just if all their predicates and all their compiled queries
are as they have to be. -/
theorem forall_fault?_eq_none_iff {es : List Expr} :
    (∀ e ∈ es, e.fault? b = none) ↔
      (∀ e ∈ es, ∀ p ∈ e.predicates, p.op.takes p.binds.length = true) ∧
        ∀ q ∈ es.flatMap (·.fragments), q.backend = b := by
  simp only [fault?_eq_none_iff, List.mem_flatMap]
  constructor
  · intro h
    refine ⟨fun e he => (h e he).1, ?_⟩
    rintro q ⟨e, he, hq⟩
    exact (h e he).2 q hq
  · rintro ⟨harity, hfragments⟩ e he
    exact ⟨harity e he, fun q hq => hfragments q ⟨e, he, hq⟩⟩

end Expr

theorem Compiled.fault?_eq_none_iff {q : Compiled} : q.fault? b = none ↔ q.backend = b := by
  simp [fault?]

/-- Columns have no fault just if the raw ones among them hold no marker. -/
theorem SelectColumn.forall_fault?_eq_none_iff {columns : List SelectColumn} :
    (∀ c ∈ columns, c.fault? = none) ↔
      ∀ sql ∈ columns.filterMap (·.rawText?),
        Lexical.placeholderOffsets sql = [] ∧ Lexical.numberedMarkers sql = [] := by
  simp only [List.mem_filterMap]
  constructor
  · rintro h sql ⟨c, hc, hsql⟩
    cases c with
    | raw text =>
        obtain rfl := Option.some.inj hsql
        simpa [fault?] using h _ hc
    | star | field | aliased => simp [rawText?] at hsql
  · intro h c hc
    cases c with
    | raw text => simpa [fault?] using h text ⟨_, hc, rfl⟩
    | star | field | aliased => rfl

theorem returningFault?_eq_none_iff {returning : List String} :
    returningFault? b returning = none ↔ returning = [] ∨ b.supports .returning = true := by
  simp [returningFault?, or_iff_not_imp_left]

theorem Query.fault?_eq_none_iff {q : Query} :
    q.fault? b = none ↔
      (∀ c ∈ q.ctes, c.query.backend = b) ∧ (∀ c ∈ q.columns, c.fault? = none) ∧
        ∀ e ∈ q.conditions, e.fault? b = none := by
  simp only [fault?, Option.or_eq_none_iff, List.findSome?_eq_none_iff, conditions,
    Compiled.fault?_eq_none_iff, Option.bind_eq_none_iff, List.forall_mem_append,
    List.forall_mem_map, Option.mem_toList, and_assoc]

/-- An optional condition has no fault just if what it holds has none. -/
theorem bind_fault?_eq_none_iff {cond : Option Expr} :
    cond.bind (·.fault? b) = none ↔
      (∀ e ∈ cond.toList, ∀ p ∈ e.predicates, p.op.takes p.binds.length = true) ∧
        ∀ q ∈ cond.toList.flatMap (·.fragments), q.backend = b := by
  rw [← Expr.forall_fault?_eq_none_iff, Option.bind_eq_none_iff]
  simp only [Option.mem_toList]

/-- The statements that have no fault are the compilable ones. -/
theorem Statement.fault?_eq_none_iff {s : Statement} :
    s.fault? b = none ↔ s.Compilable b := by
  rw [compilable_iff]
  cases s with
  | select q | count q =>
      simp only [fault?, Query.fault?_eq_none_iff, Expr.forall_fault?_eq_none_iff,
        SelectColumn.forall_fault?_eq_none_iff, Assigns, conditions, fragments, rawColumns,
        Statement.returned, query?, Option.toList_some, List.flatMap_singleton,
        List.forall_mem_append, List.forall_mem_map, true_and, true_or, and_true]
      exact ⟨fun h => ⟨h.2.2.1, ⟨h.1, h.2.2.2⟩, h.2.1⟩, fun h => ⟨h.2.1.1, h.2.2, h.1, h.2.1.2⟩⟩
  | condition e =>
      simp [fault?, Expr.fault?_eq_none_iff, Assigns, conditions, fragments, rawColumns,
        Statement.returned, query?]
  | insert table values returning =>
      by_cases hvalues : values = []
      · simp [fault?, Assigns, hvalues]
      · simp [fault?, Assigns, hvalues, returningFault?_eq_none_iff, conditions, fragments,
          rawColumns, Statement.returned, query?]
  | update table assignments cond returning =>
      by_cases hassignments : assignments = []
      · simp [fault?, Assigns, hassignments]
      · simp only [fault?, ↓reduceIte, Option.or_eq_none_iff, bind_fault?_eq_none_iff,
          returningFault?_eq_none_iff, Assigns, ne_eq, hassignments, not_false_eq_true,
          conditions, fragments, rawColumns, Statement.returned, query?, Option.toList_none,
          List.flatMap_nil, List.nil_append, List.not_mem_nil, false_implies, implies_true,
          true_and, and_assoc]
  | delete table cond returning =>
      simp only [fault?, Option.or_eq_none_iff, bind_fault?_eq_none_iff,
        returningFault?_eq_none_iff, Assigns, conditions, fragments, rawColumns,
        Statement.returned, query?, Option.toList_none, List.flatMap_nil, List.nil_append,
        List.not_mem_nil, false_implies, implies_true, true_and, and_assoc]

/-- A statement compiles just if it is compilable, and otherwise fails with its fault,
whatever a dialect remembers. -/
theorem Dialect.compile_outcome (d : Dialect) (s : Statement) :
    ((∃ q, (d.compile s).1 = .ok q) ↔ s.Compilable d.backend) ∧
      ∀ e, (d.compile s).1 = .error e ↔ s.fault? d.backend = some e := by
  have hcompile : (d.compile s).1 = Piece.assemble d.form d.backend (s.pieces d.backend) := rfl
  rw [← Statement.fault?_eq_none_iff, hcompile, Piece.assemble, Statement.failure?_pieces]
  cases s.fault? d.backend <;> simp

end BoundSql
