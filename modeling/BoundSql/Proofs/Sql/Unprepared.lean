import BoundSql.Proofs.Sql.Faithful

/-!
# Preparation leaves no trace

`Statement.unprepared` is a statement whose fields carry no forms. A statement with
faithful fields compiles to what it compiles to without them, or fails with the same
error (`Statement.compile_unprepared`).

The pieces of the two statements differ, since a prepared form is one text where a
field without one is made of identifiers and points. Their **spellings** do not: the
spelling of pieces takes texts and identifiers apart into letters, and keeps what
decides the outcome (`Piece.assemble_of_spelling`).
-/

namespace BoundSql

/-! ## Statements without prepared forms -/

/-- The field without a prepared form. -/
def Field.unprepared (f : Field) : Field :=
  { f with prepared := none }

/-- The predicate on the field without a prepared form. -/
def Predicate.unprepared (p : Predicate) : Predicate :=
  { p with field := p.field.unprepared }

/-- The membership of the field without a prepared form. -/
def Membership.unprepared (m : Membership) : Membership :=
  { m with field := m.field.unprepared }

/-- The expression without prepared forms. -/
def Expr.unprepared : Expr → Expr
  | .predicate p => .predicate p.unprepared
  | .and left right => .and left.unprepared right.unprepared
  | .or left right => .or left.unprepared right.unprepared
  | .not inner => .not inner.unprepared
  | .raw r => .raw r
  | .subquery m => .subquery m.unprepared

/-- The column without a prepared form. -/
def SelectColumn.unprepared : SelectColumn → SelectColumn
  | .star => .star
  | .field f => .field f.unprepared
  | .aliased f name => .aliased f.unprepared name
  | .raw sql => .raw sql

/-- The order by the field without a prepared form. -/
def OrderBy.unprepared (o : OrderBy) : OrderBy :=
  { o with field := o.field.unprepared }

/-- The join without prepared forms in its condition. -/
def Join.unprepared (j : Join) : Join :=
  { j with on := j.on.unprepared }

/-- The query without prepared forms. -/
def Query.unprepared (q : Query) : Query :=
  { q with
    columns := q.columns.map SelectColumn.unprepared
    condition := q.condition.map Expr.unprepared
    groupBy := q.groupBy.map Field.unprepared
    having := q.having.map Expr.unprepared
    joins := q.joins.map Join.unprepared
    orderBy := q.orderBy.map OrderBy.unprepared }

/-- The statement without prepared forms. -/
def Statement.unprepared : Statement → Statement
  | .select q => .select q.unprepared
  | .count q => .count q.unprepared
  | .condition e => .condition e.unprepared
  | .insert table values returning => .insert table values returning
  | .update table assignments cond returning =>
      .update table assignments (cond.map Expr.unprepared) returning
  | .delete table cond returning => .delete table (cond.map Expr.unprepared) returning

/-! ## Spellings -/

namespace Piece

/-- A character as a piece. -/
def letter (c : Char) : Piece :=
  .text (String.singleton c)

/-- The letters of a text or an identifier; any other piece that is written is taken
as a whole. -/
def spell (b : Backend) : Piece → List Piece
  | .text s => s.toList.map letter
  | .name ident => (Identifier.quoted b ident).toList.map letter
  | .mention _ => []
  | p => [p]

/-- Pieces with their texts and identifiers taken apart into letters. -/
def spelling (b : Backend) (ps : List Piece) : List Piece :=
  ps.flatMap (spell b)

variable {b : Backend} {ps qs : List Piece}

@[simp] theorem spelling_nil (b : Backend) : spelling b [] = [] := rfl

@[simp] theorem spelling_cons (b : Backend) (p : Piece) (ps : List Piece) :
    spelling b (p :: ps) = p.spell b ++ spelling b ps := rfl

@[simp] theorem spelling_append (b : Backend) (ps qs : List Piece) :
    spelling b (ps ++ qs) = spelling b ps ++ spelling b qs :=
  List.flatMap_append

theorem binds_letters (cs : List Char) : binds (cs.map letter) = [] := by
  induction cs with
  | nil => rfl
  | cons c cs ih => simpa [letter, ownBinds] using ih

theorem failure?_letters (cs : List Char) : failure? (cs.map letter) = none := by
  induction cs with
  | nil => rfl
  | cons c cs ih => simpa [letter, error?] using ih

theorem written_letters (b : Backend) (count : Nat) (cs : List Char) :
    written b count (cs.map letter) = cs := by
  induction cs with
  | nil => rfl
  | cons c cs ih => simpa [letter, ownBinds, ownText] using ih

theorem binds_spell (p : Piece) : binds (p.spell b) = p.ownBinds := by
  cases p with
  | text s => exact binds_letters _
  | name ident => exact binds_letters _
  | mention ident => rfl
  | bind value => rfl
  | fragment query => exact List.append_nil _
  | fail error => rfl

theorem failure?_spell (p : Piece) : failure? (p.spell b) = p.error? := by
  cases p with
  | text s => exact failure?_letters _
  | name ident => exact failure?_letters _
  | mention ident | bind value | fragment query | fail error => rfl

theorem written_spell (p : Piece) (count : Nat) :
    written b count (p.spell b) = p.ownText (Identifier.quoted b) b count := by
  cases p with
  | text s => exact written_letters b count _
  | name ident => exact written_letters b count _
  | mention ident => rfl
  | bind value | fragment query | fail error => exact List.append_nil _

theorem binds_spelling (ps : List Piece) : binds (spelling b ps) = binds ps := by
  induction ps with
  | nil => rfl
  | cons p ps ih => rw [spelling_cons, binds_append, binds_spell, ih, binds_cons]

theorem failure?_spelling (ps : List Piece) : failure? (spelling b ps) = failure? ps := by
  induction ps with
  | nil => rfl
  | cons p ps ih => rw [spelling_cons, failure?_append, failure?_spell, ih, failure?_cons]

theorem written_spelling (count : Nat) (ps : List Piece) :
    written b count (spelling b ps) = written b count ps := by
  induction ps generalizing count with
  | nil => rfl
  | cons p ps ih =>
      rw [spelling_cons, written_append, written_spell, binds_spell, ih, written_cons]

/-- Pieces with one spelling compile alike. -/
theorem assemble_of_spelling (h : spelling b ps = spelling b qs) :
    assemble (Identifier.quoted b) b ps = assemble (Identifier.quoted b) b qs := by
  have hfailure : failure? ps = failure? qs := by
    rw [← failure?_spelling (b := b) ps, h, failure?_spelling]
  have hbinds : binds ps = binds qs := by rw [← binds_spelling (b := b) ps, h, binds_spelling]
  have hwritten : chars (Identifier.quoted b) b 0 ps = chars (Identifier.quoted b) b 0 qs :=
    (written_spelling 0 ps).symm.trans (h ▸ written_spelling 0 qs)
  rw [assemble, assemble, hfailure, hbinds, hwritten]

/-- What is only looked up has no letters. -/
theorem spelling_mentions (field : List Piece) :
    spelling b (field.filterMap mentioned?) = [] := by
  refine List.flatMap_eq_nil_iff.mpr fun p hp => ?_
  obtain ⟨ident, rfl⟩ := mem_mentions p hp
  rfl

/-- Lists whose parts are spelled alike are spelled alike with commas between the parts. -/
theorem spelling_commaSeparated {α : Type} {f g : α → List Piece} {xs : List α}
    (h : ∀ x ∈ xs, spelling b (f x) = spelling b (g x)) :
    spelling b (commaSeparated (xs.map f)) = spelling b (commaSeparated (xs.map g)) := by
  induction xs with
  | nil => rfl
  | cons x xs ih =>
      have hx := h x (by simp)
      have hrest := ih fun y hy => h y (by simp [hy])
      cases xs with
      | nil => exact hx
      | cons y ys => simpa [commaSeparated, hx] using hrest

theorem spelling_flatMap {α : Type} {f g : α → List Piece} {xs : List α}
    (h : ∀ x ∈ xs, spelling b (f x) = spelling b (g x)) :
    spelling b (xs.flatMap f) = spelling b (xs.flatMap g) := by
  simp only [spelling, List.flatMap_assoc]
  exact List.flatMap_congr h

end Piece

open Piece (spelling spelling_cons spelling_append spelling_mentions spelling_commaSeparated
  spelling_flatMap)

/-! ## Conditions -/

section Spelled

variable {b : Backend} {field field' : List Piece}

/-- A faithful field is spelled by its identifiers, prepared or not. -/
theorem Field.Faithful.spelling_pieces {f : Field} (h : f.Faithful) :
    spelling b (f.pieces b) = spelling b (f.unprepared.pieces b) := by
  have hletters : spelling b (f.unprepared.pieces b) =
      (f.formWith (Identifier.quoted b)).toList.map Piece.letter := by
    have hnone : f.unprepared.preparedFor? b = none := rfl
    rw [pieces, hnone, formWith]
    cases htable : f.table <;> simp [unprepared, htable, Piece.spell]
  rw [hletters, pieces]
  split
  · rename_i text htext
    simp [h.preparedFor? htext, Piece.spell]
  · rename_i htext
    rw [← hletters, pieces, show f.unprepared.preparedFor? b = none from rfl]
    rfl

section Tests

variable (h : spelling b field = spelling b field')

include h

theorem spelling_nullTest (negated : Bool) :
    spelling b (nullTest negated field) = spelling b (nullTest negated field') := by
  simp [nullTest, h]

theorem spelling_comparison (token : String) (value : Bind) :
    spelling b (comparison field token value) = spelling b (comparison field' token value) := by
  simp [comparison, h]

theorem spelling_valueList (negated : Bool) (values : List Bind) :
    spelling b (valueList negated field values) = spelling b (valueList negated field' values) := by
  simp [valueList, h]

/-- A list test looks at its binds only to see of which kind it is. -/
theorem spelling_listTest (negated : Bool) (binds : List Bind) :
    spelling b (listTest negated field binds) = spelling b (listTest negated field' binds) := by
  unfold listTest
  simp only []
  split
  · simp [spelling_mentions]
  · split
    · exact spelling_nullTest h negated
    · split
      · simp [spelling_valueList h, spelling_nullTest h]
      · exact spelling_valueList h negated _

theorem spelling_caseInsensitiveLike (pattern : List Piece) :
    spelling b (b.caseInsensitiveLike field pattern) =
      spelling b (b.caseInsensitiveLike field' pattern) := by
  unfold Backend.caseInsensitiveLike
  split <;> simp [h]

theorem Backend.spelling_orderTerm (descending : Bool) (nulls : Option NullsPlacement) :
    spelling b (b.orderTerm field descending nulls) =
      spelling b (b.orderTerm field' descending nulls) := by
  unfold Backend.orderTerm
  cases nulls with
  | none => simp [h]
  | some placement =>
      simp only []
      split <;> simp [h]

end Tests

theorem Predicate.spelling_pieces {p : Predicate} (hf : p.field.Faithful) :
    spelling b (p.pieces b) = spelling b (p.unprepared.pieces b) := by
  obtain ⟨field, op, binds⟩ := p
  have h : spelling b (field.pieces b) = spelling b (field.unprepared.pieces b) :=
    Field.Faithful.spelling_pieces hf
  have hdisplay : field.unprepared.display = field.display := rfl
  unfold Predicate.pieces
  simp only [unprepared, hdisplay]
  split
  · split
    · exact spelling_nullTest h false
    · exact spelling_comparison h _ _
  · split
    · exact spelling_nullTest h true
    · exact spelling_comparison h _ _
  · exact spelling_comparison h _ _
  · exact spelling_comparison h _ _
  · exact spelling_comparison h _ _
  · exact spelling_comparison h _ _
  · exact spelling_comparison h _ _
  · exact spelling_caseInsensitiveLike h _
  · simp [h]
  · exact spelling_nullTest h false
  · exact spelling_nullTest h true
  · exact spelling_listTest h false _
  · exact spelling_listTest h true _
  · rfl

theorem Expr.spelling_pieces {e : Expr} (hf : ∀ f ∈ e.fields, f.Faithful) :
    spelling b (e.pieces b) = spelling b (e.unprepared.pieces b) := by
  induction e with
  | predicate p => exact Predicate.spelling_pieces (hf _ (List.mem_singleton.mpr rfl))
  | and left right ihleft ihright | or left right ihleft ihright =>
      have hleft := ihleft fun f hfield => hf f (List.mem_append_left _ hfield)
      have hright := ihright fun f hfield => hf f (List.mem_append_right _ hfield)
      simp [unprepared, pieces, hleft, hright]
  | not inner ih => simp [unprepared, pieces, ih hf]
  | raw r => rfl
  | subquery m =>
      have hfield := (hf m.field (List.mem_singleton.mpr rfl)).spelling_pieces (b := b)
      simp [unprepared, pieces, Membership.pieces, Membership.unprepared, hfield]

theorem spelling_conditionPieces (keyword : String) (cond : Option Expr)
    (hf : ∀ e ∈ cond, ∀ f ∈ e.fields, f.Faithful) :
    spelling b (conditionPieces b keyword cond) =
      spelling b (conditionPieces b keyword (cond.map Expr.unprepared)) := by
  cases cond with
  | none => rfl
  | some e => simp [conditionPieces, Expr.spelling_pieces (hf e rfl)]

/-! ## Queries and statements -/

theorem spelling_listClause {α : Type} {f g : α → List Piece} {xs : List α}
    (keyword stop : String) (h : ∀ x ∈ xs, spelling b (f x) = spelling b (g x)) :
    spelling b (listClause keyword stop (xs.map f)) =
      spelling b (listClause keyword stop (xs.map g)) := by
  cases xs with
  | nil => rfl
  | cons x xs =>
      have hitems := spelling_commaSeparated h
      simp only [List.map_cons] at hitems
      simp [listClause, hitems]

theorem SelectColumn.spelling_pieces {c : SelectColumn} (hf : ∀ f ∈ c.field?, f.Faithful) :
    spelling b (c.pieces b) = spelling b (c.unprepared.pieces b) := by
  cases c with
  | star => rfl
  | field f => exact (hf f rfl).spelling_pieces
  | aliased f name => simp [pieces, unprepared, (hf f rfl).spelling_pieces (b := b)]
  | raw sql => rfl

theorem Join.spelling_pieces {j : Join} (hf : ∀ f ∈ j.on.fields, f.Faithful) :
    spelling b (j.pieces b) = spelling b (j.unprepared.pieces b) := by
  have hon := Expr.spelling_pieces (b := b) hf
  unfold Join.pieces
  simp only [unprepared]
  cases j.tableAlias <;> simp [hon]

theorem Query.spelling_pieces {q : Query} (hown : ∀ f ∈ q.ownFields, f.Faithful)
    (hconditions : ∀ e ∈ q.conditions, ∀ f ∈ e.fields, f.Faithful) :
    spelling b (q.pieces b) = spelling b (q.unprepared.pieces b) := by
  simp only [ownFields, conditions, List.mem_append, List.mem_filterMap, List.mem_map,
    Option.mem_toList] at hown hconditions
  have hcolumns : spelling b (if q.columns.isEmpty then [Piece.text "*"]
      else Piece.commaSeparated (q.columns.map (·.pieces b))) =
        spelling b (if (q.columns.map SelectColumn.unprepared).isEmpty then [Piece.text "*"]
          else Piece.commaSeparated
            ((q.columns.map SelectColumn.unprepared).map (·.pieces b))) := by
    rw [List.isEmpty_map, List.map_map]
    split
    · rfl
    · exact spelling_commaSeparated fun c hc =>
        SelectColumn.spelling_pieces fun f hf => hown f (.inl (.inl ⟨c, hc, hf⟩))
  have hjoins : spelling b (q.joins.flatMap (·.pieces b)) =
      spelling b ((q.joins.map Join.unprepared).flatMap (·.pieces b)) := by
    rw [List.flatMap_map]
    exact spelling_flatMap fun j hj =>
      Join.spelling_pieces fun f hf => hconditions j.on (.inl (.inl ⟨j, hj, rfl⟩)) f hf
  have hwhere := spelling_conditionPieces (b := b) " WHERE " q.condition fun e he =>
    hconditions e (.inl (.inr he))
  have hgroup : spelling b (listClause " GROUP BY " "" (q.groupBy.map (·.pieces b))) =
      spelling b (listClause " GROUP BY " ""
        ((q.groupBy.map Field.unprepared).map (·.pieces b))) := by
    rw [List.map_map]
    exact spelling_listClause _ _ fun f hf => (hown f (.inl (.inr hf))).spelling_pieces
  have hhaving := spelling_conditionPieces (b := b) " HAVING " q.having fun e he =>
    hconditions e (.inr he)
  have horder : spelling b (listClause " ORDER BY " ""
      (q.orderBy.map fun o => b.orderTerm (o.field.pieces b) o.descending o.nulls)) =
        spelling b (listClause " ORDER BY " "" ((q.orderBy.map OrderBy.unprepared).map
          fun o => b.orderTerm (o.field.pieces b) o.descending o.nulls)) := by
    rw [List.map_map]
    exact spelling_listClause _ _ fun o ho =>
      Backend.spelling_orderTerm (hown o.field (.inr ⟨o, ho, rfl⟩)).spelling_pieces _ _
  simp only [pieces, unprepared, spelling_append, spelling_cons, hcolumns, hjoins, hwhere,
    hgroup, hhaving, horder]
  rfl

theorem Statement.spelling_pieces {s : Statement} (hf : ∀ f ∈ s.fields, f.Faithful) :
    spelling b (s.pieces b) = spelling b (s.unprepared.pieces b) := by
  simp only [fields, List.mem_append, List.mem_flatMap, Option.mem_toList] at hf
  have hconditions : ∀ e ∈ s.conditions, ∀ f ∈ e.fields, f.Faithful := fun e he f hfield =>
    hf f (.inr ⟨e, he, hfield⟩)
  cases s with
  | select q => exact Query.spelling_pieces (fun f h => hf f (.inl ⟨q, rfl, h⟩)) hconditions
  | count q =>
      have hquery := Query.spelling_pieces (b := b) (fun f h => hf f (.inl ⟨q, rfl, h⟩)) hconditions
      simp [pieces, unprepared, hquery]
  | condition e => exact Expr.spelling_pieces (hconditions e (List.mem_singleton.mpr rfl))
  | insert table values returning => rfl
  | update table assignments cond returning =>
      have hcond := spelling_conditionPieces (b := b) " WHERE " cond
        fun e he => hconditions e (Option.mem_toList.mpr he)
      simp only [pieces, unprepared]
      split
      · rfl
      · simp [hcond]
  | delete table cond returning =>
      have hcond := spelling_conditionPieces (b := b) " WHERE " cond
        fun e he => hconditions e (Option.mem_toList.mpr he)
      simp [pieces, unprepared, hcond]

end Spelled

/-- A statement compiles to the same query whether its fields carry the forms that their
identifiers have or none, and fails with the same error. -/
theorem Statement.compile_unprepared {s : Statement} (hf : ∀ f ∈ s.fields, f.Faithful)
    (b : Backend) : s.compile b = s.unprepared.compile b :=
  Piece.assemble_of_spelling (Statement.spelling_pieces hf)

end BoundSql
