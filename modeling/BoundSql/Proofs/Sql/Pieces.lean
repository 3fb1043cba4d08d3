import BoundSql.Proofs.Sql.Parts
import BoundSql.Sql.Statement
import Mathlib.Data.List.Basic

/-!
# What the pieces of a statement hold

The pieces of a statement that does not fail hold the binds and the fragments of
the statement, in the order of its text. `Statement.collect_pieces` says so for
whatever is collected from them, and `Statement.compile_eq_ok` says what a compiled
statement is.
-/

namespace BoundSql

namespace Piece

/-! ## Views of lists of pieces -/

/-- The text of pieces behind `count` binds, with identifiers as the backend quotes
them. -/
def written (b : Backend) (count : Nat) (ps : List Piece) : List Char :=
  chars (Identifier.quoted b) b count ps

@[simp] theorem written_nil (b : Backend) (count : Nat) : written b count [] = [] := rfl

@[simp] theorem written_cons (b : Backend) (count : Nat) (p : Piece) (ps : List Piece) :
    written b count (p :: ps) =
      p.ownText (Identifier.quoted b) b count ++ written b (count + p.ownBinds.length) ps := rfl

theorem written_append (b : Backend) (count : Nat) (ps qs : List Piece) :
    written b count (ps ++ qs) =
      written b count ps ++ written b (count + (binds ps).length) qs :=
  chars_append (Identifier.quoted b) b count ps qs

@[simp] theorem failure?_cons (p : Piece) (ps : List Piece) :
    failure? (p :: ps) = p.error?.or (failure? ps) := by
  cases p <;> rfl

theorem failure?_flatMap {α : Type} {f : α → List Piece} {xs : List α}
    (h : failure? (xs.flatMap f) = none) : ∀ x ∈ xs, failure? (f x) = none := by
  induction xs with
  | nil => simp
  | cons x xs ih =>
      rw [List.flatMap_cons, failure?_append, Option.or_eq_none_iff] at h
      intro y hy
      rcases List.mem_cons.mp hy with rfl | hy
      · exact h.1
      · exact ih h.2 y hy

theorem failure?_commaSeparated {lists : List (List Piece)}
    (h : failure? (commaSeparated lists) = none) : ∀ ps ∈ lists, failure? ps = none := by
  fun_induction commaSeparated lists with
  | case1 => simp
  | case2 ps => simpa using h
  | case3 ps rest hrest ih =>
      simp only [failure?_append, failure?_cons, error?, Option.none_or,
        Option.or_eq_none_iff] at h
      intro qs hqs
      rcases List.mem_cons.mp hqs with rfl | hqs
      · exact h.1
      · exact ih h.2 qs hqs

/-- What is collected from a piece. -/
def collect {α : Type} (onBind : Bind → List α) (onFragment : Compiled → List α) :
    Piece → List α
  | .bind value => onBind value
  | .fragment q => onFragment q
  | _ => []

theorem collect_commaSeparated {α : Type} {onBind : Bind → List α}
    {onFragment : Compiled → List α} (lists : List (List Piece)) :
    (commaSeparated lists).flatMap (collect onBind onFragment) =
      lists.flatMap fun ps => ps.flatMap (collect onBind onFragment) := by
  fun_induction commaSeparated lists with
  | case1 => rfl
  | case2 ps => simp
  | case3 ps rest hrest ih => simp [collect, ih]

theorem flatMap_collect_binds (ps : List Piece) :
    ps.flatMap (collect (fun value => [value]) Compiled.binds) = binds ps :=
  List.flatMap_congr fun p _ => by cases p <;> rfl

/-- The first failure decides what a list of pieces makes. -/
theorem assemble_eq_ok {form : String → String} {b : Backend} {ps : List Piece} {q : Compiled}
    (h : assemble form b ps = .ok q) :
    failure? ps = none ∧ q = ⟨String.ofList (chars form b 0 ps), binds ps, b⟩ := by
  unfold assemble at h
  split at h
  · cases h
  · rename_i hfailure
    cases h
    exact ⟨hfailure, rfl⟩

end Piece

open Piece (failure? failure?_flatMap failure?_commaSeparated collect_commaSeparated
  commaSeparated)

/-- A compiled statement holds the text and the binds of its pieces. -/
theorem Statement.compile_eq_ok {b : Backend} {s : Statement} {q : Compiled}
    (h : s.compile b = .ok q) :
    failure? (s.pieces b) = none ∧
      q = ⟨String.ofList (Piece.written b 0 (s.pieces b)), Piece.binds (s.pieces b), b⟩ :=
  Piece.assemble_eq_ok h

/-- A condition without failures compiles alone. -/
theorem Expr.compile_of_failure?_eq_none {b : Backend} {e : Expr}
    (h : failure? (e.pieces b) = none) :
    e.compile b =
      .ok ⟨String.ofList (Piece.written b 0 (e.pieces b)), Piece.binds (e.pieces b), b⟩ := by
  rw [Expr.compile, Statement.compile, Piece.assemble]
  simp only [Statement.pieces, h]
  rfl

/-! ## Numbers of binds -/

/-- An operator that takes a number of binds of its own takes no other number. -/
theorem Operator.length_of_takes {op : Operator} {count n : Nat} (h : op.takes count = true)
    (harity : op.arity? = some n) : count = n := by
  have hn : n = count := by simpa [takes, harity] using h
  exact hn.symm

/-- A predicate with a wrong number of binds fails. -/
theorem Predicate.pieces_of_not_takes {p : Predicate} (h : p.op.takes p.binds.length = false)
    (b : Backend) :
    p.pieces b = [.fail (.invalidPredicate
      (.arity p.op p.field.display (p.op.arity?.getD 0) p.binds.length))] := by
  obtain ⟨field, op, binds⟩ := p
  unfold Predicate.pieces
  simp only []
  split
  all_goals first
    | rfl
    | exact absurd h (by simp [Operator.takes, Operator.arity?])

/-- Bounds are plain words. -/
theorem text_of_mem_boundsPieces {b : Backend} {limit offset : Option UInt64} {p : Piece}
    (h : p ∈ boundsPieces b limit offset) : ∃ s, p = .text s := by
  simp only [boundsPieces, List.mem_append, Option.mem_toList, Option.map_eq_some_iff] at h
  rcases h with ⟨n, -, rfl⟩ | ⟨n, -, rfl⟩
  · exact ⟨_, rfl⟩
  · exact ⟨_, rfl⟩

/-- What is looked up for pieces is mentioned only. -/
theorem mem_mentions {field : List Piece} :
    ∀ p ∈ field.filterMap Piece.mentioned?, ∃ ident, p = .mention ident := by
  intro p hp
  obtain ⟨q, -, hq⟩ := List.mem_filterMap.mp hp
  cases q <;> simp [Piece.mentioned?] at hq
  exact ⟨_, hq.symm⟩

section Collect

variable {α : Type} {onBind : Bind → List α} {onFragment : Compiled → List α} {b : Backend}

/-! ## Predicates -/

theorem Field.collect_pieces (f : Field) :
    (f.pieces b).flatMap (Piece.collect onBind onFragment) = [] := by
  unfold pieces
  split
  · rfl
  · cases f.table <;> rfl

theorem collect_nullTest {field : List Piece}
    (hfield : field.flatMap (Piece.collect onBind onFragment) = []) (negated : Bool) :
    (nullTest negated field).flatMap (Piece.collect onBind onFragment) = [] := by
  simp [nullTest, hfield, Piece.collect]

theorem collect_comparison {field : List Piece}
    (hfield : field.flatMap (Piece.collect onBind onFragment) = []) (token : String)
    (value : Bind) :
    (comparison field token value).flatMap (Piece.collect onBind onFragment) = onBind value := by
  simp [comparison, hfield, Piece.collect]

theorem collect_valueList {field : List Piece}
    (hfield : field.flatMap (Piece.collect onBind onFragment) = []) (negated : Bool)
    (values : List Bind) :
    (valueList negated field values).flatMap (Piece.collect onBind onFragment) =
      values.flatMap onBind := by
  simp [valueList, hfield, Piece.collect, collect_commaSeparated, List.flatMap_map]

/-- A list test collects from the values that are not null. -/
theorem collect_listTest {field : List Piece}
    (hfield : field.flatMap (Piece.collect onBind onFragment) = []) (negated : Bool)
    (binds : List Bind) :
    (listTest negated field binds).flatMap (Piece.collect onBind onFragment) =
      (binds.filter (!·.isNull)).flatMap onBind := by
  unfold listTest
  simp only []
  split
  · rename_i hempty
    have hmentions : (field.filterMap Piece.mentioned?).flatMap
        (Piece.collect onBind onFragment) = [] := by
      rw [List.flatMap_eq_nil_iff]
      intro p hp
      obtain ⟨q, -, hq⟩ := List.mem_filterMap.mp hp
      cases q <;> simp [Piece.mentioned?] at hq
      subst hq
      rfl
    rw [List.isEmpty_iff.mp hempty, List.flatMap_append, hmentions]
    rfl
  · split
    · rename_i hvalues
      rw [collect_nullTest hfield, List.isEmpty_iff.mp hvalues]
      rfl
    · split
      · simp [collect_valueList hfield, collect_nullTest hfield, Piece.collect]
      · exact collect_valueList hfield negated _

theorem Predicate.collect_pieces {p : Predicate} (h : failure? (p.pieces b) = none) :
    (p.pieces b).flatMap (Piece.collect onBind onFragment) = p.keptBinds.flatMap onBind := by
  obtain ⟨field, op, binds⟩ := p
  have hfield : (field.pieces b).flatMap (Piece.collect onBind onFragment) = [] :=
    field.collect_pieces
  revert h
  unfold Predicate.pieces
  simp only []
  split <;> intro h
  · split
    · rename_i hnull
      simp [collect_nullTest hfield, keptBinds, hnull]
    · rename_i hnull
      simp [collect_comparison hfield, keptBinds, hnull]
  · split
    · rename_i hnull
      simp [collect_nullTest hfield, keptBinds, hnull]
    · rename_i hnull
      simp [collect_comparison hfield, keptBinds, hnull]
  · simp [collect_comparison hfield, keptBinds]
  · simp [collect_comparison hfield, keptBinds]
  · simp [collect_comparison hfield, keptBinds]
  · simp [collect_comparison hfield, keptBinds]
  · simp [collect_comparison hfield, keptBinds]
  · unfold Backend.caseInsensitiveLike
    split <;> simp [hfield, Piece.collect, keptBinds]
  · simp [hfield, Piece.collect, keptBinds]
  · exact collect_nullTest hfield false
  · exact collect_nullTest hfield true
  · exact collect_listTest hfield false _
  · exact collect_listTest hfield true _
  · simp [Piece.error?] at h

/-! ## Expressions -/

theorem collect_weave {texts : List (List Char)} {values : List Bind}
    (hlength : texts.length = values.length + 1) :
    (weave texts values).flatMap (Piece.collect onBind onFragment) = values.flatMap onBind := by
  induction values generalizing texts with
  | nil =>
      obtain ⟨text, rfl⟩ := List.length_eq_one_iff.mp hlength
      rfl
  | cons value values ih =>
      cases texts with
      | nil => simp at hlength
      | cons text texts =>
          have hrest : texts.length = values.length + 1 := by simpa using hlength
          simp [weave, Piece.collect, ih hrest]

theorem failure?_weave (texts : List (List Char)) (values : List Bind) :
    failure? (weave texts values) = none := by
  fun_induction weave texts values with
  | case1 => rfl
  | case2 => rfl
  | case3 text texts value values ih => simpa [Piece.error?] using ih

theorem RawSql.binds_pieces (raw : RawSql) : Piece.binds raw.pieces = raw.binds := by
  rw [← Piece.flatMap_collect_binds, pieces, collect_weave raw.length_texts]
  simp

theorem Compiled.collect_pieces {q : Compiled} (h : failure? (q.pieces b) = none) :
    (q.pieces b).flatMap (Piece.collect onBind onFragment) = onFragment q := by
  revert h
  unfold Compiled.pieces
  split <;> intro h
  · simp [Piece.collect]
  · simp [Piece.error?] at h

theorem Expr.collect_pieces {e : Expr} (h : failure? (e.pieces b) = none) :
    (e.pieces b).flatMap (Piece.collect onBind onFragment) = e.collect onBind onFragment := by
  induction e with
  | predicate p => exact Predicate.collect_pieces h
  | and left right ihleft ihright =>
      simp only [pieces, Piece.failure?_append, Piece.failure?_cons, Piece.error?, Option.none_or,
        Option.or_eq_none_iff] at h
      simp [pieces, collect, Piece.collect, ihleft h.1.1, ihright h.1.2]
  | or left right ihleft ihright =>
      simp only [pieces, Piece.failure?_append, Piece.failure?_cons, Piece.error?, Option.none_or,
        Option.or_eq_none_iff] at h
      simp [pieces, collect, Piece.collect, ihleft h.1.1, ihright h.1.2]
  | not inner ih =>
      simp only [pieces, Piece.failure?_append, Piece.failure?_cons, Piece.error?, Option.none_or,
        Option.or_eq_none_iff] at h
      simp [pieces, collect, Piece.collect, ih h.1]
  | raw r => exact collect_weave r.length_texts
  | subquery m =>
      simp only [pieces, Membership.pieces, Piece.failure?_append, Piece.failure?_cons,
        Piece.error?, Option.none_or, Option.or_eq_none_iff] at h
      simp [pieces, Membership.pieces, collect, Piece.collect, m.field.collect_pieces,
        Compiled.collect_pieces h.1.2]

/-! ## Queries and statements -/

theorem collect_conditionPieces {keyword : String} {cond : Option Expr}
    (h : failure? (conditionPieces b keyword cond) = none) :
    (conditionPieces b keyword cond).flatMap (Piece.collect onBind onFragment) =
      cond.toList.flatMap (·.collect onBind onFragment) := by
  cases cond with
  | none => rfl
  | some e =>
      simp only [conditionPieces, Piece.failure?_cons, Piece.error?, Option.none_or] at h
      simp [conditionPieces, Piece.collect, Expr.collect_pieces h]

theorem failure?_listClause {keyword stop : String} {items : List (List Piece)}
    (h : failure? (listClause keyword stop items) = none) : ∀ ps ∈ items, failure? ps = none := by
  cases items with
  | nil => simp
  | cons ps items =>
      simp only [listClause, Piece.failure?_append, Piece.failure?_cons, Piece.error?,
        Option.none_or, Option.or_eq_none_iff] at h
      exact failure?_commaSeparated h.1

theorem collect_listClause (keyword stop : String) (items : List (List Piece)) :
    (listClause keyword stop items).flatMap (Piece.collect onBind onFragment) =
      items.flatMap fun ps => ps.flatMap (Piece.collect onBind onFragment) := by
  cases items with
  | nil => rfl
  | cons ps items => simp [listClause, Piece.collect, collect_commaSeparated]

theorem Cte.collect_pieces {c : Cte} (h : failure? (c.pieces b) = none) :
    (c.pieces b).flatMap (Piece.collect onBind onFragment) = onFragment c.query := by
  simp only [pieces, Piece.failure?_append, Piece.failure?_cons, Piece.error?, Option.none_or,
    Option.or_eq_none_iff] at h
  simp [pieces, Piece.collect, Compiled.collect_pieces h.1]

theorem SelectColumn.collect_pieces (c : SelectColumn) :
    (c.pieces b).flatMap (Piece.collect onBind onFragment) = [] := by
  cases c with
  | star => rfl
  | field f => exact f.collect_pieces
  | aliased f name => simp [pieces, f.collect_pieces, Piece.collect]
  | raw sql =>
      simp only [pieces]
      split <;> rfl

theorem Join.collect_pieces {j : Join} (h : failure? (j.pieces b) = none) :
    (j.pieces b).flatMap (Piece.collect onBind onFragment) = j.on.collect onBind onFragment := by
  unfold pieces at h ⊢
  cases halias : j.tableAlias <;>
    simp only [halias, Piece.failure?_append, Piece.failure?_cons, Piece.error?, Option.none_or,
      Piece.failure?_nil] at h <;>
    simp [Piece.collect, Expr.collect_pieces h]

theorem Backend.collect_orderTerm {field : List Piece}
    (hfield : field.flatMap (Piece.collect onBind onFragment) = []) (descending : Bool)
    (nulls : Option NullsPlacement) :
    (b.orderTerm field descending nulls).flatMap (Piece.collect onBind onFragment) = [] := by
  unfold Backend.orderTerm
  cases nulls with
  | none => simp [hfield, Piece.collect]
  | some placement =>
      simp only []
      split <;> simp [hfield, Piece.collect]

theorem collect_boundsPieces (limit offset : Option UInt64) :
    (boundsPieces b limit offset).flatMap (Piece.collect onBind onFragment) = [] := by
  rw [List.flatMap_eq_nil_iff]
  intro p hp
  obtain ⟨s, rfl⟩ := text_of_mem_boundsPieces hp
  rfl

theorem collect_namePieces (names : List String) :
    (namePieces names).flatMap (Piece.collect onBind onFragment) = [] := by
  simp [namePieces, collect_commaSeparated, List.flatMap_map, Piece.collect]

theorem collect_returningPieces (returning : List String) :
    (returningPieces b returning).flatMap (Piece.collect onBind onFragment) = [] := by
  unfold returningPieces
  split
  · rfl
  · split
    · simp [collect_namePieces, Piece.collect]
    · rfl

theorem Query.collect_pieces {q : Query} (h : failure? (q.pieces b) = none) :
    (q.pieces b).flatMap (Piece.collect onBind onFragment) =
      q.ctes.flatMap (fun c => onFragment c.query) ++
        q.conditions.flatMap (·.collect onBind onFragment) := by
  simp only [pieces, Piece.failure?_append, Piece.failure?_cons, Piece.error?, Option.none_or,
    Option.or_eq_none_iff] at h
  obtain ⟨⟨⟨⟨⟨⟨⟨⟨hctes, -⟩, -⟩, hjoins⟩, hwhere⟩, -⟩, hhaving⟩, -⟩, -⟩ := h
  have hctes : (listClause "WITH " " " (q.ctes.map (·.pieces b))).flatMap
      (Piece.collect onBind onFragment) = q.ctes.flatMap fun c => onFragment c.query := by
    have heach := failure?_listClause hctes
    rw [collect_listClause, List.flatMap_map]
    refine List.flatMap_congr fun c hc => ?_
    exact Cte.collect_pieces (heach _ (List.mem_map_of_mem hc))
  have hjoins : (q.joins.flatMap (·.pieces b)).flatMap (Piece.collect onBind onFragment) =
      q.joins.flatMap fun j => j.on.collect onBind onFragment := by
    have heach := failure?_flatMap hjoins
    rw [List.flatMap_assoc]
    exact List.flatMap_congr fun j hj => Join.collect_pieces (heach j hj)
  have hdistinct : (if q.distinct then [Piece.text "DISTINCT "] else []).flatMap
      (Piece.collect onBind onFragment) = [] := by
    split <;> rfl
  have hcolumns : (if q.columns.isEmpty then [Piece.text "*"]
      else commaSeparated (q.columns.map (·.pieces b))).flatMap
        (Piece.collect onBind onFragment) = [] := by
    split
    · rfl
    · simp [collect_commaSeparated, List.flatMap_map, SelectColumn.collect_pieces]
  have hgroup : (listClause " GROUP BY " "" (q.groupBy.map (·.pieces b))).flatMap
      (Piece.collect onBind onFragment) = [] := by
    simp [collect_listClause, List.flatMap_map, Field.collect_pieces]
  have horder : (listClause " ORDER BY " ""
      (q.orderBy.map fun o => b.orderTerm (o.field.pieces b) o.descending o.nulls)).flatMap
        (Piece.collect onBind onFragment) = [] := by
    simp [collect_listClause, List.flatMap_map, Backend.collect_orderTerm, Field.collect_pieces]
  simp only [pieces, List.flatMap_append, List.flatMap_cons, hctes, hdistinct, hcolumns, hjoins,
    collect_conditionPieces hwhere, hgroup, collect_conditionPieces hhaving, horder,
    collect_boundsPieces, Piece.collect, conditions, List.flatMap_map, List.nil_append,
    List.append_nil, List.append_assoc]

/-- The pieces of a statement that does not fail hold what the statement holds, in
the order of its text. -/
theorem Statement.collect_pieces {s : Statement} (h : failure? (s.pieces b) = none) :
    (s.pieces b).flatMap (Piece.collect onBind onFragment) = s.collect onBind onFragment := by
  cases s with
  | select q => exact Query.collect_pieces h
  | count q =>
      simp only [pieces, Piece.failure?_append, Piece.failure?_cons, Piece.error?, Option.none_or,
        Option.or_eq_none_iff] at h
      simp [pieces, collect, Piece.collect, Query.collect_pieces h.1]
  | condition e => exact Expr.collect_pieces h
  | insert table values returning =>
      simp only [pieces] at h ⊢
      split at h
      · simp [Piece.error?] at h
      · rename_i hne
        rw [if_neg hne]
        simp [collect, Piece.collect, collect_namePieces, collect_commaSeparated,
          List.flatMap_map, collect_returningPieces]
  | update table assignments cond returning =>
      simp only [pieces] at h ⊢
      split at h
      · simp [Piece.error?] at h
      · rename_i hne
        rw [if_neg hne]
        simp only [Piece.failure?_append, Piece.failure?_cons, Piece.error?, Option.none_or,
          Option.or_eq_none_iff] at h
        simp [collect, Piece.collect, collect_commaSeparated, List.flatMap_map,
          collect_conditionPieces h.1.2, collect_returningPieces]
  | delete table cond returning =>
      simp only [pieces, Piece.failure?_append, Piece.failure?_cons, Piece.error?, Option.none_or,
        Option.or_eq_none_iff] at h
      simp [pieces, collect, Piece.collect, collect_conditionPieces h.1, collect_returningPieces]

/-- The binds of a statement that does not fail are the ones it sends, those of its
fragments among them. -/
theorem Statement.binds_pieces {s : Statement} (h : failure? (s.pieces b) = none) :
    Piece.binds (s.pieces b) = s.collect (fun value => [value]) Compiled.binds := by
  rw [← Statement.collect_pieces h, Piece.flatMap_collect_binds]

/-- Pieces without a failure compile to what they write and hold. -/
theorem Statement.compile_of_pieces {s : Statement} {q : Compiled}
    (hfailure : failure? (s.pieces b) = none)
    (hsql : q.sql.toList = Piece.written b 0 (s.pieces b))
    (hbinds : q.binds = s.collect (fun value => [value]) Compiled.binds)
    (hbackend : q.backend = b) : s.compile b = .ok q := by
  have htext : q.sql = String.ofList (Piece.written b 0 (s.pieces b)) := by
    rw [← hsql, String.ofList_toList]
  have hq : q = ⟨String.ofList (Piece.written b 0 (s.pieces b)), Piece.binds (s.pieces b), b⟩ := by
    rw [Statement.binds_pieces hfailure, ← htext, ← hbinds, ← hbackend]
  rw [hq, compile, Piece.assemble, hfailure]
  rfl

/-- A fragment among the pieces of a statement that does not fail is one of its
fragments. -/
theorem Statement.mem_fragments {s : Statement} (h : failure? (s.pieces b) = none) {q : Compiled}
    (hq : .fragment q ∈ s.pieces b) : q ∈ s.fragments := by
  rw [← s.collect_fragments, ← Statement.collect_pieces h, List.mem_flatMap]
  exact ⟨_, hq, List.mem_singleton.mpr rfl⟩

end Collect

end BoundSql
