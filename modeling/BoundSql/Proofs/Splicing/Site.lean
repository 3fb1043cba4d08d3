import BoundSql.Proofs.Splicing.Moved

/-!
# Conditions compiled alone and in place

A statement can be compiled at once, or its conditions can be compiled alone first and
their finished texts put in place, each with its markers raised by the number of binds
before it. Both give the same text and the same binds
(`Expr.compile_alone_eq_in_place`), for the two sides of `AND` and `OR` and for every
condition of a statement.

`Statement.Site` says where conditions stand: behind which pieces, the keyword last, and
in front of which.
-/

namespace BoundSql

open Piece (written binds failure?)

/-! ## Parts of statements around their conditions -/

/-- A join up to its condition. -/
def Join.opening (j : Join) : List Piece :=
  .text (" " ++ j.kind.keyword ++ " ") :: .name j.table ::
    (match j.tableAlias with
      | some name => [.text " AS ", .name name]
      | none => []) ++ [.text " ON "]

/-- A query up to its table. -/
def Query.opening (b : Backend) (q : Query) : List Piece :=
  listClause "WITH " " " (q.ctes.map (·.pieces b)) ++
    .text "SELECT " :: (if q.distinct then [.text "DISTINCT "] else []) ++
    (if q.columns.isEmpty then [.text "*"]
      else Piece.commaSeparated (q.columns.map (·.pieces b))) ++
    [.text " FROM ", .name q.table]

/-- The groups of a query. -/
def Query.grouping (b : Backend) (q : Query) : List Piece :=
  listClause " GROUP BY " "" (q.groupBy.map (·.pieces b))

/-- A query behind its last condition. -/
def Query.ending (b : Backend) (q : Query) : List Piece :=
  listClause " ORDER BY " ""
      (q.orderBy.map fun o => b.orderTerm (o.field.pieces b) o.descending o.nulls) ++
    boundsPieces b q.limit q.offset

theorem Join.pieces_eq (b : Backend) (j : Join) : j.pieces b = j.opening ++ j.on.pieces b := by
  unfold Join.pieces Join.opening
  cases j.tableAlias <;> simp

theorem Query.pieces_eq (b : Backend) (q : Query) :
    q.pieces b = q.opening b ++ q.joins.flatMap (·.pieces b) ++
      conditionPieces b " WHERE " q.condition ++ q.grouping b ++
      conditionPieces b " HAVING " q.having ++ q.ending b := by
  simp [Query.pieces, Query.opening, Query.grouping, Query.ending]

namespace Statement

/-- A condition of a statement, with the pieces before it and behind it. -/
inductive Site (b : Backend) : Statement → List Piece → Expr → List Piece → Prop
  | bare (e : Expr) : Site b (.condition e) [] e []
  /-- The condition of a join stands behind the joins before it. -/
  | join {q : Query} {before behind : List Join} {j : Join} (h : q.joins = before ++ j :: behind) :
      Site b (.select q) (q.opening b ++ before.flatMap (·.pieces b) ++ j.opening) j.on
        (behind.flatMap (·.pieces b) ++ conditionPieces b " WHERE " q.condition ++ q.grouping b ++
          conditionPieces b " HAVING " q.having ++ q.ending b)
  | rows {q : Query} {e : Expr} (h : q.condition = some e) :
      Site b (.select q) (q.opening b ++ q.joins.flatMap (·.pieces b) ++ [.text " WHERE "]) e
        (q.grouping b ++ conditionPieces b " HAVING " q.having ++ q.ending b)
  | groups {q : Query} {e : Expr} (h : q.having = some e) :
      Site b (.select q)
        (q.opening b ++ q.joins.flatMap (·.pieces b) ++ conditionPieces b " WHERE " q.condition ++
          q.grouping b ++ [.text " HAVING "]) e (q.ending b)
  /-- Counting puts a query in parentheses. -/
  | counted {q : Query} {before behind : List Piece} {e : Expr}
      (h : Site b (.select q) before e behind) :
      Site b (.count q) (.text "SELECT COUNT(*) FROM (" :: before) e
        (behind ++ [.text ") AS ", .name "subquery"])
  | update {table : String} {assignments : List (String × Bind)} {e : Expr}
      {returning : List String} (hne : assignments ≠ []) :
      Site b (.update table assignments (some e) returning)
        (.text "UPDATE " :: .name table :: .text " SET " ::
          Piece.commaSeparated (assignments.map fun a => [.name a.1, .text " = ", .bind a.2]) ++
          [.text " WHERE "]) e (returningPieces b returning)
  | delete {table : String} {e : Expr} {returning : List String} :
      Site b (.delete table (some e) returning)
        [.text "DELETE FROM ", .name table, .text " WHERE "] e (returningPieces b returning)

variable {b : Backend} {s : Statement} {before behind : List Piece} {e : Expr}

/-- A statement is written as its sites say. -/
theorem Site.pieces_eq (h : s.Site b before e behind) :
    s.pieces b = before ++ e.pieces b ++ behind := by
  induction h with
  | bare e => simp [pieces]
  | join h => simp [pieces, Query.pieces_eq, h, Join.pieces_eq]
  | rows h => simp [pieces, Query.pieces_eq, h, conditionPieces]
  | groups h => simp [pieces, Query.pieces_eq, h, conditionPieces]
  | counted _ ih =>
      simp only [pieces] at ih ⊢
      simp [ih]
  | update hne => simp [pieces, hne, conditionPieces]
  | delete => simp [pieces, conditionPieces]

/-- Each condition of a query has a site. -/
theorem exists_site_select {q : Query} (he : e ∈ q.conditions) :
    ∃ before behind, (select q).Site b before e behind := by
  simp only [Query.conditions, List.mem_append, List.mem_map, Option.mem_toList] at he
  rcases he with (⟨j, hj, rfl⟩ | he) | he
  · obtain ⟨before, behind, hjoins⟩ := List.append_of_mem hj
    exact ⟨_, _, .join hjoins⟩
  · exact ⟨_, _, .rows he⟩
  · exact ⟨_, _, .groups he⟩

/-- Each condition of a statement that does not fail has a site. -/
theorem exists_site (hfailure : failure? (s.pieces b) = none) (he : e ∈ s.conditions) :
    ∃ before behind, s.Site b before e behind := by
  cases s with
  | select q => exact exists_site_select he
  | count q =>
      obtain ⟨before, behind, hsite⟩ := exists_site_select (b := b) he
      exact ⟨_, _, .counted hsite⟩
  | condition e' =>
      obtain rfl : e = e' := List.mem_singleton.mp he
      exact ⟨_, _, .bare e⟩
  | insert table values returning => cases he
  | update table assignments cond returning =>
      obtain rfl : cond = some e := Option.mem_toList.mp he
      have hne : assignments ≠ [] := by
        rintro rfl
        simp [pieces, Piece.error?] at hfailure
      exact ⟨_, _, .update hne⟩
  | delete table cond returning =>
      obtain rfl : cond = some e := Option.mem_toList.mp he
      exact ⟨_, _, .delete⟩

end Statement

/-! ## Compiling -/

variable {b : Backend}

/-- Two compiled conditions with a keyword between them, the second one moved behind the
binds of the first. -/
theorem Expr.compile_combination {keyword : String} {a e c : Expr} {p q : Compiled}
    (hpieces : c.pieces b =
      .text "(" :: a.pieces b ++ .text keyword :: e.pieces b ++ [.text ")"])
    (ha : a.compile b = .ok p) (he : e.compile b = .ok q) (hmove : e.Movable b) :
    c.compile b = .ok
      ⟨"(" ++ p.sql ++ keyword ++ q.rebasedSql p.binds.length ++ ")", p.binds ++ q.binds, b⟩ := by
  have hmoved := Expr.toList_rebasedSql he hmove p.binds.length
  obtain ⟨hfa, rfl⟩ := Statement.compile_eq_ok ha
  obtain ⟨hfe, rfl⟩ := Statement.compile_eq_ok he
  simp only [Statement.pieces] at hfa hfe hmoved ⊢
  have hfailure : failure? (c.pieces b) = none := by
    simp [hpieces, Piece.error?, hfa, hfe]
  rw [Expr.compile_of_failure?_eq_none hfailure]
  congr 2
  · rw [← String.toList_inj]
    simp [hpieces, Piece.written_append, Piece.ownText, Piece.ownBinds, hmoved]
  · simp [hpieces, Piece.ownBinds]

/-- A condition compiled alone and moved behind the binds before it is what stands in
place of it. -/
theorem Statement.Site.compile {s : Statement} {before behind : List Piece} {e : Expr}
    {r : Compiled} (hsite : s.Site b before e behind) (hcompile : s.compile b = .ok r) :
    ∃ q, e.compile b = .ok q ∧ r.binds = binds before ++ q.binds ++ binds behind ∧
      (e.Movable b →
        r.sql = String.ofList (written b 0 before) ++ q.rebasedSql (binds before).length ++
          String.ofList (written b ((binds before).length + q.binds.length) behind)) := by
  obtain ⟨hfailure, rfl⟩ := Statement.compile_eq_ok hcompile
  rw [hsite.pieces_eq] at hfailure ⊢
  simp only [Piece.failure?_append, Option.or_eq_none_iff] at hfailure
  have halone := Expr.compile_of_failure?_eq_none hfailure.1.2
  refine ⟨_, halone, by simp, fun hmove => ?_⟩
  have hmoved := Expr.toList_rebasedSql halone hmove (binds before).length
  rw [← String.toList_inj]
  simp [Piece.written_append, hmoved]

/-- Conditions can be compiled alone and put in place afterwards. Two conditions make the
text of the first, the keyword and the text of the second moved behind the binds of the
first; and each condition of a statement stands in its site moved behind the binds before
it. -/
theorem Expr.compile_alone_eq_in_place :
    (∀ (a e : Expr) (p q : Compiled), a.compile b = .ok p → e.compile b = .ok q →
      e.Movable b →
        (Expr.and a e).compile b = .ok
            ⟨"(" ++ p.sql ++ " AND " ++ q.rebasedSql p.binds.length ++ ")", p.binds ++ q.binds,
              b⟩ ∧
          (Expr.or a e).compile b = .ok
            ⟨"(" ++ p.sql ++ " OR " ++ q.rebasedSql p.binds.length ++ ")", p.binds ++ q.binds,
              b⟩) ∧
    ∀ (s : Statement) (r : Compiled), s.compile b = .ok r →
      (∀ e ∈ s.conditions, ∃ before behind, s.Site b before e behind) ∧
        ∀ before e behind, s.Site b before e behind →
          ∃ q, e.compile b = .ok q ∧ r.binds = binds before ++ q.binds ++ binds behind ∧
            (e.Movable b →
              r.sql = String.ofList (written b 0 before) ++ q.rebasedSql (binds before).length ++
                String.ofList
                  (written b ((binds before).length + q.binds.length) behind)) := by
  refine ⟨fun a e p q ha he hmove => ⟨?_, ?_⟩, fun s r hcompile => ⟨?_, ?_⟩⟩
  · exact Expr.compile_combination rfl ha he hmove
  · exact Expr.compile_combination rfl ha he hmove
  · exact fun e he => Statement.exists_site (Statement.compile_eq_ok hcompile).1 he
  · exact fun before e behind hsite => hsite.compile hcompile

theorem Expr.compile_alone_eq_in_place_zeros :
    let raw : RawSql := ⟨"\"x\" > ? -- '\n", [.int 4], by decide, by decide⟩
    let fragment : Compiled := ⟨"SELECT $02, $1", [.int 1, .int 2], .postgresql⟩
    let a : Expr := .predicate ⟨.named "a", .eq, [.int 7]⟩
    let e : Expr := .and (.subquery ⟨.named "b", false, fragment⟩) (.raw raw)
    let p : Compiled := ⟨"\"a\" = $1", [.int 7], .postgresql⟩
    let q : Compiled := ⟨"(\"b\" IN (SELECT $02, $1) AND \"x\" > $3 -- '\n)",
      [.int 1, .int 2, .int 4], .postgresql⟩
    let s : Statement := .update "t" [("c", .int 5), ("d", .int 6)] (some e) []
    let r : Compiled := ⟨"UPDATE \"t\" SET \"c\" = $1, \"d\" = $2 WHERE " ++
      "(\"b\" IN (SELECT $4, $3) AND \"x\" > $5 -- '\n)",
      [.int 5, .int 6, .int 1, .int 2, .int 4], .postgresql⟩
    a.compile .postgresql = .ok p ∧ e.compile .postgresql = .ok q ∧ e.Movable .postgresql ∧
      (Expr.and a e).compile .postgresql = .ok
        ⟨"(\"a\" = $1 AND (\"b\" IN (SELECT $3, $2) AND \"x\" > $4 -- '\n))",
          [.int 7, .int 1, .int 2, .int 4], .postgresql⟩ ∧
      s.compile .postgresql = .ok r ∧
      ∃ before, s.Site .postgresql before e [] ∧ (binds before).length = 2 ∧
        r.sql = String.ofList (written .postgresql 0 before) ++ q.rebasedSql 2 := by
  intro raw fragment a e p q s r
  have ha : a.compile .postgresql = .ok p :=
    Statement.compile_of_pieces (by decide +kernel) (by decide +kernel) rfl rfl
  have he : e.compile .postgresql = .ok q :=
    Statement.compile_of_pieces (by decide +kernel) (by decide +kernel) rfl rfl
  have hs : s.compile .postgresql = .ok r :=
    Statement.compile_of_pieces (by decide +kernel) (by decide +kernel) rfl rfl
  have hmove : e.Movable .postgresql := by
    refine fun _ => ⟨⟨by decide +kernel, by decide +kernel⟩, fun p hp => ?_⟩
    obtain rfl : p = fragment := by simpa [e, Expr.fragments] using hp
    exact .accepted trivial (by decide +kernel)
      (Compiled.ofParts_eq_ok_iff.mpr ⟨by decide, by decide, rfl⟩)
  obtain ⟨hcombine, hplace⟩ := Expr.compile_alone_eq_in_place (b := .postgresql)
  have hand := (hcombine a e p q ha he hmove).1
  have hsql : q.rebasedSql p.binds.length =
      "(\"b\" IN (SELECT $3, $2) AND \"x\" > $4 -- '\n)" := by decide +kernel
  rw [hsql] at hand
  have hsite : s.Site .postgresql _ e [] := .update (List.cons_ne_nil _ _)
  obtain ⟨q', he', -, htext⟩ := (hplace s r hs).2 _ e [] hsite
  obtain rfl : q = q' := Except.ok.inj (he.symm.trans he')
  exact ⟨ha, he, hmove, hand, hs, _, hsite, rfl,
    (htext hmove).trans String.append_empty⟩

end BoundSql
