import BoundSql.Proofs.Numbering.Weave
import BoundSql.Proofs.Sql.Faithful
import BoundSql.Proofs.Sql.Parts

/-!
# Clean statements are tidy

A statement is **clean** for a backend when its parts cannot upset the counting of
markers: raw text is closed and leaves room for numbered markers, identifiers are
safe to write, and fields carry no forged form. Nothing is asked of the shape of the
statement or of its values.

The pieces of a clean statement are tidy, provided its fragments are closed
(`Statement.tidy_pieces`). The proof follows the statement: each clause is tidy, and
the words between clauses show separators on both sides.
-/

namespace BoundSql

open Lexical Piece

/-! ## Clean parts -/

/-- A faithful field whose identifiers are safe to write. -/
structure Field.Clean (b : Backend) (f : Field) : Prop where
  faithful : f.Faithful
  safe : ∀ name ∈ f.names, Identifier.SafeFor b name

instance (b : Backend) (f : Field) : Decidable (f.Clean b) :=
  decidable_of_iff (f.Faithful ∧ ∀ name ∈ f.names, Identifier.SafeFor b name)
    ⟨fun h => ⟨h.1, h.2⟩, fun h => ⟨h.faithful, h.safe⟩⟩

instance (b : Backend) (raw : RawSql) : Decidable (raw.Admits b) :=
  decidable_of_iff (Closed raw.sql ∧ (b.markerStyle = .numbered → raw.Isolated))
    ⟨fun h => ⟨h.1, h.2⟩, fun h => ⟨h.closed, h.isolated⟩⟩

/-- An expression with clean fields and admitted raw SQL. -/
structure Expr.Clean (b : Backend) (e : Expr) : Prop where
  fields : ∀ f ∈ e.fields, f.Clean b
  raws : ∀ raw ∈ e.raws, raw.Admits b

/-- A statement with clean parts. -/
structure Statement.Clean (b : Backend) (s : Statement) : Prop where
  identifiers : ∀ name ∈ s.identifiers, Identifier.SafeFor b name
  fields : ∀ f ∈ s.fields, f.Clean b
  raws : ∀ raw ∈ s.raws, raw.Admits b
  columns : ∀ sql ∈ s.rawColumns, Closed sql

instance (b : Backend) (s : Statement) : Decidable (s.Clean b) :=
  decidable_of_iff ((∀ name ∈ s.identifiers, Identifier.SafeFor b name) ∧
      (∀ f ∈ s.fields, f.Clean b) ∧ (∀ raw ∈ s.raws, raw.Admits b) ∧
      ∀ sql ∈ s.rawColumns, Closed sql)
    ⟨fun h => ⟨h.1, h.2.1, h.2.2.1, h.2.2.2⟩,
      fun h => ⟨h.identifiers, h.fields, h.raws, h.columns⟩⟩

variable {b : Backend}

/-- The conditions of a clean statement are clean. -/
theorem Statement.Clean.conditions {s : Statement} (h : s.Clean b) :
    ∀ e ∈ s.conditions, e.Clean b := by
  intro e he
  refine ⟨fun f hf => h.fields f ?_, fun raw hraw => h.raws raw ?_⟩
  · exact List.mem_append.mpr (Or.inr (List.mem_flatMap.mpr ⟨e, he, hf⟩))
  · exact List.mem_flatMap.mpr ⟨e, he, hraw⟩

/-! ## Fields and predicates -/

theorem Field.Clean.silent {f : Field} (h : f.Clean b) :
    b.markerStyle.Silent (f.formWith (Identifier.quoted b)).toList := by
  unfold Field.formWith
  have hcolumn := Identifier.silent_quoted (h.safe f.column (by simp [Field.names]))
  cases htable : f.table with
  | none => exact hcolumn
  | some table =>
      have hname := Identifier.silent_quoted (h.safe table (by simp [Field.names, htable]))
      have hdot : b.markerStyle.Silent ['.'] :=
        MarkerStyle.silent_of_plain b.markerStyle (by decide : Plain ".")
      simp only [String.toList_append]
      refine (hname.append_of_apart hdot (Or.inr (by rintro c ⟨⟩; rfl))).append_of_apart hcolumn ?_
      refine Or.inl fun c hc => ?_
      rw [List.getLast?_append] at hc
      rw [← Option.some.inj hc]
      rfl

theorem Field.Clean.tidy {f : Field} (h : f.Clean b) : Tidy b (f.pieces b) := by
  unfold Field.pieces
  split
  · rename_i text htext
    refine tidy_singleton (p := .text text) ?_
    rw [h.faithful.preparedFor? htext]
    exact h.silent
  · have hcolumn := (tidy_nil b).name (h.safe f.column (by simp [Field.names]))
    cases htable : f.table with
    | none => exact hcolumn
    | some table =>
        exact hcolumn.glue.name (h.safe table (by simp [Field.names, htable]))

theorem tidy_comparison {field : List Piece} {token : String} (hfield : Tidy b field)
    (value : Bind) (htoken : Plain token := by decide) :
    Tidy b (comparison field token value) := by
  have hspace : Plain " " ∧ Leads " " := by decide
  have hplain : Plain (" " ++ token ++ " ") := (hspace.1.append htoken).append hspace.1
  have htrails : Trails (" " ++ token ++ " ") := by
    intro c hc
    rw [String.toList_append, List.getLast?_append] at hc
    rw [← Option.some.inj hc]
    rfl
  exact hfield.join (tidy_bind value) ⟨hplain, htrails⟩ ((hspace.2.append token).append " ")

theorem tidy_nullTest {field : List Piece} (hfield : Tidy b field) (negated : Bool) :
    Tidy b (nullTest negated field) := by
  refine hfield.append_clause ?_
  cases negated <;> exact clause_words

theorem tidy_valueList {field : List Piece} (hfield : Tidy b field) (negated : Bool)
    (values : List Bind) : Tidy b (valueList negated field values) := by
  have hvalues : Tidy b (commaSeparated (values.map fun value => [.bind value])) := by
    refine tidy_commaSeparated fun ps hps => ?_
    obtain ⟨value, -, rfl⟩ := List.mem_map.mp hps
    exact tidy_bind value
  refine Tidy.append_clause ?_ clause_words
  cases negated <;> exact hfield.join hvalues

theorem tidy_listTest {field : List Piece} (hfield : Tidy b field) (negated : Bool)
    (binds : List Bind) : Tidy b (listTest negated field binds) := by
  unfold listTest
  simp only []
  split
  · refine Tidy.mentions mem_mentions (tidy_words ?_)
    cases negated <;> decide
  · split
    · exact tidy_nullTest hfield negated
    · have hvalues := tidy_valueList hfield negated (binds.filter (!·.isNull))
      split
      · have hnull := tidy_nullTest hfield negated
        refine Tidy.append_clause ?_ clause_words
        cases negated <;> exact hvalues.glue.join hnull
      · exact hvalues

theorem tidy_caseInsensitiveLike {field pattern : List Piece} (hfield : Tidy b field)
    (hpattern : Tidy b pattern) : Tidy b (b.caseInsensitiveLike field pattern) := by
  unfold Backend.caseInsensitiveLike
  split
  · exact hfield.join hpattern
  · exact (hfield.glue.join hpattern).append_clause
      clause_words

theorem Predicate.tidy_pieces {p : Predicate} (h : p.field.Clean b) : Tidy b (p.pieces b) := by
  have hfield := h.tidy
  unfold Predicate.pieces
  simp only []
  split
  · split
    · exact tidy_nullTest hfield false
    · exact tidy_comparison hfield _
  · split
    · exact tidy_nullTest hfield true
    · exact tidy_comparison hfield _
  · exact tidy_comparison hfield _
  · exact tidy_comparison hfield _
  · exact tidy_comparison hfield _
  · exact tidy_comparison hfield _
  · exact tidy_comparison hfield _
  · exact tidy_caseInsensitiveLike hfield (tidy_bind _)
  · exact hfield.join ((tidy_bind _).join (tidy_bind _))
  · exact tidy_nullTest hfield false
  · exact tidy_nullTest hfield true
  · exact tidy_listTest hfield false _
  · exact tidy_listTest hfield true _
  · exact tidy_fail _

/-! ## Expressions -/

theorem Compiled.tidy_pieces {q : Compiled} (h : EndsInCode q.sql.toList) :
    Tidy b (q.pieces b) := by
  unfold Compiled.pieces
  split
  · rename_i hb
    exact tidy_singleton (p := .fragment q) ⟨hb, h⟩
  · exact tidy_fail _

theorem Membership.tidy_pieces {m : Membership} (hfield : m.field.Clean b)
    (h : EndsInCode m.query.sql.toList) : Tidy b (m.pieces b) := by
  have hquery : Tidy b (m.query.pieces b) := Compiled.tidy_pieces h
  unfold Membership.pieces
  refine Tidy.append_clause ?_ clause_words
  cases m.negated <;> exact hfield.tidy.join hquery

theorem Expr.Clean.mono {e e' : Expr} (h : e.Clean b) (hfields : e'.fields ⊆ e.fields)
    (hraws : e'.raws ⊆ e.raws) : e'.Clean b :=
  ⟨fun f hf => h.fields f (hfields hf), fun raw hraw => h.raws raw (hraws hraw)⟩

theorem tidy_binary {keyword : String} {left right : List Piece} (hleft : Tidy b left)
    (hright : Tidy b right) (hkeyword : Glue keyword := by decide)
    (hlead : Leads keyword := by decide) :
    Tidy b (.text "(" :: left ++ .text keyword :: right ++ [.text ")"]) :=
  (hleft.glue.join hright hkeyword hlead).append_clause clause_words

theorem Expr.tidy_pieces {e : Expr} (h : e.Clean b)
    (hfragments : ∀ q ∈ e.fragments, EndsInCode q.sql.toList) : Tidy b (e.pieces b) := by
  induction e with
  | predicate p => exact Predicate.tidy_pieces (h.fields p.field (by simp [fields]))
  | and left right ihleft ihright =>
      have hleft := ihleft (h.mono (List.subset_append_left ..) (List.subset_append_left ..))
        fun q hq => hfragments q (List.mem_append_left _ hq)
      have hright := ihright (h.mono (List.subset_append_right ..) (List.subset_append_right ..))
        fun q hq => hfragments q (List.mem_append_right _ hq)
      exact tidy_binary hleft hright
  | or left right ihleft ihright =>
      have hleft := ihleft (h.mono (List.subset_append_left ..) (List.subset_append_left ..))
        fun q hq => hfragments q (List.mem_append_left _ hq)
      have hright := ihright (h.mono (List.subset_append_right ..) (List.subset_append_right ..))
        fun q hq => hfragments q (List.mem_append_right _ hq)
      exact tidy_binary hleft hright
  | not inner ih =>
      exact (ih ⟨h.fields, h.raws⟩ hfragments).enclose
  | raw r => exact RawSql.tidy_pieces (h.raws r (by simp [raws]))
  | subquery m =>
      exact Membership.tidy_pieces (h.fields m.field (by simp [fields]))
        (hfragments m.query (by simp [fragments]))

theorem clause_conditionPieces {keyword : String} {cond : Option Expr}
    (h : ∀ e ∈ cond, Tidy b (e.pieces b)) (hkeyword : Glue keyword := by decide)
    (hlead : Leads keyword := by decide) : Clause b (conditionPieces b keyword cond) := by
  cases cond with
  | none => exact clause_nil b
  | some e => exact (h e rfl).clause hkeyword hlead

/-! ## Clauses of a query -/

theorem tidy_listClause {keyword stop : String} {items : List (List Piece)}
    (h : ∀ ps ∈ items, Tidy b ps) (hlead : stop = "" ∨ Leads stop)
    (hkeyword : Glue keyword := by decide) (hstop : Glue stop := by decide) :
    Tidy b (listClause keyword stop items) := by
  cases items with
  | nil => exact tidy_nil b
  | cons ps items =>
      have hitems := (tidy_commaSeparated h).glue hkeyword
      rcases hlead with rfl | hlead
      -- an empty last piece writes nothing that could meet the items
      · refine hitems.append (tidy_words hstop.1) fun i j => Or.inr ?_
        rintro c ⟨⟩
      · exact hitems.append_clause (clause_words hstop.1 hlead)

theorem clause_listClause {keyword : String} {items : List (List Piece)}
    (h : ∀ ps ∈ items, Tidy b ps) (hkeyword : Glue keyword := by decide)
    (hlead : Leads keyword := by decide) : Clause b (listClause keyword "" items) := by
  refine ⟨tidy_listClause h (Or.inl rfl) hkeyword, ?_⟩
  cases items with
  | nil => exact (clause_nil b).opens
  | cons ps items => exact opens_cons fun _ => hlead

theorem shuts_listClause {keyword stop : String}
    (hstop : ∃ c ∈ stop.toList.getLast?, isSeparator c = true) (items : List (List Piece)) :
    Shuts b (listClause keyword stop items) := by
  intro count c hc
  cases items with
  | nil => simp [listClause] at hc
  | cons ps items =>
      obtain ⟨d, hd, hsep⟩ := hstop
      rw [listClause, written_append, List.getLast?_append, written_cons, written_nil,
        List.append_nil, ownText, Option.mem_def.mp hd, Option.some_or] at hc
      · rw [← Option.some.inj hc]
        exact hsep
      · simp

theorem Cte.tidy_pieces {c : Cte} (hname : Identifier.SafeFor b c.name)
    (h : EndsInCode c.query.sql.toList) : Tidy b (c.pieces b) := by
  have hquery : Tidy b (c.query.pieces b) := Compiled.tidy_pieces h
  exact (hquery.glue.name hname).append_clause
    clause_words

/-- A text that holds no marker has no marks. -/
theorem marks_of_not_holdsMarker {sql : String} (h : holdsMarker sql = false)
    (style : MarkerStyle) : style.marks sql.toList = [] := by
  obtain ⟨hplaceholders, hmarkers⟩ := holdsMarker_eq_false_iff.mp h
  rw [← List.length_eq_zero_iff, ← style.count_eq_length_marks]
  cases style with
  | numbered => simp [MarkerStyle.count, hmarkers]
  | positional => simp [MarkerStyle.count, countPlaceholders, hplaceholders]

theorem SelectColumn.tidy_pieces {c : SelectColumn} (hfield : ∀ f ∈ c.field?, f.Clean b)
    (hname : ∀ name ∈ c.givenName?, Identifier.SafeFor b name)
    (hraw : ∀ sql ∈ c.rawText?, Closed sql) : Tidy b (c.pieces b) := by
  cases c with
  | star => exact tidy_words
  | field f => exact (hfield f rfl).tidy
  | aliased f name =>
      exact (hfield f rfl).tidy.join ((tidy_nil b).name (hname name rfl))
  | raw sql =>
      simp only [SelectColumn.pieces]
      split
      · exact tidy_fail _
      · rename_i h
        exact tidy_singleton (p := .text sql) ⟨(closed_iff sql).mp (hraw sql rfl),
          marks_of_not_holdsMarker (by simpa using h) b.markerStyle⟩

theorem Join.clause_pieces {j : Join} (htable : Identifier.SafeFor b j.table)
    (halias : ∀ name ∈ j.tableAlias, Identifier.SafeFor b name) (hon : Tidy b (j.on.pieces b)) :
    Clause b (j.pieces b) := by
  have hkind : Glue (" " ++ j.kind.keyword ++ " ") ∧ Leads (" " ++ j.kind.keyword ++ " ") := by
    cases j.kind <;> decide
  have hcond : Clause b (.text " ON " :: j.on.pieces b) := hon.clause
  unfold Join.pieces
  cases h : j.tableAlias with
  | none => exact (((tidy_nil b).name htable).clause hkind.1 hkind.2).append hcond
  | some given =>
      have hname : Clause b [.text " AS ", .name given] :=
        ((tidy_nil b).name (halias given h)).clause
      exact ((hname.tidy.name htable).clause hkind.1 hkind.2).append hcond

theorem Backend.tidy_orderTerm {field : List Piece} (hfield : Tidy b field) (descending : Bool)
    (nulls : Option NullsPlacement) : Tidy b (b.orderTerm field descending nulls) := by
  have hplain : Tidy b (field ++ [.text (" " ++ direction descending)]) := by
    refine hfield.append_clause ?_
    cases descending <;> exact clause_words
  unfold Backend.orderTerm
  simp only []
  cases nulls with
  | none => exact hplain
  | some placement =>
      simp only []
      split
      · refine hplain.append_clause ?_
        cases placement <;> exact clause_words
      · cases placement <;> exact hfield.join hplain

theorem plain_toString (n : Nat) : Plain (toString n) := by
  intro c hc
  rw [Nat.toString_eq_repr, Nat.toList_repr] at hc
  exact MarkerStyle.isPlain_of_isDigit (Text.isDigit_of_mem_digits hc)

theorem clause_bound {keyword : String} (n : Nat) (hkeyword : Plain keyword := by decide)
    (hlead : Leads keyword := by decide) : Clause b [.text (keyword ++ toString n)] :=
  clause_words (hkeyword.append (plain_toString n)) (hlead.append (toString n))

theorem clause_boundsPieces (limit offset : Option UInt64) :
    Clause b (boundsPieces b limit offset) := by
  refine Clause.append ?_ ?_
  · cases limit with
    | some n => exact clause_bound n.toNat
    | none =>
        cases offset with
        | none => exact clause_nil b
        | some n =>
            cases b with
            | postgresql => exact clause_nil _
            | mysql => exact clause_text (by decide) (by decide)
            | sqlite => exact clause_text (by decide) (by decide)
  · cases offset with
    | none => exact clause_nil b
    | some n => exact clause_bound n.toNat

/-- What the parts of a query need so that its pieces are tidy. -/
structure Query.Clean (b : Backend) (q : Query) : Prop where
  identifiers : ∀ ident ∈ q.identifiers, Identifier.SafeFor b ident
  fields : ∀ f ∈ q.ownFields, f.Clean b
  columns : ∀ sql ∈ q.columns.filterMap (·.rawText?), Closed sql
  conditions : ∀ e ∈ q.conditions, Tidy b (e.pieces b)
  fragments : ∀ c ∈ q.ctes, EndsInCode c.query.sql.toList

theorem Query.Clean.tidy_columns {q : Query} (h : q.Clean b) :
    ∀ ps ∈ q.columns.map (·.pieces b), Tidy b ps := by
  intro ps hps
  obtain ⟨c, hc, rfl⟩ := List.mem_map.mp hps
  refine SelectColumn.tidy_pieces (fun f hf => h.fields f ?_) (fun ident hident =>
    h.identifiers ident ?_) fun sql hsql => h.columns sql (List.mem_filterMap.mpr ⟨c, hc, hsql⟩)
  · have hmem : f ∈ q.columns.filterMap (·.field?) := List.mem_filterMap.mpr ⟨c, hc, hf⟩
    simp [Query.ownFields, hmem]
  · have hmem : ident ∈ q.columns.filterMap (·.givenName?) :=
      List.mem_filterMap.mpr ⟨c, hc, hident⟩
    simp only [Query.identifiers, List.mem_append]
    exact Or.inl (Or.inr hmem)

theorem Query.Clean.clause_joins {q : Query} (h : q.Clean b) :
    Clause b (q.joins.flatMap (·.pieces b)) := by
  refine clause_flatMap fun j hj => ?_
  have hident : ∀ ident ∈ j.table :: j.tableAlias.toList, Identifier.SafeFor b ident := by
    intro ident hmem
    refine h.identifiers ident ?_
    simp only [Query.identifiers, List.mem_append, List.mem_cons, List.mem_flatMap]
    exact Or.inr (Or.inr ⟨j, hj, List.mem_cons.mp hmem⟩)
  refine Join.clause_pieces (hident _ (by simp)) (fun ident hmem => hident _ ?_)
    (h.conditions j.on ?_)
  · simp [Option.mem_def.mp hmem]
  · simp only [Query.conditions, List.mem_append, List.mem_map]
    exact Or.inl (Or.inl ⟨j, hj, rfl⟩)

/-- A query up to its columns: the common table expressions, the words behind them and
the columns. -/
theorem Query.Clean.tidy_columnList {q : Query} (h : q.Clean b) :
    Tidy b (listClause "WITH " " " (q.ctes.map (·.pieces b)) ++
      .text "SELECT " :: (if q.distinct then [.text "DISTINCT "] else []) ++
      (if q.columns.isEmpty then [.text "*"]
        else commaSeparated (q.columns.map (·.pieces b)))) := by
  have hctes : ∀ ps ∈ q.ctes.map (·.pieces b), Tidy b ps := by
    intro ps hps
    obtain ⟨c, hc, rfl⟩ := List.mem_map.mp hps
    refine Cte.tidy_pieces (h.identifiers c.name ?_) (h.fragments c hc)
    simp only [Query.identifiers, List.mem_append, List.mem_map]
    exact Or.inl (Or.inl ⟨c, hc, rfl⟩)
  have hwith : Tidy b (listClause "WITH " " " (q.ctes.map (·.pieces b))) :=
    tidy_listClause hctes (Or.inr (by decide))
  have hspace : Shuts b (listClause "WITH " " " (q.ctes.map (·.pieces b))) :=
    shuts_listClause ⟨' ', rfl, rfl⟩ _
  have hselect : Tidy b (.text "SELECT " :: if q.distinct then [.text "DISTINCT "] else []) ∧
      Shuts b (.text "SELECT " :: if q.distinct then [.text "DISTINCT "] else []) := by
    cases q.distinct with
    | true =>
        have hword : Shuts b [.text "SELECT "] := shuts_text
        exact ⟨Tidy.glue tidy_words, hword.append shuts_text⟩
    | false => exact ⟨tidy_words, shuts_text⟩
  have hcolumns : Tidy b (if q.columns.isEmpty then [.text "*"]
      else commaSeparated (q.columns.map (·.pieces b))) := by
    split
    · exact tidy_words
    · exact tidy_commaSeparated h.tidy_columns
  -- the columns may start with anything, so the words before them have to end in a space
  exact (hwith.append_of_shuts hselect.1 hspace).append_of_shuts hcolumns
    (hspace.append hselect.2)

/-- A query behind its columns. -/
def Query.behindColumns (b : Backend) (q : Query) : List Piece :=
  .text " FROM " :: .name q.table :: q.joins.flatMap (·.pieces b) ++
    conditionPieces b " WHERE " q.condition ++
    listClause " GROUP BY " "" (q.groupBy.map (·.pieces b)) ++
    conditionPieces b " HAVING " q.having ++
    listClause " ORDER BY " ""
      (q.orderBy.map fun o => b.orderTerm (o.field.pieces b) o.descending o.nulls) ++
    boundsPieces b q.limit q.offset

theorem Query.Clean.clause_behindColumns {q : Query} (h : q.Clean b) :
    Clause b (q.behindColumns b) := by
  have htable : Identifier.SafeFor b q.table := by
    refine h.identifiers q.table ?_
    simp [Query.identifiers]
  have hwhere : ∀ e ∈ q.condition, Tidy b (e.pieces b) := fun e he =>
    h.conditions e (by simp [Query.conditions, Option.mem_def.mp he])
  have hhaving : ∀ e ∈ q.having, Tidy b (e.pieces b) := fun e he =>
    h.conditions e (by simp [Query.conditions, Option.mem_def.mp he])
  have hgroup : ∀ ps ∈ q.groupBy.map (·.pieces b), Tidy b ps := by
    intro ps hps
    obtain ⟨f, hf, rfl⟩ := List.mem_map.mp hps
    exact (h.fields f (by simp [Query.ownFields, hf])).tidy
  have horder : ∀ ps ∈ q.orderBy.map
      (fun o => b.orderTerm (o.field.pieces b) o.descending o.nulls), Tidy b ps := by
    intro ps hps
    obtain ⟨o, ho, rfl⟩ := List.mem_map.mp hps
    refine Backend.tidy_orderTerm (h.fields o.field ?_).tidy _ _
    simp only [Query.ownFields, List.mem_append, List.mem_map]
    exact Or.inr ⟨o, ho, rfl⟩
  have hfrom : Clause b (.text " FROM " :: .name q.table :: q.joins.flatMap (·.pieces b)) :=
    (h.clause_joins.tidy.name htable).clause
  exact ((((hfrom.append (clause_conditionPieces hwhere)).append (clause_listClause hgroup)).append
    (clause_conditionPieces hhaving)).append (clause_listClause horder)).append
    (clause_boundsPieces q.limit q.offset)

theorem Query.pieces_eq_columns (b : Backend) (q : Query) :
    q.pieces b = (listClause "WITH " " " (q.ctes.map (·.pieces b)) ++
      .text "SELECT " :: (if q.distinct then [.text "DISTINCT "] else []) ++
      (if q.columns.isEmpty then [.text "*"]
        else commaSeparated (q.columns.map (·.pieces b)))) ++ q.behindColumns b := by
  simp [Query.pieces, Query.behindColumns]

theorem Query.Clean.tidy_pieces {q : Query} (h : q.Clean b) : Tidy b (q.pieces b) := by
  rw [Query.pieces_eq_columns]
  exact h.tidy_columnList.append_clause h.clause_behindColumns

/-! ## Statements -/

theorem tidy_namePieces {names : List String}
    (h : ∀ ident ∈ names, Identifier.SafeFor b ident) : Tidy b (namePieces names) := by
  refine tidy_commaSeparated fun ps hps => ?_
  obtain ⟨ident, hident, rfl⟩ := List.mem_map.mp hps
  exact (tidy_nil b).name (h ident hident)

theorem clause_returningPieces {returning : List String}
    (h : ∀ ident ∈ returning, Identifier.SafeFor b ident) :
    Clause b (returningPieces b returning) := by
  unfold returningPieces
  split
  · exact clause_nil b
  · split
    · exact (tidy_namePieces h).clause
    · exact ⟨tidy_fail _, fun count c hc => by simp [ownText] at hc⟩

/-- The query of a clean statement has clean parts. -/
theorem Statement.Clean.query {s : Statement} (h : s.Clean b)
    (hfragments : ∀ q ∈ s.fragments, EndsInCode q.sql.toList) {q : Query} (hq : s.query? = some q)
    (hidentifiers : s.identifiers = q.identifiers) (hconditions : s.conditions = q.conditions) :
    q.Clean b := by
  refine ⟨fun ident hmem => h.identifiers ident (hidentifiers ▸ hmem), fun f hf => ?_,
    fun sql hsql => ?_, fun e he => ?_, fun c hc => ?_⟩
  · refine h.fields f ?_
    simp [Statement.fields, hq, hf]
  · refine h.columns sql ?_
    simpa [Statement.rawColumns, hq] using hsql
  · have hcond : e ∈ s.conditions := hconditions ▸ he
    refine Expr.tidy_pieces (h.conditions e hcond) fun p hp => hfragments p ?_
    simp only [Statement.fragments, List.mem_append, List.mem_flatMap]
    exact Or.inr ⟨e, hcond, hp⟩
  · refine hfragments c.query ?_
    simp only [Statement.fragments, hq, Option.toList_some, List.flatMap_cons, List.flatMap_nil,
      List.append_nil, List.mem_append, List.mem_map]
    exact Or.inl ⟨c, hc, rfl⟩

theorem Statement.tidy_insert {table : String} {values : List (String × Bind)}
    {returning : List String}
    (h : ∀ ident ∈ table :: values.map (·.1) ++ returning, Identifier.SafeFor b ident) :
    Tidy b ((insert table values returning).pieces b) := by
  have hnames : Tidy b (namePieces (values.map (·.1))) :=
    tidy_namePieces fun ident hident => h ident (by simp [hident])
  have hvalues : Tidy b (commaSeparated (values.map fun v => [.bind v.2])) := by
    refine tidy_commaSeparated fun ps hps => ?_
    obtain ⟨v, -, rfl⟩ := List.mem_map.mp hps
    exact tidy_bind v.2
  have hreturning := clause_returningPieces (b := b) fun ident hident =>
    h ident (List.mem_append_right _ hident)
  have htable := h table (by simp)
  rw [Statement.pieces]
  split
  · exact tidy_fail _
  · exact ((hnames.glue.name htable).glue.join hvalues).append_clause hreturning.tidy.clause

theorem Statement.tidy_update {table : String} {assignments : List (String × Bind)}
    {cond : Option Expr} {returning : List String}
    (h : ∀ ident ∈ table :: assignments.map (·.1) ++ returning, Identifier.SafeFor b ident)
    (hcond : ∀ e ∈ cond, Tidy b (e.pieces b)) :
    Tidy b ((update table assignments cond returning).pieces b) := by
  have hitems : ∀ ps ∈ assignments.map (fun a => [.name a.1, .text " = ", .bind a.2]),
      Tidy b ps := by
    intro ps hps
    obtain ⟨a, ha, rfl⟩ := List.mem_map.mp hps
    refine (tidy_bind a.2).glue.name (h a.1 ?_)
    simp only [List.mem_append, List.mem_cons, List.mem_map]
    exact Or.inl (Or.inr ⟨a, ha, rfl⟩)
  have hreturning := clause_returningPieces (b := b) fun ident hident =>
    h ident (List.mem_append_right _ hident)
  have hwhere : Clause b (conditionPieces b " WHERE " cond) :=
    clause_conditionPieces hcond
  have htable := h table (by simp)
  rw [Statement.pieces]
  split
  · exact tidy_fail _
  · exact (((tidy_commaSeparated hitems).glue.name htable).glue.append_clause
      hwhere).append_clause hreturning

theorem Statement.tidy_delete {table : String} {cond : Option Expr} {returning : List String}
    (h : ∀ ident ∈ table :: returning, Identifier.SafeFor b ident)
    (hcond : ∀ e ∈ cond, Tidy b (e.pieces b)) :
    Tidy b ((delete table cond returning).pieces b) := by
  have hreturning := clause_returningPieces (b := b) fun ident hident =>
    h ident (List.mem_cons_of_mem _ hident)
  have hwhere : Clause b (conditionPieces b " WHERE " cond) :=
    clause_conditionPieces hcond
  rw [Statement.pieces]
  exact (hwhere.tidy.name (h table (by simp))).glue.append_clause hreturning

/-- The pieces of a clean statement are tidy, if its fragments are closed. -/
theorem Statement.tidy_pieces {s : Statement} (h : s.Clean b)
    (hfragments : ∀ q ∈ s.fragments, EndsInCode q.sql.toList) : Tidy b (s.pieces b) := by
  have hconditions : ∀ e ∈ s.conditions, Tidy b (e.pieces b) := by
    intro e he
    refine Expr.tidy_pieces (h.conditions e he) fun p hp => hfragments p ?_
    simp only [Statement.fragments, List.mem_append, List.mem_flatMap]
    exact Or.inr ⟨e, he, hp⟩
  cases s with
  | select q => exact (h.query hfragments rfl rfl rfl).tidy_pieces
  | count q =>
      have hquery := (h.query hfragments rfl rfl rfl).tidy_pieces
      have hname : Clause b [.text ") AS ", .name "subquery"] :=
        ((tidy_nil b).name fun _ => by decide +kernel).clause
      rw [Statement.pieces]
      exact hquery.glue.append_clause hname
  | condition e => exact hconditions e (List.mem_singleton.mpr rfl)
  | insert table values returning => exact tidy_insert h.identifiers
  | update table assignments cond returning =>
      exact tidy_update h.identifiers fun e he => hconditions e (Option.mem_toList.mpr he)
  | delete table cond returning =>
      exact tidy_delete h.identifiers fun e he => hconditions e (Option.mem_toList.mpr he)

end BoundSql
