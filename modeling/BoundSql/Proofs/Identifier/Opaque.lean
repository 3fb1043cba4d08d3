import BoundSql.Proofs.Identifier.Reads
import BoundSql.Proofs.Numbering.Clean
import BoundSql.Proofs.Sql.Faults

/-!
# Names stay in their quotes

Whatever a name holds, it is read back from the compiled text as one token, and nothing
outside the tokens depends on it. `Statement.tokens_compile` says so of statements without
raw text: the names of the tokens are the names of the statement in the order of its text,
and a statement that differs only in its names compiles to the same tokens with other names
in them.

The pieces of a statement are related to those of the statement without its names
(`Statement.reads_pieces`), part by part. Compiled queries in a statement have to be in
tokens themselves, which they are if they were compiled from statements of this kind
(`Compiled.RawFree.inTokens`); so the induction goes over the statement and then over the
queries in it.
-/

namespace BoundSql

open Identifier (Token Separable render namesOf tokens?)
open Piece

/-- A query whose text is in tokens. -/
def Compiled.InTokens (q : Compiled) : Prop :=
  ∃ ts, Separable q.backend ts ∧ q.sql.toList = render q.backend.quoteChar ts

variable {b : Backend}

/-! ## Fields and predicates -/

/-- A field is read by its names, prepared or not. -/
theorem Field.reads_pieces {f : Field} (h : f.Faithful) :
    Reads b (f.pieces b) (f.erase.pieces b) f.names := by
  have hbare : Reads b (({ f with prepared := none } : Field).pieces b) (f.erase.pieces b)
      f.names := by
    obtain ⟨name, table, column, prepared⟩ := f
    cases table with
    | none => exact reads_name column ""
    | some table => exact (reads_name column "").name table
  refine hbare.of_written ?_ ?_ fun count => ?_
  · rw [Field.failure?_pieces, Field.failure?_pieces]
  · rw [Field.binds_pieces, Field.binds_pieces]
  · rw [h.written_pieces, (Field.faithful_of_prepared_none rfl).written_pieces]
    rfl

section Tests

variable {field field' : List Piece} {ns : List String} (hfield : Reads b field field' ns)

include hfield

theorem reads_nullTest (negated : Bool) :
    Reads b (nullTest negated field) (nullTest negated field') ns := by
  cases negated <;> exact hfield.shut

theorem reads_comparison {token : String} (value : Bind)
    (htoken : Words (" " ++ token ++ " ") := by decide) :
    Reads b (comparison field token value) (comparison field' token value) ns := by
  simpa [comparison] using hfield.join (reads_bind value) htoken

theorem reads_valueList (negated : Bool) (values : List Bind) :
    Reads b (valueList negated field values) (valueList negated field' values) ns := by
  have hvalues := reads_binds (b := b) (fun value : Bind => value) values
  have hopen : Reads b (field ++ .text (if negated then " NOT IN (" else " IN (") ::
      commaSeparated (values.map fun value => [.bind value]))
      (field' ++ .text (if negated then " NOT IN (" else " IN (") ::
        commaSeparated (values.map fun value => [.bind value])) ns := by
    cases negated <;> simpa using hfield.join hvalues
  exact hopen.shut

/-- A list test writes its field once, twice if there are nulls and values, and not at all
if there are neither. -/
theorem reads_listTest (negated : Bool) (values : List Bind) :
    Reads b (listTest negated field values) (listTest negated field' values)
      (if values.isEmpty then []
        else if values.any (·.isNull) && values.any (!·.isNull) then ns ++ ns else ns) := by
  have hconstant : Reads b [.text (if negated then "1 = 1" else "1 = 0")]
      [.text (if negated then "1 = 1" else "1 = 0")] [] := by
    cases negated <;> exact reads_words
  have hvalues := reads_valueList hfield negated (values.filter (!·.isNull))
  have hnull := reads_nullTest hfield negated
  unfold listTest
  simp only []
  by_cases hempty : values.isEmpty = true
  · simp only [hempty, if_true]
    exact hconstant.mentions mem_mentions mem_mentions
  by_cases hnonull : values.any (!·.isNull) = true
  · have hfilter : (values.filter (!·.isNull)).isEmpty = false := by
      obtain ⟨value, hmem, hvalue⟩ := List.any_eq_true.mp hnonull
      exact List.isEmpty_eq_false_iff_exists_mem.mpr
        ⟨value, List.mem_filter.mpr ⟨hmem, hvalue⟩⟩
    simp only [hempty, hfilter, hnonull, Bool.false_eq_true, if_false, Bool.and_true]
    split
    · have hboth := hvalues.glue (s := "(")
      refine Reads.shut ?_
      cases negated <;> exact hboth.join hnull
    · exact hvalues
  · have hfilter : (values.filter (!·.isNull)).isEmpty = true := by
      simpa [List.filter_eq_nil_iff] using hnonull
    simp only [hempty, hfilter, hnonull, Bool.false_eq_true, if_true, if_false, Bool.and_false]
    exact hnull

end Tests

/-- A predicate is read by its field, as often as it is written. -/
theorem Predicate.reads_pieces {p : Predicate} (h : p.field.Faithful) :
    Reads b (p.pieces b) (p.erase.pieces b) p.writtenNames := by
  cases htakes : p.op.takes p.binds.length with
  | false =>
      have herase : p.erase.op.takes p.erase.binds.length = false := htakes
      rw [pieces_of_not_takes htakes, pieces_of_not_takes herase]
      exact reads_fail _ _ _
  | true =>
      obtain ⟨f, op, values⟩ := p
      have hfield : Reads b (f.pieces b) (f.erase.pieces b) f.names := Field.reads_pieces h
      have harity := fun n => Operator.length_of_takes (n := n) htakes
      cases op with
      | inList => exact reads_listTest hfield false values
      | notInList => exact reads_listTest hfield true values
      | isNull =>
          obtain rfl := List.length_eq_zero_iff.mp (harity 0 rfl)
          exact reads_nullTest hfield false
      | isNotNull =>
          obtain rfl := List.length_eq_zero_iff.mp (harity 0 rfl)
          exact reads_nullTest hfield true
      | between =>
          obtain ⟨low, high, rfl⟩ := List.length_eq_two.mp (harity 2 rfl)
          have hvalues := (reads_bind (b := b) low).join (s := " AND ") (reads_bind high)
          simpa [pieces, erase, writtenNames] using hfield.join (s := " BETWEEN ") hvalues
      | ilike =>
          obtain ⟨value, rfl⟩ := List.length_eq_one_iff.mp (harity 1 rfl)
          have hpattern := reads_bind (b := b) value
          simp only [pieces, erase, Backend.caseInsensitiveLike]
          split
          · simpa [writtenNames] using hfield.join (s := " ILIKE ") hpattern
          · have hlower := (hfield.glue (s := "LOWER(")).join (s := ") LIKE LOWER(") hpattern
            simpa [writtenNames] using hlower.shut (s := ")")
      | eq =>
          obtain ⟨value, rfl⟩ := List.length_eq_one_iff.mp (harity 1 rfl)
          simp only [pieces, erase]
          split
          · exact reads_nullTest hfield false
          · exact reads_comparison hfield value
      | neq =>
          obtain ⟨value, rfl⟩ := List.length_eq_one_iff.mp (harity 1 rfl)
          simp only [pieces, erase]
          split
          · exact reads_nullTest hfield true
          · exact reads_comparison hfield value
      | gt | gte | lt | lte | like =>
          obtain ⟨value, rfl⟩ := List.length_eq_one_iff.mp (harity 1 rfl)
          exact reads_comparison hfield value

/-! ## Expressions -/

theorem Compiled.reads_pieces {q : Compiled} (h : q.InTokens) :
    Reads b (q.pieces b) (q.erase.pieces b) q.writtenNames := by
  obtain ⟨ts, hts, htext⟩ := h
  have hbackend : q.erase.backend = q.backend := rfl
  unfold Compiled.pieces
  rw [hbackend]
  by_cases hb : q.backend = b
  · subst hb
    rw [if_pos rfl, if_pos rfl]
    exact reads_fragment hts htext
  · rw [if_neg hb, if_neg hb]
    exact reads_fail _ _ _

theorem reads_binary {keyword : String} {left left' right right' : List Piece}
    {ns ns' : List String} (hleft : Reads b left left' ns) (hright : Reads b right right' ns')
    (hkeyword : Words keyword := by decide) :
    Reads b (.text "(" :: left ++ .text keyword :: right ++ [.text ")"])
      (.text "(" :: left' ++ .text keyword :: right' ++ [.text ")"]) (ns ++ ns') :=
  (hleft.glue.join hright hkeyword).shut

/-- An expression without raw SQL is read by the names of its leaves. -/
theorem Expr.reads_pieces {e : Expr} (hfields : ∀ f ∈ e.fields, f.Faithful) (hraws : e.raws = [])
    (hfragments : ∀ q ∈ e.fragments, q.InTokens) :
    Reads b (e.pieces b) (e.erase.pieces b) e.writtenNames := by
  induction e with
  | predicate p => exact Predicate.reads_pieces (hfields p.field (by simp [fields]))
  | and left right ihleft ihright | or left right ihleft ihright =>
      obtain ⟨hrawsleft, hrawsright⟩ := List.append_eq_nil_iff.mp hraws
      have hleft := ihleft (fun f hf => hfields f (List.mem_append_left _ hf)) hrawsleft
        fun q hq => hfragments q (List.mem_append_left _ hq)
      have hright := ihright (fun f hf => hfields f (List.mem_append_right _ hf)) hrawsright
        fun q hq => hfragments q (List.mem_append_right _ hq)
      exact reads_binary hleft hright
  | not inner ih => exact (ih hfields hraws hfragments).glue.shut
  | raw r => cases hraws
  | subquery m =>
      have hfield := Field.reads_pieces (b := b) (hfields m.field (by simp [fields]))
      have hquery := Compiled.reads_pieces (b := b) (hfragments m.query (by simp [fragments]))
      simp only [pieces, erase, Membership.pieces, writtenNames]
      refine Reads.shut ?_
      cases m.negated <;> exact hfield.join hquery

theorem readsBehind_conditionPieces {keyword : String} {cond : Option Expr}
    (h : ∀ e ∈ cond, Reads b (e.pieces b) (e.erase.pieces b) e.writtenNames)
    (hkeyword : Words keyword := by decide) :
    ReadsBehind b (conditionPieces b keyword cond)
      (conditionPieces b keyword (cond.map Expr.erase))
      (cond.toList.flatMap (·.writtenNames)) := by
  cases cond with
  | none => exact readsBehind_nil b
  | some e => simpa [conditionPieces] using (h e rfl).behind hkeyword

/-! ## Clauses of a query -/

theorem readsBehind_listClause {α : Type} {keyword stop : String} {f g : α → List Piece}
    {names : α → List String} {xs : List α} (h : ∀ x ∈ xs, Reads b (f x) (g x) (names x))
    (hkeyword : Words keyword := by decide)
    (hstop : stop.toList.all Identifier.isInert = true := by decide) :
    ReadsBehind b (listClause keyword stop (xs.map f)) (listClause keyword stop (xs.map g))
      (xs.flatMap names) := by
  cases xs with
  | nil => exact readsBehind_nil b
  | cons x xs =>
      have hitems := (reads_commaSeparated h).behind hkeyword
      have hstop : ∀ c ∈ stop.toList, Identifier.isSteady b c = true :=
        fun c hc => Identifier.isSteady_of_isInert (List.all_eq_true.mp hstop c hc) b
      simpa [listClause] using hitems.append ⟨reads_text hstop, leading_singleton hstop⟩

theorem Cte.reads_pieces {c : Cte} (h : c.query.InTokens) :
    Reads b (c.pieces b) (c.erase.pieces b) c.writtenNames :=
  ((Compiled.reads_pieces h).name c.name).shut

theorem SelectColumn.reads_pieces {c : SelectColumn} (hfield : ∀ f ∈ c.field?, f.Faithful)
    (hraw : c.rawText? = none) : Reads b (c.pieces b) (c.erase.pieces b) c.writtenNames := by
  cases c with
  | star => exact reads_words
  | field f => exact Field.reads_pieces (hfield f rfl)
  | aliased f name => exact (Field.reads_pieces (hfield f rfl)).join (reads_name name "")
  | raw sql => cases hraw

theorem Join.reads_pieces {j : Join}
    (hon : Reads b (j.on.pieces b) (j.on.erase.pieces b) j.on.writtenNames) :
    ReadsBehind b (j.pieces b) (j.erase.pieces b) j.writtenNames := by
  have hkind : Words (" " ++ j.kind.keyword ++ " ") := by cases j.kind <;> decide
  obtain ⟨kind, table, given, on⟩ := j
  cases given with
  | none => exact (hon.name table).behind hkind
  | some given => exact ((hon.name given).name table).behind hkind

theorem Backend.reads_orderTerm {o : OrderBy} (h : o.field.Faithful) :
    Reads b (b.orderTerm (o.field.pieces b) o.descending o.nulls)
      (b.orderTerm (o.field.erase.pieces b) o.descending o.nulls) (o.writtenNames b) := by
  have hfield := Field.reads_pieces (b := b) h
  have hplain : Reads b (o.field.pieces b ++ [.text (" " ++ direction o.descending)])
      (o.field.erase.pieces b ++ [.text (" " ++ direction o.descending)]) o.field.names := by
    cases o.descending <;> exact hfield.shut
  unfold Backend.orderTerm OrderBy.writtenNames
  cases o.nulls with
  | none => simpa using hplain
  | some placement =>
      cases hnulls : b.nullsOrdering with
      | true =>
          simp only [Option.isSome_some, Bool.not_true, Bool.and_false, Bool.false_eq_true,
            if_true, if_false]
          cases placement <;> exact hplain.shut
      | false =>
          simp only [Option.isSome_some, Bool.not_false, Bool.and_true, Bool.false_eq_true,
            if_true, if_false]
          cases placement <;> exact hfield.join hplain

theorem readsBehind_boundsPieces (limit offset : Option UInt64) :
    ReadsBehind b (boundsPieces b limit offset) (boundsPieces b limit offset) [] := by
  have hbound : ∀ {keyword : String} (n : Nat), Words keyword →
      ReadsBehind b [.text (keyword ++ toString n)] [.text (keyword ++ toString n)] [] := by
    intro keyword n hkeyword
    refine Reads.behind (reads_nil b) (hkeyword.append fun c hc => ?_)
    rw [Nat.toString_eq_repr, Nat.toList_repr] at hc
    exact Identifier.isInert_of_isDigit (Text.isDigit_of_mem_digits hc)
  show ReadsBehind b (_ ++ _) (_ ++ _) ([] ++ [])
  refine ReadsBehind.append ?_ ?_
  · cases limit with
    | some n => exact hbound n.toNat (by decide)
    | none =>
        cases offset with
        | none => exact readsBehind_nil b
        | some n =>
            cases b with
            | postgresql => exact readsBehind_nil _
            | mysql => exact Reads.behind (reads_nil _)
            -- the limit that stands for none has a sign, which means nothing to placeholders
            | sqlite =>
                have hsteady : ∀ c ∈ " LIMIT -1".toList, Identifier.isSteady .sqlite c = true :=
                  List.all_eq_true.mp (by decide)
                exact ⟨reads_text hsteady, leading_singleton hsteady⟩
  · cases offset with
    | none => exact readsBehind_nil b
    | some n => exact hbound n.toNat (by decide)

theorem reads_namePieces (names : List String) :
    Reads b (namePieces names) (namePieces (names.map fun _ => "")) names := by
  have h := reads_commaSeparated (b := b) fun (name : String) (_ : name ∈ names) =>
    reads_name name ""
  simpa [namePieces, Function.comp_def, ← List.map_eq_flatMap] using h

theorem readsBehind_returningPieces (returning : List String) :
    ReadsBehind b (returningPieces b returning) (returningPieces b (returning.map fun _ => ""))
      returning := by
  cases returning with
  | nil => exact readsBehind_nil b
  | cons name names =>
      unfold returningPieces
      cases b.supports .returning with
      | true => exact (reads_namePieces (name :: names)).behind
      | false => exact ⟨reads_fail _ _ _, fun count => by simp [ownText]⟩

/-- What the parts of a query need so that it is read in tokens. -/
structure Query.Tokenised (b : Backend) (q : Query) : Prop where
  fields : ∀ f ∈ q.ownFields, f.Faithful
  columns : ∀ c ∈ q.columns, c.rawText? = none
  conditions : ∀ e ∈ q.conditions, Reads b (e.pieces b) (e.erase.pieces b) e.writtenNames
  fragments : ∀ c ∈ q.ctes, c.query.InTokens

namespace Query.Tokenised

variable {q : Query} (h : q.Tokenised b)

include h

theorem reads_columns :
    Reads b (if q.columns.isEmpty then [.text "*"] else commaSeparated (q.columns.map (·.pieces b)))
      (if q.erase.columns.isEmpty then [.text "*"]
        else commaSeparated (q.erase.columns.map (·.pieces b)))
      (q.columns.flatMap (·.writtenNames)) := by
  have hcolumn : ∀ c ∈ q.columns, Reads b (c.pieces b) (c.erase.pieces b) c.writtenNames := by
    intro c hc
    refine SelectColumn.reads_pieces (fun f hf => h.fields f ?_) (h.columns c hc)
    have hmem : f ∈ q.columns.filterMap (·.field?) := List.mem_filterMap.mpr ⟨c, hc, hf⟩
    simp [Query.ownFields, hmem]
  simp only [Query.erase, List.isEmpty_map]
  split
  · rename_i hempty
    rw [List.isEmpty_iff.mp hempty]
    exact reads_words
  · simpa [Function.comp_def] using reads_commaSeparated hcolumn

/-- A query up to its columns. -/
theorem reads_columnList :
    Reads b (listClause "WITH " " " (q.ctes.map (·.pieces b)) ++
        .text "SELECT " :: ((if q.distinct then [.text "DISTINCT "] else []) ++
          if q.columns.isEmpty then [.text "*"] else commaSeparated (q.columns.map (·.pieces b))))
      (listClause "WITH " " " (q.erase.ctes.map (·.pieces b)) ++
        .text "SELECT " :: ((if q.erase.distinct then [.text "DISTINCT "] else []) ++
          if q.erase.columns.isEmpty then [.text "*"]
          else commaSeparated (q.erase.columns.map (·.pieces b))))
      (q.ctes.flatMap (·.writtenNames) ++ q.columns.flatMap (·.writtenNames)) := by
  have hctes : ReadsBehind b (listClause "WITH " " " (q.ctes.map (·.pieces b)))
      (listClause "WITH " " " (q.erase.ctes.map (·.pieces b)))
      (q.ctes.flatMap (·.writtenNames)) := by
    have hcte : ∀ c ∈ q.ctes, Reads b (c.pieces b) (c.erase.pieces b) c.writtenNames :=
      fun c hc => Cte.reads_pieces (h.fragments c hc)
    have hlist : ReadsBehind b (listClause "WITH " " " (q.ctes.map (·.pieces b)))
        (listClause "WITH " " " (q.ctes.map (·.erase.pieces b)))
        (q.ctes.flatMap (·.writtenNames)) := readsBehind_listClause hcte
    simpa [Query.erase, Function.comp_def] using hlist
  refine hctes.reads.join ?_
  cases hdistinct : q.distinct with
  | true => simpa [Query.erase, hdistinct] using h.reads_columns.glue (s := "DISTINCT ")
  | false => simpa [Query.erase, hdistinct] using h.reads_columns

/-- A query behind its columns. -/
theorem readsBehind_behindColumns :
    ReadsBehind b (q.behindColumns b) (q.erase.behindColumns b)
      (q.table :: q.joins.flatMap (·.writtenNames) ++
        q.condition.toList.flatMap (·.writtenNames) ++ q.groupBy.flatMap (·.names) ++
        q.having.toList.flatMap (·.writtenNames) ++ q.orderBy.flatMap (·.writtenNames b)) := by
  have hfield : ∀ f ∈ q.groupBy, Reads b (f.pieces b) (f.erase.pieces b) f.names :=
    fun f hf => Field.reads_pieces (h.fields f (by simp [Query.ownFields, hf]))
  have hterm : ∀ o ∈ q.orderBy, Reads b (b.orderTerm (o.field.pieces b) o.descending o.nulls)
      (b.orderTerm (o.field.erase.pieces b) o.descending o.nulls) (o.writtenNames b) := by
    intro o ho
    refine Backend.reads_orderTerm (h.fields o.field ?_)
    simp only [Query.ownFields, List.mem_append, List.mem_map]
    exact Or.inr ⟨o, ho, rfl⟩
  have hjoins : ReadsBehind b (q.joins.flatMap (·.pieces b)) (q.joins.flatMap (·.erase.pieces b))
      (q.joins.flatMap (·.writtenNames)) := by
    refine readsBehind_flatMap fun j hj => Join.reads_pieces (h.conditions j.on ?_)
    simp only [Query.conditions, List.mem_append, List.mem_map]
    exact Or.inl (Or.inl ⟨j, hj, rfl⟩)
  have hwhere : ReadsBehind b (conditionPieces b " WHERE " q.condition)
      (conditionPieces b " WHERE " (q.condition.map Expr.erase))
      (q.condition.toList.flatMap (·.writtenNames)) :=
    readsBehind_conditionPieces fun e he =>
      h.conditions e (by simp [Query.conditions, Option.mem_def.mp he])
  have hhaving : ReadsBehind b (conditionPieces b " HAVING " q.having)
      (conditionPieces b " HAVING " (q.having.map Expr.erase))
      (q.having.toList.flatMap (·.writtenNames)) :=
    readsBehind_conditionPieces fun e he =>
      h.conditions e (by simp [Query.conditions, Option.mem_def.mp he])
  have hgroup : ReadsBehind b (listClause " GROUP BY " "" (q.groupBy.map (·.pieces b)))
      (listClause " GROUP BY " "" (q.groupBy.map (·.erase.pieces b)))
      (q.groupBy.flatMap (·.names)) := readsBehind_listClause hfield
  have horder : ReadsBehind b
      (listClause " ORDER BY " ""
        (q.orderBy.map fun o => b.orderTerm (o.field.pieces b) o.descending o.nulls))
      (listClause " ORDER BY " ""
        (q.orderBy.map fun o => b.orderTerm (o.field.erase.pieces b) o.descending o.nulls))
      (q.orderBy.flatMap (·.writtenNames b)) := readsBehind_listClause hterm
  have hfrom : ReadsBehind b (.text " FROM " :: .name q.table :: q.joins.flatMap (·.pieces b))
      (.text " FROM " :: .name "" :: q.joins.flatMap (·.erase.pieces b))
      (q.table :: q.joins.flatMap (·.writtenNames)) :=
    ((reads_name q.table "").append_behind hjoins).behind
  have hbounds := readsBehind_boundsPieces (b := b) q.limit q.offset
  have hall := ((((hfrom.append hwhere).append hgroup).append hhaving).append horder).append hbounds
  simpa [Query.behindColumns, Query.erase, Function.comp_def, List.flatMap_map, OrderBy.erase]
    using hall

theorem reads_pieces : Reads b (q.pieces b) (q.erase.pieces b) (q.writtenNames b) := by
  rw [Query.pieces_eq_columns, Query.pieces_eq_columns]
  have hall := h.reads_columnList.append_behind h.readsBehind_behindColumns
  simpa [Query.writtenNames] using hall

end Query.Tokenised

/-! ## Statements -/

namespace Statement

theorem reads_insert (table : String) (values : List (String × Bind)) (returning : List String) :
    Reads b ((insert table values returning).pieces b)
      ((insert table values returning).erase.pieces b)
      ((insert table values returning).writtenNames b) := by
  cases values with
  | nil => exact reads_fail _ _ _
  | cons v values =>
      have hnames := reads_namePieces (b := b) ((v :: values).map (·.1))
      have hvalues := reads_binds (b := b) (fun v : String × Bind => v.2) (v :: values)
      have hreturning := readsBehind_returningPieces (b := b) returning
      have hlists := (hnames.join (s := ") VALUES (") hvalues).append_behind
        (hreturning.reads.behind (s := ")"))
      have hall := (hlists.name (s := " (") table).glue (s := "INSERT INTO ")
      simpa [pieces, erase, writtenNames, Function.comp_def] using hall

theorem reads_update (table : String) (assignments : List (String × Bind)) {cond : Option Expr}
    (returning : List String)
    (hcond : ∀ e ∈ cond, Reads b (e.pieces b) (e.erase.pieces b) e.writtenNames) :
    Reads b ((update table assignments cond returning).pieces b)
      ((update table assignments cond returning).erase.pieces b)
      ((update table assignments cond returning).writtenNames b) := by
  cases assignments with
  | nil => exact reads_fail _ _ _
  | cons a assignments =>
      have hitems := reads_commaSeparated (b := b)
        fun (v : String × Bind) (_ : v ∈ a :: assignments) =>
          (reads_bind v.2).name (s := " = ") v.1
      have hwhere := readsBehind_conditionPieces hcond (by decide : Words " WHERE ")
      have hreturning := readsBehind_returningPieces (b := b) returning
      have hall := ((hitems.name (s := " SET ") table).glue (s := "UPDATE ")).append_behind
        (hwhere.append hreturning)
      simpa [pieces, erase, writtenNames, Function.comp_def, ← List.map_eq_flatMap] using hall

theorem reads_delete (table : String) {cond : Option Expr} (returning : List String)
    (hcond : ∀ e ∈ cond, Reads b (e.pieces b) (e.erase.pieces b) e.writtenNames) :
    Reads b ((delete table cond returning).pieces b)
      ((delete table cond returning).erase.pieces b)
      ((delete table cond returning).writtenNames b) := by
  have hwhere := readsBehind_conditionPieces hcond (by decide : Words " WHERE ")
  have hreturning := readsBehind_returningPieces (b := b) returning
  have hall := ((reads_name table "").append_behind (hwhere.append hreturning)).glue
    (s := "DELETE FROM ")
  simpa [pieces, erase, writtenNames] using hall

/-- The query of a statement that is read in tokens. -/
theorem tokenised_query {s : Statement} (hfields : ∀ f ∈ s.fields, f.Faithful)
    (hcolumns : s.rawColumns = [])
    (hconditions : ∀ e ∈ s.conditions, Reads b (e.pieces b) (e.erase.pieces b) e.writtenNames)
    (hfragments : ∀ p ∈ s.fragments, p.InTokens) {q : Query} (hq : s.query? = some q)
    (hconds : s.conditions = q.conditions) : q.Tokenised b := by
  refine ⟨fun f hf => hfields f ?_, fun c hc => ?_, fun e he => hconditions e (hconds ▸ he),
    fun c hc => hfragments c.query ?_⟩
  · simp [fields, hq, hf]
  · have hnone : q.columns.filterMap (·.rawText?) = [] := by simpa [rawColumns, hq] using hcolumns
    exact List.filterMap_eq_nil_iff.mp hnone c hc
  · simp only [fragments, hq, Option.toList_some, List.flatMap_singleton, List.mem_append,
      List.mem_map]
    exact Or.inl ⟨c, hc, rfl⟩

/-- The pieces of a statement without raw text are read in tokens, with the names that the
statement writes. -/
theorem reads_pieces {s : Statement} (hfields : ∀ f ∈ s.fields, f.Faithful) (hraws : s.raws = [])
    (hcolumns : s.rawColumns = []) (hfragments : ∀ p ∈ s.fragments, p.InTokens) :
    Reads b (s.pieces b) (s.erase.pieces b) (s.writtenNames b) := by
  have hconditions : ∀ e ∈ s.conditions,
      Reads b (e.pieces b) (e.erase.pieces b) e.writtenNames := by
    intro e he
    refine Expr.reads_pieces (fun f hf => hfields f ?_) ?_ fun p hp => hfragments p ?_
    · simp only [fields, List.mem_append, List.mem_flatMap]
      exact Or.inr ⟨e, he, hf⟩
    · exact List.flatMap_eq_nil_iff.mp hraws e he
    · simp only [fragments, List.mem_append, List.mem_flatMap]
      exact Or.inr ⟨e, he, hp⟩
  cases s with
  | select q => exact (tokenised_query hfields hcolumns hconditions hfragments rfl rfl).reads_pieces
  | count q =>
      have hquery :=
        (tokenised_query hfields hcolumns hconditions hfragments rfl rfl).reads_pieces
      have hname := (reads_name (b := b) "subquery" "subquery").behind (s := ") AS ")
      have hall := (hquery.glue (s := "SELECT COUNT(*) FROM (")).append_behind hname
      simpa [pieces, erase, writtenNames] using hall
  | condition e => exact hconditions e (List.mem_singleton.mpr rfl)
  | insert table values returning => exact reads_insert table values returning
  | update table assignments cond returning =>
      exact reads_update table assignments returning fun e he =>
        hconditions e (Option.mem_toList.mpr he)
  | delete table cond returning =>
      exact reads_delete table returning fun e he => hconditions e (Option.mem_toList.mpr he)

end Statement

/-! ## Compiled queries -/

/-- A query compiled from a statement without raw text is in tokens. The induction is on
how the queries in the statement were compiled. -/
theorem Compiled.RawFree.inTokens {q : Compiled} (h : q.RawFree) : q.InTokens := by
  induction h with
  | compiled hfields hraws hcolumns _ hcompile ih =>
      obtain ⟨hfailure, rfl⟩ := Statement.compile_eq_ok hcompile
      obtain ⟨ts, us, hts, -, -, hwritten, -⟩ :=
        (Statement.reads_pieces hfields hraws hcolumns ih).text hfailure 0
      exact ⟨ts, hts, by rw [String.toList_ofList, hwritten]⟩

theorem Statement.RawFree.reads_pieces {s : Statement} (h : s.RawFree) (b : Backend) :
    Reads b (s.pieces b) (s.erase.pieces b) (s.writtenNames b) :=
  Statement.reads_pieces h.fields h.raws h.columns fun p hp => (h.fragments p hp).inTokens

/-- The text that a statement without raw text compiles to, in tokens, beside the text of the
statement without its names. -/
theorem Statement.RawFree.exists_tokens {s : Statement} {q : Compiled} (h : s.RawFree)
    (hcompile : s.compile b = .ok q) :
    ∃ ts us, Separable b ts ∧ namesOf ts = s.writtenNames b ∧
      us.map Token.erase = ts.map Token.erase ∧ q.sql.toList = render b.quoteChar ts ∧
      s.erase.compile b = .ok ⟨String.ofList (render b.quoteChar us), q.binds, b⟩ := by
  obtain ⟨hfailure, rfl⟩ := Statement.compile_eq_ok hcompile
  have hreads := h.reads_pieces b
  obtain ⟨ts, us, hts, hnames, herase, hwritten, hother⟩ := hreads.text hfailure 0
  refine ⟨ts, us, hts, hnames, herase, by rw [String.toList_ofList, hwritten], ?_⟩
  have hnone : failure? (s.erase.pieces b) = none := by
    have hsome := hreads.failure
    rw [hfailure] at hsome
    exact Option.not_isSome_iff_eq_none.mp (by simp [hsome])
  rw [Statement.compile, Piece.assemble, hnone, ← hother, hreads.binds]
  rfl

/-- A statement without raw text compiles if it does without its names. -/
theorem Statement.RawFree.compiles_of_erase {s : Statement} (h : s.RawFree) {q : Compiled}
    (hcompile : s.erase.compile b = .ok q) : ∃ q', s.compile b = .ok q' := by
  obtain ⟨hfailure, -⟩ := Statement.compile_eq_ok hcompile
  have hsome := (h.reads_pieces b).failure
  rw [hfailure] at hsome
  have hnone : failure? (s.pieces b) = none := Option.not_isSome_iff_eq_none.mp (by simp [← hsome])
  rw [Statement.compile, Piece.assemble, hnone]
  exact ⟨_, rfl⟩

/-- The names that a compiled query takes into other statements are those of the statement
that it was compiled from. -/
theorem Statement.RawFree.writtenNames_compile {s : Statement} {q : Compiled} (h : s.RawFree)
    (hcompile : s.compile b = .ok q) : q.writtenNames = s.writtenNames b := by
  obtain ⟨ts, us, hts, hnames, -, htext, -⟩ := h.exists_tokens hcompile
  obtain ⟨-, rfl⟩ := Statement.compile_eq_ok hcompile
  rw [Compiled.writtenNames, Compiled.tokens, htext, hts.tokens?_render]
  exact hnames

/-- Every name of a compiled text ends and is read back as it was given, in the order of the
text, and the text of a statement that differs only in its names differs only in the names
of its tokens. -/
theorem Statement.tokens_compile {s : Statement} {q : Compiled} (h : s.RawFree)
    (hcompile : s.compile b = .ok q) :
    ∃ tokens, tokens? b.quoteChar q.sql.toList = some tokens ∧
      namesOf tokens = s.writtenNames b ∧
      ∀ s' : Statement, s'.RawFree → s'.erase = s.erase →
        ∃ q' tokens', s'.compile b = .ok q' ∧
          tokens? b.quoteChar q'.sql.toList = some tokens' ∧
          tokens'.map Token.erase = tokens.map Token.erase ∧ q'.binds = q.binds := by
  obtain ⟨ts, us, hts, hnames, herase, htext, hother⟩ := h.exists_tokens hcompile
  refine ⟨ts, by rw [htext, hts.tokens?_render], hnames, ?_⟩
  intro s' h' hsame
  obtain ⟨q', hcompile'⟩ := h'.compiles_of_erase (hsame ▸ hother)
  obtain ⟨ts', us', hts', -, herase', htext', hother'⟩ := h'.exists_tokens hcompile'
  -- both texts have the tokens of one text, which is the text without the names
  rw [hsame, hother, Except.ok.injEq, Compiled.mk.injEq, String.ofList_inj] at hother'
  obtain ⟨hrender, hbinds, -⟩ := hother'
  have htokens : us = us' := by
    have hread := (hts.of_erase herase).tokens?_render
    rw [hrender, (hts'.of_erase herase').tokens?_render] at hread
    exact (Option.some.inj hread).symm
  refine ⟨q', ts', hcompile', by rw [htext', hts'.tokens?_render], ?_, hbinds.symm⟩
  rw [← herase', ← htokens, herase]

theorem Statement.tokens_compile_hostile :
    let inner : Statement := .select
      { table := "or\"ders; --", columns := [.field (.named "id$7")]
        condition := some (.predicate ⟨.named "/*", .eq, [.int 7]⟩) }
    let fragment : Compiled :=
      ⟨"SELECT \"id$7\" FROM \"or\"\"ders; --\" WHERE \"/*\" = $1", [.int 7], .postgresql⟩
    let prepared := ((Field.onTable "u" "na\"me").prepare (.fresh .postgresql)).1
    let s : Statement := .delete "it's"
      (some (.and (.predicate ⟨prepared, .inList, [.null, .int 1]⟩)
        (.subquery ⟨.named "x?", false, fragment⟩))) ["$1"]
    let sql := "DELETE FROM \"it's\" WHERE ((\"u\".\"na\"\"me\" IN ($1) OR " ++
      "\"u\".\"na\"\"me\" IS NULL) AND \"x?\" IN (SELECT \"id$7\" FROM " ++
      "\"or\"\"ders; --\" WHERE \"/*\" = $2)) RETURNING \"$1\""
    inner.compile .postgresql = .ok fragment ∧ s.RawFree ∧
      s.compile .postgresql = .ok ⟨sql, [.int 1, .int 7], .postgresql⟩ ∧
      ∃ tokens, tokens? '"' sql.toList = some tokens ∧ namesOf tokens =
        ["it's", "u", "na\"me", "u", "na\"me", "x?", "id$7", "or\"ders; --", "/*", "$1"] := by
  intro inner fragment prepared s sql
  have hinner : inner.RawFree := ⟨by decide, rfl, rfl, fun p hp => by cases hp⟩
  have hfragment : inner.compile .postgresql = .ok fragment :=
    Statement.compile_of_pieces (by decide +kernel) (by decide +kernel) rfl rfl
  have hs : s.RawFree := by
    refine ⟨by decide +kernel, rfl, rfl, ?_⟩
    intro p hp
    obtain rfl : p = fragment := by
      simpa [s, fragments, query?, conditions, Expr.fragments] using hp
    exact hinner.compile hfragment
  have hcompile : s.compile .postgresql = .ok ⟨sql, [.int 1, .int 7], .postgresql⟩ :=
    Statement.compile_of_pieces (by decide +kernel) (by decide +kernel) rfl rfl
  obtain ⟨tokens, htokens, hnames, -⟩ := Statement.tokens_compile hs hcompile
  refine ⟨hfragment, hs, hcompile, tokens, htokens, hnames.trans ?_⟩
  have hquery : fragment.writtenNames = ["id$7", "or\"ders; --", "/*"] :=
    hinner.writtenNames_compile hfragment
  simp only [s, writtenNames, Expr.writtenNames, Option.toList_some, List.flatMap_singleton,
    hquery]
  rfl

end BoundSql
