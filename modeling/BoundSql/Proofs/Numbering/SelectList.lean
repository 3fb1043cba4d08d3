import BoundSql.Proofs.Numbering.Parity

/-!
# Counting markers behind a select list

Each raw column of a select list is looked at alone, and refused when it shows a marker.
The list is read as one text all the same: what a column leaves open goes on in the next
one, so that markers can come to light that no column shows, and what the whole list leaves
open hides the rest of the statement.

`Query.markers_behind_columns` counts the markers of a query by that one text. If it is
closed, its markers come on top of one marker for each bind; and if each raw column is
closed, it is closed and shows none.
-/

namespace BoundSql

open Lexical Piece

variable {b : Backend} {q : Query}

/-- The pieces of the select list. -/
def Query.columnPieces (b : Backend) (q : Query) : List Piece :=
  if q.columns.isEmpty then [.text "*"] else commaSeparated (q.columns.map (·.pieces b))

/-- The select list as it is written. -/
def Query.columnText (b : Backend) (q : Query) : String :=
  String.ofList (written b 0 (q.columnPieces b))

/-- A query without raw SQL, common table expressions and queries in its conditions, whose
fields carry no forged form. -/
structure Query.Plain (q : Query) : Prop where
  fields : ∀ f ∈ (Statement.select q).fields, f.Faithful
  raws : (Statement.select q).raws = []
  fragments : (Statement.select q).fragments = []

/-- A plain query is clean if its raw columns are closed. -/
theorem Query.Plain.clean (h : q.Plain) (hb : b ≠ .mysql)
    (hcolumns : ∀ sql ∈ (Statement.select q).rawColumns, Closed sql) : q.Clean b := by
  have hsafe : ∀ name, Identifier.SafeFor b name := fun name hmysql => absurd hmysql hb
  have hclean : (Statement.select q).Clean b := by
    refine ⟨fun name _ => hsafe name, fun f hf => ⟨h.fields f hf, fun name _ => hsafe name⟩,
      fun raw hraw => ?_, hcolumns⟩
    rw [h.raws] at hraw
    cases hraw
  refine hclean.query (fun p hp => ?_) rfl rfl rfl
  rw [h.fragments] at hp
  cases hp

/-- What stands behind the columns of a plain query does not depend on them. -/
theorem Query.Plain.clause_behindColumns (h : q.Plain) (hb : b ≠ .mysql) :
    Clause b (q.behindColumns b) := by
  have hplain : ({ q with columns := [] } : Query).Plain := by
    refine ⟨fun f hf => h.fields f ?_, h.raws, h.fragments⟩
    simp only [Statement.fields, Statement.query?, Option.toList_some, List.flatMap_cons,
      List.flatMap_nil, List.append_nil, Query.ownFields, List.filterMap_nil, List.nil_append,
      List.mem_append] at hf ⊢
    exact hf.imp_left fun hf => hf.imp_left Or.inr
  have hclean : ({ q with columns := [] } : Query).Clean b := by
    refine hplain.clean hb fun sql hsql => ?_
    simp [Statement.rawColumns, Statement.query?] at hsql
  exact hclean.clause_behindColumns

theorem Query.Plain.pieces_eq (h : q.Plain) (b : Backend) :
    q.pieces b = (.text "SELECT " :: (if q.distinct then [.text "DISTINCT "] else [])) ++
      (q.columnPieces b ++ q.behindColumns b) := by
  have hctes : q.ctes = [] := by
    have hfragments := (List.append_eq_nil_iff.mp h.fragments).1
    simpa [Statement.query?] using hfragments
  rw [Query.pieces_eq_columns, hctes]
  simp [listClause, Query.columnPieces]

/-- Columns hold no binds and no other queries. -/
theorem Query.collect_columnPieces {α : Type} (onBind : Bind → List α)
    (onFragment : Compiled → List α) (b : Backend) (q : Query) :
    (q.columnPieces b).flatMap (Piece.collect onBind onFragment) = [] := by
  unfold Query.columnPieces
  split
  · rfl
  · rw [Piece.collect_commaSeparated, List.flatMap_eq_nil_iff]
    intro ps hps
    obtain ⟨c, -, rfl⟩ := List.mem_map.mp hps
    exact c.collect_pieces

theorem Query.binds_columnPieces (b : Backend) (q : Query) : binds (q.columnPieces b) = [] := by
  rw [← Piece.flatMap_collect_binds]
  exact q.collect_columnPieces _ _ b

theorem Query.fragment_not_mem_columnPieces (b : Backend) (q : Query) (p : Compiled) :
    .fragment p ∉ q.columnPieces b := by
  intro hp
  have hnone := q.collect_columnPieces (fun _ => []) (fun p => [p]) b
  exact absurd (List.flatMap_eq_nil_iff.mp hnone _ hp) (List.cons_ne_nil p [])

/-! ## Counting -/

/-- Without fragments the marks of a tidy list are the numbers of its binds. -/
theorem Piece.Tidy.marks_of_no_fragment {ps : List Piece} (h : Tidy b ps)
    (hno : ∀ p, .fragment p ∉ ps) (hreadable : b.markerStyle.Readable (binds ps).length) :
    b.markerStyle.marks (written b 0 ps) = b.markerStyle.numbers 1 (binds ps).length := by
  have hmarks := h.marks_written 0 (by rwa [Nat.zero_add]) fun p hp => absurd hp (hno p)
  have hnumbered : ∀ p, .fragment p ∈ ps → p.backend = b ∧ p.Numbered False :=
    fun p hp => absurd hp (hno p)
  rw [hmarks, (Piece.marks_numbers 0 hnumbered).2 not_false]

/-- Closed raw columns make a select list that is closed and shows no marker. -/
theorem Query.Plain.silent_columnText (h : q.Plain) (hb : b ≠ .mysql)
    (hcolumns : ∀ sql ∈ (Statement.select q).rawColumns, Closed sql) :
    Closed (q.columnText b) ∧ b.markerStyle.marks (q.columnText b).toList = [] := by
  have htidy : Tidy b (q.columnPieces b) := by
    unfold Query.columnPieces
    split
    · exact tidy_words
    · exact tidy_commaSeparated (h.clean hb hcolumns).tidy_columns
  have hmarks := htidy.marks_of_no_fragment (q.fragment_not_mem_columnPieces b)
  rw [q.binds_columnPieces b] at hmarks
  rw [closed_iff, Query.columnText, String.toList_ofList]
  exact ⟨htidy.ends 0, hmarks fun _ => by decide⟩

/-- The marks behind a closed select list are those that the list shows, and then the
numbers of the binds. -/
theorem Query.Plain.marks_compile (h : q.Plain) (hb : b ≠ .mysql) {r : Compiled}
    (hcompile : (Statement.select q).compile b = .ok r)
    (hreadable : b.markerStyle.Readable r.binds.length) (hclosed : Closed (q.columnText b)) :
    r.marks = b.markerStyle.marks (q.columnText b).toList ++
      b.markerStyle.numbers 1 r.binds.length := by
  obtain ⟨hfailure, rfl⟩ := Statement.compile_eq_ok hcompile
  rw [closed_iff, Query.columnText, String.toList_ofList] at hclosed
  have hrest := h.clause_behindColumns hb
  have hpieces : (Statement.select q).pieces b = _ := h.pieces_eq b
  have hbinds : binds ((Statement.select q).pieces b) = binds (q.behindColumns b) := by
    rw [hpieces]
    cases q.distinct <;> simp [ownBinds, q.binds_columnPieces b]
  have hno : ∀ p, .fragment p ∉ q.behindColumns b := by
    intro p hp
    have hmem := Statement.mem_fragments hfailure (q := p) (by rw [hpieces]; simp [hp])
    rw [h.fragments] at hmem
    cases hmem
  obtain ⟨words, hwords, hglue⟩ : ∃ words : String, Glue words ∧
      written b 0 ((Statement.select q).pieces b) = words.toList ++
        (written b 0 (q.columnPieces b) ++ written b 0 (q.behindColumns b)) := by
    rw [hpieces]
    refine ⟨if q.distinct then "SELECT DISTINCT " else "SELECT ", ?_, ?_⟩
    · split <;> decide
    · cases q.distinct <;>
        simp [ownText, ownBinds, written_append, q.binds_columnPieces b]
  have hsilent : b.markerStyle.Silent words.toList := b.markerStyle.silent_of_plain hwords.1
  have hmarks := hrest.tidy.marks_of_no_fragment hno (by rwa [← hbinds])
  rw [Compiled.marks, Query.columnText, String.toList_ofList, String.toList_ofList, hglue,
    MarkerStyle.marks_append_of_apart _ hsilent.ends (Or.inl hwords.2), hsilent.marks,
    MarkerStyle.marks_append_of_apart _ hclosed (Or.inr (hrest.opens 0)), hmarks, hbinds]
  rfl

theorem Query.Plain.count_compile (h : q.Plain) (hb : b ≠ .mysql) {r : Compiled}
    (hcompile : (Statement.select q).compile b = .ok r)
    (hreadable : b.markerStyle.Readable r.binds.length) (hclosed : Closed (q.columnText b)) :
    r.markerCount = b.markerStyle.count (q.columnText b) + r.binds.length ∧
      (b = .postgresql → Compiled.markerIndices r.sql =
        Compiled.markerIndices (q.columnText b) ++ List.range' 1 r.binds.length) := by
  have hmarks := h.marks_compile hb hcompile hreadable hclosed
  have hbackend : r.backend = b := by
    obtain ⟨-, rfl⟩ := Statement.compile_eq_ok hcompile
    rfl
  refine ⟨?_, ?_⟩
  · rw [Compiled.markerCount_eq, hmarks, MarkerStyle.count_eq_length_marks, List.length_append,
      MarkerStyle.numbers, List.length_map, List.length_range']
  · rintro rfl
    rw [Compiled.marks, hbackend] at hmarks
    change MarkerStyle.numbered.marks r.sql.toList =
      MarkerStyle.numbered.marks (q.columnText .postgresql).toList ++
        (List.range' 1 r.binds.length).map some at hmarks
    rw [MarkerStyle.marks_numbered, MarkerStyle.marks_numbered, ← List.map_append] at hmarks
    exact List.map_injective_iff.mpr (Option.some_injective Nat) hmarks

/-- A plain query has a marker for each bind, numbered in order, if each raw column is closed.
If just the select list as a whole is closed, the markers that it shows are counted as well,
so that there is a marker for each bind and no other just if the list shows none. -/
theorem Query.markers_behind_columns (hb : b ≠ .mysql) (h : q.Plain) {r : Compiled}
    (hcompile : (Statement.select q).compile b = .ok r)
    (hreadable : b.markerStyle.Readable r.binds.length) :
    ((∀ sql ∈ (Statement.select q).rawColumns, Closed sql) →
        r.markerCount = r.binds.length ∧
          (b = .postgresql → Compiled.markerIndices r.sql = List.range' 1 r.binds.length)) ∧
      (Closed (q.columnText b) →
        r.markerCount = b.markerStyle.count (q.columnText b) + r.binds.length ∧
          (b = .postgresql → Compiled.markerIndices r.sql =
            Compiled.markerIndices (q.columnText b) ++ List.range' 1 r.binds.length)) := by
  refine ⟨fun hcolumns => ?_, h.count_compile hb hcompile hreadable⟩
  obtain ⟨hclosed, hsilent⟩ := h.silent_columnText hb hcolumns
  obtain ⟨hcount, hindices⟩ := h.count_compile hb hcompile hreadable hclosed
  refine ⟨?_, ?_⟩
  · rw [hcount, MarkerStyle.count_eq_length_marks, hsilent, List.length_nil, Nat.zero_add]
  · rintro rfl
    have hnone : MarkerStyle.numbered.marks (q.columnText .postgresql).toList = [] := hsilent
    rw [MarkerStyle.marks_numbered, List.map_eq_nil_iff] at hnone
    rw [hindices rfl, hnone, List.nil_append]

theorem Query.markers_behind_columns_quoted :
    let q : Query :=
      { table := "t"
        columns := [.raw "'a", .field (.named "$1"), .raw "b' || c"]
        condition := some (Field.eq (.named "d") (.int 7)) }
    let r : Compiled := ⟨"SELECT 'a, \"$1\", b' || c FROM \"t\" WHERE \"d\" = $1", [.int 7],
      .postgresql⟩
    q.Plain ∧ (Statement.select q).compile .postgresql = .ok r ∧
      ¬ Closed "'a" ∧ Closed (q.columnText .postgresql) ∧
      Compiled.markerIndices r.sql = [1] := by
  intro q r
  have hplain : q.Plain := ⟨by decide +kernel, rfl, rfl⟩
  have hcompile : (Statement.select q).compile .postgresql = .ok r :=
    Statement.compile_of_pieces (by decide +kernel) (by decide +kernel) rfl rfl
  have hclosed : Closed (q.columnText .postgresql) := by decide +kernel
  have h := Query.markers_behind_columns (b := .postgresql) (by decide) hplain hcompile (by decide)
  have hindices := (h.2 hclosed).2 rfl
  have hnone : Compiled.markerIndices (q.columnText .postgresql) = [] := by decide +kernel
  rw [hnone] at hindices
  exact ⟨hplain, hcompile, by decide +kernel, hclosed, hindices⟩

/-- A comment that a column leaves open hides the marker of the condition. -/
theorem Query.comment_hides_condition :
    let q : Query :=
      { table := "t"
        columns := [.raw "id -- key"]
        condition := some (Field.eq (.named "a") (.int 1)) }
    let r : Compiled := ⟨"SELECT id -- key FROM \"t\" WHERE \"a\" = $1", [.int 1], .postgresql⟩
    q.Plain ∧ (Statement.select q).compile .postgresql = .ok r ∧
      r.markerCount ≠ r.binds.length := by
  intro q r
  have hplain : q.Plain := ⟨by decide +kernel, rfl, rfl⟩
  have hcompile : (Statement.select q).compile .postgresql = .ok r :=
    Statement.compile_of_pieces (by decide +kernel) (by decide +kernel) rfl rfl
  exact ⟨hplain, hcompile, by decide +kernel⟩

end BoundSql
