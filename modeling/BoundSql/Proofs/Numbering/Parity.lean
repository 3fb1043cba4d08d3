import BoundSql.Proofs.Numbering.Clean
import BoundSql.Proofs.Sql.Pieces
import Mathlib.Data.List.Perm.Subperm
import Mathlib.Data.Option.Basic

/-!
# Markers stand for binds

Counting the markers of a compiled statement in its text gives the number of its
binds, and where markers are numbered, each number from one to that count is
written once. Without text from outside the numbers stand in order
(`Statement.markers_stand_for_binds`).

`Compiled.Numbered` is what holds of every fragment and is preserved when fragments
are spliced: the numbers of a fragment are moved behind those before it as one
block. `Compiled.Built` says where fragments come from; the induction goes over it,
so that fragments may hold fragments to any depth.
-/

namespace BoundSql

open Lexical Piece

/-- The marks of `n` binds whose numbers begin with `start`. -/
def MarkerStyle.numbers (style : MarkerStyle) (start n : Nat) : List (Option Nat) :=
  (List.range' start n).map style.markOf

namespace Compiled

/-- A query whose markers stand for its binds, one each, and in order unless text
from outside is allowed. -/
structure Numbered (external : Prop) (q : Compiled) : Prop where
  perm : q.marks.Perm (q.backend.markerStyle.numbers 1 q.binds.length)
  ordered : ¬ external → q.marks = q.backend.markerStyle.numbers 1 q.binds.length

/-- Queries compiled from clean statements whose fragments are of this kind
themselves. If text from outside is allowed, a closed text that was accepted is of
this kind as well. -/
inductive Built (external : Prop) : Compiled → Prop
  | compiled {b : Backend} {s : Statement} {q : Compiled} (hclean : s.Clean b)
      (hfragments : ∀ p ∈ s.fragments, Built external p) (hcompile : s.compile b = .ok q) :
      Built external q
  | accepted {sql : String} {binds : List Bind} {b : Backend} {q : Compiled}
      (hexternal : external) (hclosed : Closed sql) (haccept : ofParts sql binds b = .ok q) :
      Built external q

end Compiled

/-! ## Numbers of blocks -/

namespace MarkerStyle

theorem numbers_add (style : MarkerStyle) (start m n : Nat) :
    style.numbers start (m + n) = style.numbers start m ++ style.numbers (start + m) n := by
  rw [numbers, ← List.range'_append_1, List.map_append]
  rfl

theorem shiftMarks_numbers (style : MarkerStyle) (offset start n : Nat) :
    shiftMarks offset (style.numbers start n) = style.numbers (offset + start) n := by
  rw [numbers, numbers, ← List.map_add_range', shiftMarks, List.map_map, List.map_map]
  refine List.map_congr_left fun index _ => ?_
  cases style with
  | numbered => simp [markOf, Nat.add_comm]
  | positional => rfl

/-- Placeholders are as good as their count. -/
theorem numbers_positional (start n : Nat) :
    MarkerStyle.positional.numbers start n = List.replicate n none := by
  rw [numbers, List.eq_replicate_iff]
  refine ⟨by simp, fun m hm => ?_⟩
  obtain ⟨index, -, rfl⟩ := List.mem_map.mp hm
  rfl

end MarkerStyle

namespace Compiled

/-- A numbered query can be moved as long as the last of its numbers can be read. -/
theorem Numbered.shiftableBy {external : Prop} {q : Compiled} (h : q.Numbered external)
    {offset : Nat} (hreadable : q.backend.markerStyle.Readable (offset + q.binds.length)) :
    q.ShiftableBy offset := by
  intro index hindex
  have hmem := h.perm.mem_iff.mp hindex
  obtain ⟨i, hi, hmark⟩ := List.mem_map.mp hmem
  cases hstyle : q.backend.markerStyle with
  | numbered =>
      rw [hstyle] at hmark
      obtain rfl : i = index := Option.some.inj hmark
      have hle := (List.mem_range'_1.mp hi).2
      have hbound := hreadable hstyle
      omega
  | positional =>
      rw [hstyle] at hmark
      cases hmark

theorem Numbered.markerCount {external : Prop} {q : Compiled} (h : q.Numbered external) :
    q.markerCount = q.binds.length := by
  rw [markerCount_eq, h.perm.length_eq, MarkerStyle.numbers, List.length_map, List.length_range']

end Compiled

/-! ## One list of pieces -/

/-- The marks of a piece are the numbers of its binds. A fragment has to be numbered
itself. -/
theorem Piece.ownMarks_numbers {external : Prop} {b : Backend} {p : Piece} (count : Nat)
    (h : ∀ q, p = .fragment q → q.backend = b ∧ q.Numbered external) :
    (p.ownMarks b count).Perm (b.markerStyle.numbers (count + 1) p.ownBinds.length) ∧
      (¬ external →
        p.ownMarks b count = b.markerStyle.numbers (count + 1) p.ownBinds.length) := by
  cases p with
  | fragment q =>
      obtain ⟨rfl, hq⟩ := h q rfl
      -- the numbers of the fragment move as one block
      have hshift := q.backend.markerStyle.shiftMarks_numbers count 1 q.binds.length
      refine ⟨?_, fun hin => ?_⟩
      · show (shiftMarks count q.marks).Perm (q.backend.markerStyle.numbers _ q.binds.length)
        rw [← hshift]
        exact hq.perm.map _
      · show shiftMarks count q.marks = q.backend.markerStyle.numbers _ q.binds.length
        rw [← hshift, hq.ordered hin]
  | text s => exact ⟨List.Perm.refl _, fun _ => rfl⟩
  | name ident => exact ⟨List.Perm.refl _, fun _ => rfl⟩
  | mention ident => exact ⟨List.Perm.refl _, fun _ => rfl⟩
  | bind value => exact ⟨List.Perm.refl _, fun _ => rfl⟩
  | fail error => exact ⟨List.Perm.refl _, fun _ => rfl⟩

/-- The marks of pieces with numbered fragments are the numbers of their binds. -/
theorem Piece.marks_numbers {external : Prop} {b : Backend} {ps : List Piece} (count : Nat)
    (h : ∀ q, .fragment q ∈ ps → q.backend = b ∧ q.Numbered external) :
    (marks b count ps).Perm (b.markerStyle.numbers (count + 1) (binds ps).length) ∧
      (¬ external → marks b count ps = b.markerStyle.numbers (count + 1) (binds ps).length) := by
  induction ps generalizing count with
  | nil => exact ⟨List.Perm.refl _, fun _ => rfl⟩
  | cons p ps ih =>
      obtain ⟨hfirst, hfirstOrdered⟩ := Piece.ownMarks_numbers (p := p) count
        fun q hq => h q (hq ▸ List.mem_cons_self ..)
      obtain ⟨hperm, hordered⟩ := ih (count + p.ownBinds.length)
        fun q hq => h q (List.mem_cons_of_mem _ hq)
      have hstart : count + p.ownBinds.length + 1 = count + 1 + p.ownBinds.length := by omega
      rw [hstart] at hperm hordered
      rw [binds_cons, List.length_append, MarkerStyle.numbers_add, marks]
      exact ⟨hfirst.append hperm, fun hin => by rw [hfirstOrdered hin, hordered hin]⟩

/-- A fragment has no more binds than the list it stands in. -/
theorem Piece.length_binds_le {q : Compiled} {ps : List Piece} (h : .fragment q ∈ ps) :
    q.binds.length ≤ (binds ps).length := by
  obtain ⟨before, behind, rfl⟩ := List.append_of_mem h
  simp only [binds_append, binds_cons, ownBinds, List.length_append]
  omega

/-! ## One statement -/

/-- A clean statement compiles to a closed text. -/
theorem Statement.endsInCode_compile {b : Backend} {s : Statement} {q : Compiled}
    (hclean : s.Clean b) (hfragments : ∀ p ∈ s.fragments, EndsInCode p.sql.toList)
    (hcompile : s.compile b = .ok q) : EndsInCode q.sql.toList := by
  obtain ⟨-, rfl⟩ := Statement.compile_eq_ok hcompile
  rw [String.toList_ofList]
  exact (Statement.tidy_pieces hclean hfragments).ends 0

/-- The text of a clean statement with numbered fragments shows the marks of its
pieces. -/
theorem Statement.marks_compile {external : Prop} {b : Backend} {s : Statement} {q : Compiled}
    (hclean : s.Clean b) (hends : ∀ p ∈ s.fragments, EndsInCode p.sql.toList)
    (hnumbered : ∀ p ∈ s.fragments, p.backend.markerStyle.Readable p.binds.length →
      p.Numbered external)
    (hcompile : s.compile b = .ok q) (hreadable : b.markerStyle.Readable q.binds.length) :
    (∀ p, .fragment p ∈ s.pieces b → p.backend = b ∧ p.Numbered external) ∧
      q.marks = marks b 0 (s.pieces b) := by
  obtain ⟨hfailure, rfl⟩ := Statement.compile_eq_ok hcompile
  have htidy := Statement.tidy_pieces hclean hends
  have hfragments : ∀ p, .fragment p ∈ s.pieces b → p.backend = b ∧ p.Numbered external := by
    intro p hp
    obtain ⟨rfl, -⟩ := htidy.sound _ hp
    -- a fragment's numbers are no larger than the count of all binds
    have hle := Piece.length_binds_le hp
    exact ⟨rfl, hnumbered p (Statement.mem_fragments hfailure hp) (hreadable.mono hle)⟩
  have hmarks := htidy.marks_written 0 (by simpa using hreadable) fun p hp offset hr =>
    (hfragments p hp).2.shiftableBy (by rw [(hfragments p hp).1]; exact hr)
  refine ⟨hfragments, ?_⟩
  rw [← hmarks, Compiled.marks, String.toList_ofList]

/-- Splicing numbered fragments into a clean statement gives a numbered query. -/
theorem Statement.numbered_compile {external : Prop} {b : Backend} {s : Statement} {q : Compiled}
    (hclean : s.Clean b) (hends : ∀ p ∈ s.fragments, EndsInCode p.sql.toList)
    (hnumbered : ∀ p ∈ s.fragments, p.backend.markerStyle.Readable p.binds.length →
      p.Numbered external)
    (hcompile : s.compile b = .ok q) (hreadable : b.markerStyle.Readable q.binds.length) :
    q.Numbered external := by
  obtain ⟨hfragments, hmarks⟩ :=
    Statement.marks_compile hclean hends hnumbered hcompile hreadable
  obtain ⟨hperm, hordered⟩ := Piece.marks_numbers 0 hfragments
  obtain ⟨-, rfl⟩ := Statement.compile_eq_ok hcompile
  rw [← hmarks] at hperm hordered
  exact ⟨hperm, hordered⟩

/-! ## Text from outside -/

theorem Compiled.coversNumbers_iff {indices : List Nat} {count : Nat} :
    coversNumbers indices count = true ↔ List.range' 1 count ⊆ indices := by
  rw [coversNumbers, List.all_eq_true]
  exact forall₂_congr fun index _ => List.contains_iff_mem

/-- Numbers that are as many as the binds and leave none out are each used once. -/
theorem Compiled.perm_of_coversNumbers {indices : List Nat} {count : Nat}
    (hcovers : coversNumbers indices count = true) (hlength : indices.length = count) :
    indices.Perm (List.range' 1 count) := by
  have hsubperm := List.subperm_of_subset List.nodup_range' (coversNumbers_iff.mp hcovers)
  exact (hsubperm.perm_of_length_le (by simp [hlength])).symm

/-- What is asked of parts from outside, and what is made of them. -/
theorem Compiled.ofParts_eq_ok_iff {sql : String} {binds : List Bind} {b : Backend}
    {q : Compiled} :
    ofParts sql binds b = .ok q ↔
      b.markerStyle.count sql = binds.length ∧
        (b.markerStyle = .numbered → coversNumbers (markerIndices sql) binds.length = true) ∧
        q = ⟨sql, binds, b⟩ := by
  unfold ofParts
  simp only []
  split
  · rename_i hcount
    exact ⟨fun h => (by cases h), fun h => absurd h.1 hcount⟩
  · rename_i hcount
    rw [not_not] at hcount
    split
    · rename_i hgaps
      refine ⟨fun h => (by cases h), fun h => ?_⟩
      rw [h.2.1 hgaps.1] at hgaps
      exact absurd hgaps.2 (by decide)
    · rename_i hgaps
      refine ⟨fun h => ⟨hcount, fun hstyle => ?_, (Except.ok.inj h).symm⟩, fun h => by rw [h.2.2]⟩
      simpa [hstyle] using hgaps

theorem Compiled.numbered_ofParts {sql : String} {binds : List Bind} {b : Backend} {q : Compiled}
    (h : ofParts sql binds b = .ok q) : q.sql = sql ∧ q.Numbered True := by
  obtain ⟨hcount, hcovers, rfl⟩ := ofParts_eq_ok_iff.mp h
  refine ⟨rfl, ?_, fun hin => absurd trivial hin⟩
  rw [marks]
  cases hstyle : b.markerStyle with
  | numbered =>
      have hlength : (markerIndices sql).length = binds.length := by
        rw [← hcount, hstyle, markerIndices, List.length_map]
        rfl
      rw [MarkerStyle.marks_numbered]
      exact (perm_of_coversNumbers (hcovers hstyle) hlength).map some
  | positional =>
      rw [hstyle, MarkerStyle.count_eq_length_marks] at hcount
      rw [MarkerStyle.marks_positional, hcount, MarkerStyle.numbers_positional]

/-! ## All fragments -/

theorem Compiled.Built.endsInCode {external : Prop} {q : Compiled} (h : q.Built external) :
    EndsInCode q.sql.toList := by
  induction h with
  | compiled hclean _ hcompile ih => exact Statement.endsInCode_compile hclean ih hcompile
  | accepted _ hclosed haccept =>
      rw [(Compiled.numbered_ofParts haccept).1]
      exact (closed_iff _).mp hclosed

theorem Compiled.Built.numbered {external : Prop} {q : Compiled} (h : q.Built external)
    (hreadable : q.backend.markerStyle.Readable q.binds.length) : q.Numbered external := by
  induction h with
  | compiled hclean hfragments hcompile ih =>
      -- the induction hypothesis asks for readable numbers of each fragment on its own
      obtain ⟨-, rfl⟩ := Statement.compile_eq_ok hcompile
      exact Statement.numbered_compile hclean (fun p hp => (hfragments p hp).endsInCode) ih
        hcompile hreadable
  | accepted hexternal _ haccept =>
      obtain ⟨-, hnumbered⟩ := Compiled.numbered_ofParts haccept
      exact ⟨hnumbered.perm, fun hin => absurd hexternal hin⟩

/-- A compiled statement has a marker for each bind. On PostgreSQL each number from
one to the number of binds is written once, and in this order if no text came from
outside at any depth. -/
theorem Statement.markers_stand_for_binds {b : Backend} {s : Statement} {q : Compiled}
    (hclean : s.Clean b) (hfragments : ∀ p ∈ s.fragments, p.Built True)
    (hcompile : s.compile b = .ok q) (hreadable : b.markerStyle.Readable q.binds.length) :
    q.markerCount = q.binds.length ∧
      (b = .postgresql →
        (Compiled.markerIndices q.sql).Perm (List.range' 1 q.binds.length) ∧
        ((∀ p ∈ s.fragments, p.Built False) →
          Compiled.markerIndices q.sql = List.range' 1 q.binds.length)) := by
  have hbackend : q.backend = b := by
    obtain ⟨-, rfl⟩ := Statement.compile_eq_ok hcompile
    rfl
  have hreadable' : q.backend.markerStyle.Readable q.binds.length := by rwa [hbackend]
  have hnumbered := (Compiled.Built.compiled hclean hfragments hcompile).numbered hreadable'
  refine ⟨hnumbered.markerCount, ?_⟩
  rintro rfl
  have hmarks : q.marks = (Compiled.markerIndices q.sql).map some := by
    rw [Compiled.marks, hbackend]
    exact MarkerStyle.marks_numbered q.sql
  have hnumbers : ∀ n, q.backend.markerStyle.numbers 1 n = (List.range' 1 n).map some := by
    intro n
    rw [hbackend]
    rfl
  refine ⟨?_, fun hin => ?_⟩
  · have hperm := hnumbered.perm
    rw [hmarks, hnumbers] at hperm
    exact (List.map_perm_map_iff (Option.some_injective Nat)).mp hperm
  · have hbuilt := (Compiled.Built.compiled hclean hin hcompile).numbered hreadable'
    have hordered := hbuilt.ordered not_false
    rw [hmarks, hnumbers] at hordered
    exact List.map_injective_iff.mpr (Option.some_injective Nat) hordered

theorem Statement.markers_stand_for_binds_spliced :
    let raw : RawSql := ⟨"\"a\" = ?", [.int 7], by decide, by decide⟩
    let fragment : Compiled := ⟨"SELECT $2, $1 -- ?\n", [.int 1, .int 2], .postgresql⟩
    let e : Expr := .and (.raw raw) (.subquery ⟨.named "b$1", false, fragment⟩)
    let q : Compiled :=
      ⟨"(\"a\" = $1 AND \"b$1\" IN (SELECT $3, $2 -- ?\n))", [.int 7, .int 1, .int 2],
        .postgresql⟩
    (Statement.condition e).Clean .postgresql ∧
      (∀ p ∈ (Statement.condition e).fragments, p.Built True) ∧
      (Statement.condition e).compile .postgresql = .ok q ∧
      q.markerCount = q.binds.length ∧
      (Compiled.markerIndices q.sql).Perm [1, 2, 3] := by
  intro raw fragment e q
  have hclean : (Statement.condition e).Clean .postgresql := by decide +kernel
  have hclosed : Closed fragment.sql := by decide +kernel
  have haccept : Compiled.ofParts fragment.sql fragment.binds .postgresql = .ok fragment :=
    Compiled.ofParts_eq_ok_iff.mpr ⟨by decide, by decide, rfl⟩
  have hfragments : ∀ p ∈ (Statement.condition e).fragments, p.Built True := by
    intro p hp
    obtain rfl : p = fragment := List.mem_singleton.mp hp
    exact .accepted trivial hclosed haccept
  have hcompile : (Statement.condition e).compile .postgresql = .ok q :=
    Statement.compile_of_pieces (by decide +kernel) (by decide +kernel) rfl rfl
  have h := Statement.markers_stand_for_binds hclean hfragments hcompile (by decide)
  exact ⟨hclean, hfragments, hcompile, h.1, (h.2 rfl).1⟩

end BoundSql
