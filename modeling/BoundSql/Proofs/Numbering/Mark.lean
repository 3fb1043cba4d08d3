import BoundSql.Proofs.Lexical.Rebase
import BoundSql.Sql.Compiled
import Mathlib.Data.List.Basic

/-!
# The marks of a text

A **mark** is what a marker of some style says of its bind: the number of the
bind, or nothing where markers are placeholders. `MarkerStyle.marks` collects the
marks of a text from its lexemes, so that marks of texts written one behind the
other are put together at the same seams as their lexemes, and one argument
serves both styles.

`count_eq_length_marks` and `marks_numbered` tie marks to the counts and indices
that a compiled query reports.
-/

namespace BoundSql

open Lexical

namespace MarkerStyle

/-- The mark of a lexeme that is a marker of the style. -/
def mark? : MarkerStyle → Lexeme → Option (Option Nat)
  | .numbered, .marker _ index => some (some index)
  | .numbered, .glyph _ => none
  | .positional, .marker _ _ => none
  | .positional, .glyph g => if g.isPlaceholder then some none else none

/-- The marks of a text, in its order. -/
def marks (style : MarkerStyle) (cs : List Char) : List (Option Nat) :=
  (lexemes cs).filterMap style.mark?

/-- The mark of the bind with this number, counted from one. -/
def markOf (style : MarkerStyle) (index : Nat) : Option Nat :=
  match style with
  | .numbered => some index
  | .positional => none

end MarkerStyle

/-- Marks as they stand behind `offset` other binds. -/
def shiftMarks (offset : Nat) (marks : List (Option Nat)) : List (Option Nat) :=
  marks.map (·.map (· + offset))

namespace MarkerStyle

theorem marks_append_of_apart (style : MarkerStyle) {a b : List Char} (ha : EndsInCode a)
    (h : Apart a b) : style.marks (a ++ b) = style.marks a ++ style.marks b := by
  rw [marks, lexemes_append_of_apart ha h, List.filterMap_append]
  rfl

/-! ## Numbered marks -/

theorem map_index_markersFrom (pos : Nat) (ls : List Lexeme) :
    (markersFrom pos ls).map Marker.index = ls.filterMap Lexeme.index? := by
  induction ls generalizing pos with
  | nil => rfl
  | cons l ls ih =>
      cases l with
      | glyph g => exact ih _
      | marker digits index => simp [markersFrom, Lexeme.index?, ih]

theorem numbered_mark? (l : Lexeme) :
    MarkerStyle.numbered.mark? l = l.index?.map some := by
  cases l <;> rfl

theorem markerIndices_eq (sql : String) :
    Compiled.markerIndices sql = (lexemes sql.toList).filterMap Lexeme.index? :=
  map_index_markersFrom 0 (lexemes sql.toList)

theorem shiftable_iff (sql : String) (offset : Nat) :
    Shiftable offset (lexemes sql.toList) ↔
      ∀ index ∈ Compiled.markerIndices sql, index + offset < indexBound := by
  rw [markerIndices_eq]
  constructor
  · intro h index hindex
    obtain ⟨l, hl, hmarker⟩ := List.mem_filterMap.mp hindex
    exact h l hl index hmarker
  · intro h l hl index hindex
    exact h index (List.mem_filterMap.mpr ⟨l, hl, hindex⟩)

/-- Rebasing raises the indices of the markers, if the sums fit. -/
theorem markerIndices_rebase {sql : String} {offset : Nat}
    (h : Shiftable offset (lexemes sql.toList)) :
    Compiled.markerIndices (rebase sql offset) =
      (Compiled.markerIndices sql).map (· + offset) := by
  by_cases hoffset : offset = 0
  · simp [hoffset]
  · have hraise : ∀ l ∈ lexemes sql.toList,
        (l.shift offset).index? = l.index?.map (· + offset) := by
      intro l hl
      cases l with
      | glyph g => rfl
      | marker digits index => exact congrArg some (wrapIndex_of_lt (h _ hl index rfl))
    rw [markerIndices_eq, markerIndices_eq, lexemes_rebase hoffset, List.filterMap_map,
      List.map_filterMap]
    exact List.filterMap_congr hraise

/-- The numbered marks of a text are the indices of its markers. -/
theorem marks_numbered (sql : String) :
    MarkerStyle.numbered.marks sql.toList = (Compiled.markerIndices sql).map some := by
  rw [markerIndices_eq, marks, List.map_filterMap]
  exact List.filterMap_congr fun l _ => numbered_mark? l

/-- A text without numbered marks has no marker among its lexemes. -/
theorem index?_of_marks_eq_nil {cs : List Char} (h : MarkerStyle.numbered.marks cs = []) :
    ∀ l ∈ lexemes cs, l.index? = none := by
  intro l hl
  have hmark := List.filterMap_eq_nil_iff.mp h l hl
  rw [numbered_mark?] at hmark
  exact Option.map_eq_none_iff.mp hmark

/-! ## Positional marks -/

/-- No placeholder stands in a marker. -/
theorem countP_dollarGlyphs {ds : List Char} (hdigits : ∀ c ∈ ds, c.isDigit = true) :
    (dollarGlyphs ds).countP Glyph.isPlaceholder = 0 := by
  rw [List.countP_eq_zero]
  intro g hg
  rcases List.mem_cons.mp hg with rfl | hg
  · decide
  · obtain ⟨c, hc, rfl⟩ := List.mem_map.mp hg
    have hne : c ≠ '?' := by
      rintro rfl
      exact absurd (hdigits _ hc) (by decide)
    simp [Glyph.isPlaceholder, hne]

theorem length_filterMap_positional {r : Region} {word : Bool} {cs : List Char}
    {ls : List Lexeme} (h : Cut r word cs ls) :
    (ls.filterMap MarkerStyle.positional.mark?).length =
      (glyphsFrom r cs).countP Glyph.isPlaceholder := by
  induction h with
  | nil r word => rfl
  | @marker ds cs ls hne hdigits hbound hstop _ ih =>
      have hmark : ∀ index, MarkerStyle.positional.mark? (.marker ds index) = none := fun _ => rfl
      rw [glyphsFrom_dollar hdigits, List.countP_append, countP_dollarGlyphs hdigits, ← ih,
        List.filterMap_cons_none (hmark _), Nat.zero_add]
  | @glyph r word c cs ls hno _ ih =>
      rw [glyphsFrom_cons, List.countP_cons, ← ih]
      by_cases hg : (⟨c, (r.step c cs.head?).2⟩ : Glyph).isPlaceholder = true
      · simp [mark?, hg]
      · simp [mark?, hg]

/-- Placeholders do not say a number. -/
theorem marks_positional (cs : List Char) :
    MarkerStyle.positional.marks cs =
      List.replicate (MarkerStyle.positional.marks cs).length none := by
  refine List.eq_replicate_of_mem fun m hm => ?_
  obtain ⟨l, -, hl⟩ := List.mem_filterMap.mp hm
  cases l with
  | glyph g =>
      simp only [mark?] at hl
      split at hl
      · exact (Option.some.inj hl).symm
      · cases hl
  | marker digits index => cases hl

/-- A style counts the marks of a text. -/
theorem count_eq_length_marks (style : MarkerStyle) (sql : String) :
    style.count sql = (style.marks sql.toList).length := by
  cases style with
  | numbered => simp [count, marks_numbered, Compiled.markerIndices]
  | positional =>
      rw [count, countPlaceholders, placeholderOffsets, length_placeholdersFrom]
      exact (length_filterMap_positional (cut_lexemes sql.toList)).symm

/-! ## The mark of a bind and of a rebased text -/

/-- Markers with numbers up to `n` can be read: an index is read as a machine word, and no
list that a machine holds is longer than that. Placeholders can always be read. -/
def Readable (style : MarkerStyle) (n : Nat) : Prop :=
  style = .numbered → n < indexBound

instance (style : MarkerStyle) (n : Nat) : Decidable (style.Readable n) :=
  inferInstanceAs (Decidable (style = .numbered → n < indexBound))

theorem Readable.mono {style : MarkerStyle} {m n : Nat} (h : style.Readable n) (hle : m ≤ n) :
    style.Readable m :=
  fun hstyle => Nat.lt_of_le_of_lt hle (h hstyle)

/-- A written number is read back as one marker. -/
theorem lexemes_numbered_marker (index : Nat) :
    lexemes (MarkerStyle.numbered.marker index).toList =
      [.marker (Text.digits (wrapIndex index)) (wrapIndex index)] := by
  have hcut := Cut.marker (Text.digits_ne_nil (wrapIndex index)) (isDigit_digits _)
    (by rw [Text.natOfDigits_digits]; exact wrapIndex_lt index) leadingDigits_nil
    (Cut.nil .code true)
  have hls := hcut.lexemesFrom_eq
  rw [List.append_nil, Text.natOfDigits_digits] at hls
  simp only [lexemes, glyphs, marker, String.toList_ofList]
  exact hls

/-- The marker of a bind is one marker, which says the number of the bind. -/
theorem marks_marker (style : MarkerStyle) {index : Nat} (h : style.Readable index) :
    style.marks (style.marker index).toList = [style.markOf index] := by
  cases style with
  | numbered =>
      rw [marks, lexemes_numbered_marker, wrapIndex_of_lt (h rfl)]
      rfl
  | positional =>
      show MarkerStyle.positional.marks "?".toList = [none]
      decide

theorem endsInCode_marker (style : MarkerStyle) (index : Nat) :
    EndsInCode (style.marker index).toList := by
  cases style with
  | numbered =>
      have h := regionAfter_marker (isDigit_digits (wrapIndex index)) (some ' ') []
      rw [List.append_nil] at h
      rw [EndsInCode, marker, String.toList_ofList, h]
      rfl
  | positional =>
      show EndsInCode "?".toList
      decide

end MarkerStyle

namespace Compiled

/-- The marks of a query's text. -/
def marks (q : Compiled) : List (Option Nat) :=
  q.backend.markerStyle.marks q.sql.toList

theorem markerCount_eq (q : Compiled) : q.markerCount = q.marks.length :=
  q.backend.markerStyle.count_eq_length_marks q.sql

/-- All numbers in the text of a query stay readable behind `offset` binds. -/
def ShiftableBy (q : Compiled) (offset : Nat) : Prop :=
  ∀ index, some index ∈ q.marks → index + offset < indexBound

/-- Then the markers in the text can be raised. -/
theorem ShiftableBy.shiftable {q : Compiled} {offset : Nat} (h : q.ShiftableBy offset)
    (hstyle : q.backend.markerStyle = .numbered) : Shiftable offset (lexemes q.sql.toList) := by
  rw [MarkerStyle.shiftable_iff]
  intro index hindex
  refine h index ?_
  rw [marks, hstyle, MarkerStyle.marks_numbered]
  exact List.mem_map_of_mem hindex

/-- Behind `offset` binds each number in the text of a query is that much larger. -/
theorem marks_rebasedSql {q : Compiled} {offset : Nat} (h : q.ShiftableBy offset) :
    q.backend.markerStyle.marks (q.rebasedSql offset).toList = shiftMarks offset q.marks := by
  unfold marks rebasedSql
  cases hstyle : q.backend.markerStyle with
  | numbered =>
      simp only [MarkerStyle.marks_numbered, shiftMarks, List.map_map,
        MarkerStyle.markerIndices_rebase (h.shiftable hstyle)]
      rfl
  | positional =>
      show MarkerStyle.positional.marks q.sql.toList = _
      rw [MarkerStyle.marks_positional, shiftMarks, List.map_replicate]
      rfl

theorem endsInCode_rebasedSql {q : Compiled} (h : EndsInCode q.sql.toList) (offset : Nat) :
    EndsInCode (q.rebasedSql offset).toList := by
  unfold rebasedSql
  split
  · exact (endsInCode_rebase q.sql offset).mpr h
  · exact h

end Compiled

end BoundSql
