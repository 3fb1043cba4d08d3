import BoundSql.Proofs.Numbering.Pointwise
import BoundSql.Proofs.Numbering.Weave
import Mathlib.Data.String.Basic

/-!
# Splicing by slices

Rebasing and raw SQL write other texts over spans of a text. They do it with slices, one before
each span and one behind them all, and a slice fails that runs backwards, leaves the text or
cuts a character in two. `splice?` is that loop. No slice of it fails
(`numberedMarkers_pointwise`): the spans are those of markers and of placeholders, which
stand one behind the other, and begin and end where a character does.

A text that is given in parts, some of which are written over, is spliced without failure
(`splice?_edits`). The lexemes of a text are such parts, and so are the texts around
placeholders.
-/

namespace BoundSql

open Lexical

namespace Lexical

/-! ## Slices -/

/-- The text from byte `i` as far as byte `j`. There is none unless they come in this order and
both stand at the edge of a character. -/
def slice? (sql : String) (i j : Nat) : Option String :=
  if i ≤ j ∧ (⟨i⟩ : String.Pos.Raw).IsValid sql ∧ (⟨j⟩ : String.Pos.Raw).IsValid sql then
    some (String.Pos.Raw.extract sql ⟨i⟩ ⟨j⟩)
  else none

/-- The text behind byte `last` with other texts written over spans of it. -/
def splice? (sql : String) (last : Nat) : List (Span × String) → Option String
  | [] => slice? sql last sql.utf8ByteSize
  | (span, text) :: rest => do
      let before ← slice? sql last span.start
      let behind ← splice? sql span.stop rest
      return before ++ text ++ behind

theorem utf8Len_eq (cs : List Char) : String.utf8Len cs = byteSize cs := by
  induction cs with
  | nil => rfl
  | cons c cs ih => rw [String.utf8Len_cons, byteSize, ih, Nat.add_comm]

/-- The end of a first part is a position in the text. -/
theorem isValid_byteSize {sql : String} {front back : List Char} (h : sql.toList = front ++ back) :
    (⟨byteSize front⟩ : String.Pos.Raw).IsValid sql := by
  rw [String.Pos.Raw.isValid_iff_exists_append]
  refine ⟨String.ofList front, String.ofList back, ?_, ?_⟩
  · rw [← String.ofList_append, ← h, String.ofList_toList]
  · rw [← utf8ByteSize_ofList]
    rfl

/-- A part of a text is a slice of it. -/
theorem slice?_of_append {sql : String} {front part back : List Char}
    (h : sql.toList = front ++ (part ++ back)) :
    slice? sql (byteSize front) (byteSize (front ++ part)) = some (String.ofList part) := by
  have hend : sql.toList = (front ++ part) ++ back := by rw [h, List.append_assoc]
  have hextract := String.extract_of_valid front part back
  rw [← hend, String.ofList_toList, utf8Len_eq, utf8Len_eq, ← byteSize_append] at hextract
  have horder : byteSize front ≤ byteSize (front ++ part) := by
    rw [byteSize_append]
    exact Nat.le_add_right _ _
  rw [slice?, if_pos ⟨horder, isValid_byteSize h, isValid_byteSize hend⟩, hextract]

/-- The digits behind a dollar sign of code are a slice. -/
theorem slice?_digitRun {sql : String} {code : Span} (hcode : code ∈ codeSpans sql) {i : Nat}
    (hcovered : code.Covers i) (hdollar : (bytes sql)[i]? = some 36) :
    ∃ digits, slice? sql (i + 1) (i + 1 + (digitRun sql i code.stop).length) = some digits ∧
      bytes digits = digitRun sql i code.stop := by
  obtain ⟨front, ds, back, hglyphs, rfl, hdigits, hstops⟩ :=
    exists_of_dollar hcode hcovered hdollar
  rw [digitRun_eq hglyphs hdigits hstops hcode hcovered, length_encode]
  have hslice := @slice?_of_append sql (front.map Glyph.char ++ ['$']) ds (back.map Glyph.char)
    (by rw [toList_of_glyphs hglyphs]; simp)
  have hsize : byteSize (front.map Glyph.char ++ ['$']) = byteSize (front.map Glyph.char) + 1 :=
    byteSize_append ..
  rw [byteSize_append (_ ++ _) ds, hsize] at hslice
  refine ⟨String.ofList ds, hslice, ?_⟩
  rw [bytes_eq, String.toList_ofList]

/-! ## Parts -/

/-- A part of a text, and what is written over it, if anything is. -/
structure Part where
  chars : List Char
  newText : Option String

/-- What a part is written as. -/
def Part.written (p : Part) : List Char :=
  (p.newText.map String.toList).getD p.chars

/-- The spans of the parts that are written over, where the parts start at byte `pos`. -/
def edits (pos : Nat) : List Part → List (Span × String)
  | [] => []
  | p :: ps =>
      match p.newText with
      | some text => (⟨pos, pos + byteSize p.chars⟩, text) :: edits (pos + byteSize p.chars) ps
      | none => edits (pos + byteSize p.chars) ps

/-- A text given in parts is spliced, behind a part `gap` that has been passed and left. -/
theorem splice?_edits {sql : String} {front gap : List Char} {ps : List Part}
    (h : sql.toList = front ++ (gap ++ ps.flatMap Part.chars)) :
    splice? sql (byteSize front) (edits (byteSize (front ++ gap)) ps) =
      some (String.ofList (gap ++ ps.flatMap Part.written)) := by
  induction ps generalizing front gap with
  | nil =>
      have hsize : sql.utf8ByteSize = byteSize (front ++ gap) := by
        rw [utf8ByteSize_eq, h, List.flatMap_nil, List.append_nil]
      rw [edits, splice?, hsize, slice?_of_append h]
      simp
  | cons p ps ih =>
      rw [List.flatMap_cons] at h ⊢
      rw [edits, ← byteSize_append]
      cases hnew : p.newText with
      | none =>
          have hwritten : p.written = p.chars := by simp [Part.written, hnew]
          simp only []
          rw [List.append_assoc, ih (by simpa using h), hwritten, List.append_assoc]
      | some text =>
          have hwritten : p.written = text.toList := by simp [Part.written, hnew]
          have hrest := @ih (front ++ gap ++ p.chars) [] (by simpa using h)
          rw [List.append_nil] at hrest
          simp only [splice?]
          rw [slice?_of_append h, hrest, hwritten]
          simp [← String.toList_inj]

/-! ## Lexemes as parts -/

/-- The lexemes of a text, with a text for its index written over each marker. -/
def markerParts (text : Nat → String) (ls : List Lexeme) : List Part :=
  ls.map fun l => ⟨l.chars, l.index?.map text⟩

theorem chars_markerParts (text : Nat → String) (ls : List Lexeme) :
    (markerParts text ls).flatMap Part.chars = ls.flatMap Lexeme.chars :=
  List.flatMap_map ..

theorem edits_markerParts (text : Nat → String) (pos : Nat) (ls : List Lexeme) :
    edits pos (markerParts text ls) =
      (markersFrom pos ls).map fun m => (m.span, text m.index) := by
  induction ls generalizing pos with
  | nil => rfl
  | cons l ls ih =>
      rw [markerParts, List.map_cons, edits, markersFrom]
      cases l with
      | glyph g => exact ih _
      | marker digits index => exact congrArg (_ :: ·) (ih _)

/-- Whatever is written over the markers of a text, it is spliced without failure. -/
theorem splice?_markers (sql : String) (text : Nat → String) :
    splice? sql 0 ((numberedMarkers sql).map fun m => (m.span, text m.index)) =
      some (String.ofList ((markerParts text (lexemes sql.toList)).flatMap Part.written)) := by
  have h := @splice?_edits sql [] [] (markerParts text (lexemes sql.toList))
    (by rw [chars_markerParts, chars_lexemes]; rfl)
  rw [List.nil_append, List.nil_append, edits_markerParts] at h
  exact h

/-- Rebasing by slices. -/
def rebaseBySlices? (sql : String) (offset : Nat) : Option String :=
  if offset = 0 then some sql
  else
    splice? sql 0 ((numberedMarkers sql).map fun m =>
      (m.span, MarkerStyle.numbered.marker (m.index + offset)))

theorem rebaseBySlices?_eq (sql : String) (offset : Nat) :
    rebaseBySlices? sql offset = some (rebase sql offset) := by
  rw [rebaseBySlices?, rebase]
  split
  · rfl
  · rw [splice?_markers sql fun index => MarkerStyle.numbered.marker (index + offset), markerParts,
      List.flatMap_map]
    congr 2
    refine List.flatMap_congr fun l _ => ?_
    cases l with
    | glyph g => rfl
    | marker digits index => exact String.toList_ofList

/-! ## Placeholders -/

/-- The texts around placeholders, with other texts written over the placeholders. -/
def placeholderParts : List (List Char) → List String → List Part
  | [], _ => []
  | cs :: _, [] => [⟨cs, none⟩]
  | cs :: css, text :: texts =>
      ⟨cs, none⟩ :: ⟨['?'], some text⟩ :: placeholderParts css texts

/-- The spans of placeholders, given their offsets. -/
def placeholderSpans (offsets : List Nat) : List Span :=
  offsets.map fun offset => ⟨offset, offset + 1⟩

theorem placeholderParts_splitPlaceholders {gs : List Glyph} {texts : List String}
    (h : gs.countP Glyph.isPlaceholder = texts.length) (pos : Nat) :
    (placeholderParts (splitPlaceholders gs) texts).flatMap Part.chars = gs.map Glyph.char ∧
      edits pos (placeholderParts (splitPlaceholders gs) texts) =
        (placeholderSpans (placeholdersFrom pos gs)).zip texts := by
  induction gs generalizing pos texts with
  | nil =>
      obtain rfl : texts = [] := List.length_eq_zero_iff.mp h.symm
      exact ⟨rfl, rfl⟩
  | cons g gs ih =>
      obtain ⟨cs, css, hrest, hsplit⟩ := splitPlaceholders_cons g gs
      rw [hsplit, placeholdersFrom]
      by_cases hg : g.isPlaceholder = true
      · rw [List.countP_cons_of_pos hg] at h
        obtain ⟨text, others, rfl⟩ : ∃ text others, texts = text :: others :=
          List.exists_cons_of_ne_nil (by intro hnil; simp [hnil] at h)
        obtain ⟨hchars, hedits⟩ := @ih others (by simpa using h) (pos + g.size)
        have hchar : g.char = '?' := by
          rw [Glyph.isPlaceholder, Bool.and_eq_true, beq_iff_eq] at hg
          exact hg.2
        have hsize : g.size = 1 := by
          rw [Glyph.size, hchar]
          rfl
        rw [if_pos hg, if_pos hg, ← hrest]
        constructor
        · rw [List.map_cons, hchar, ← hchars]
          rfl
        · rw [placeholderSpans, List.map_cons, List.zip_cons_cons, ← placeholderSpans, ← hedits,
            hsize]
          rfl
      · rw [List.countP_cons_of_neg hg] at h
        obtain ⟨hchars, hedits⟩ := ih h (pos + g.size)
        rw [hrest] at hchars hedits
        rw [if_neg hg, if_neg hg, List.map_cons, ← hchars, ← hedits]
        -- the character goes into the first text, which nothing is written over
        cases texts with
        | nil => exact ⟨rfl, rfl⟩
        | cons text texts =>
            refine ⟨rfl, ?_⟩
            simp only [placeholderParts, edits, byteSize, Nat.add_assoc, Glyph.size]

/-- Whatever is written over the placeholders of a text, it is spliced without failure. -/
theorem splice?_placeholders {sql : String} {texts : List String}
    (h : countPlaceholders sql = texts.length) :
    splice? sql 0 ((placeholderSpans (placeholderOffsets sql)).zip texts) =
      some (String.ofList ((placeholderParts (splitPlaceholders (glyphs sql.toList))
        texts).flatMap Part.written)) := by
  rw [countPlaceholders, placeholderOffsets, length_placeholdersFrom] at h
  obtain ⟨hchars, hedits⟩ := placeholderParts_splitPlaceholders h 0
  have hsplice := @splice?_edits sql [] [] (placeholderParts (splitPlaceholders
    (glyphs sql.toList)) texts) (by rw [hchars, map_char_glyphs]; rfl)
  rw [List.nil_append, List.nil_append, byteSize, hedits] at hsplice
  exact hsplice

end Lexical

/-! ## Raw SQL -/

/-- The markers of binds behind `count` others. -/
def Backend.markersBehind (b : Backend) (count : Nat) : List Bind → List String
  | [] => []
  | _ :: binds => b.marker (count + 1) :: b.markersBehind (count + 1) binds

theorem Backend.length_markersBehind (b : Backend) (count : Nat) (binds : List Bind) :
    (b.markersBehind count binds).length = binds.length := by
  induction binds generalizing count with
  | nil => rfl
  | cons bind binds ih => rw [markersBehind, List.length_cons, ih, List.length_cons]

theorem written_placeholderParts (form : String → String) (b : Backend) (count : Nat)
    (css : List (List Char)) (binds : List Bind) :
    (placeholderParts css (b.markersBehind count binds)).flatMap Part.written =
      Piece.chars form b count (weave css binds) := by
  induction css generalizing count binds with
  | nil => cases binds <;> rfl
  | cons cs css ih =>
      cases binds with
      | nil => simp [Backend.markersBehind, placeholderParts, weave, Part.written, Piece.ownText]
      | cons bind binds =>
          simp [Backend.markersBehind, placeholderParts, weave, Part.written, Piece.ownText,
            Piece.ownBinds, ih]

/-- Raw SQL written by slices. -/
def RawSql.writeBySlices? (raw : RawSql) (b : Backend) (count : Nat) : Option String :=
  splice? raw.sql 0 ((placeholderSpans raw.offsets).zip (b.markersBehind count raw.binds))

theorem RawSql.writeBySlices?_eq (raw : RawSql) (form : String → String) (b : Backend)
    (count : Nat) :
    raw.writeBySlices? b count = some (String.ofList (Piece.chars form b count raw.pieces)) := by
  have h := @splice?_placeholders raw.sql (b.markersBehind count raw.binds)
    (by rw [raw.parity, Backend.length_markersBehind])
  rw [written_placeholderParts form] at h
  exact h

/-! ## No slice fails -/

/-- Markers stand where the bytes of a text say so, one behind the other. Hence no slice fails:
not the digits behind a dollar sign, read whether or not they spell an index, not the text
around markers, whatever is written over them, and not the text around placeholders. -/
theorem numberedMarkers_pointwise (sql : String) :
    (numberedMarkers sql).Pairwise (fun a b => a.span.stop ≤ b.span.start) ∧
      (∀ m, m ∈ numberedMarkers sql ↔ ∃ code ∈ codeSpans sql, m.StandsIn sql code) ∧
      (placeholderOffsets sql).Pairwise (· < ·) ∧
      (∀ code ∈ codeSpans sql, ∀ i, code.Covers i → (bytes sql)[i]? = some 36 →
        ∃ digits, slice? sql (i + 1) (i + 1 + (digitRun sql i code.stop).length) = some digits ∧
          bytes digits = digitRun sql i code.stop) ∧
      (∀ text : Nat → String,
        (splice? sql 0 ((numberedMarkers sql).map fun m => (m.span, text m.index))).isSome) ∧
      (∀ offset, rebaseBySlices? sql offset = some (rebase sql offset)) ∧
      ∀ (raw : RawSql) (form : String → String) (b : Backend) (count : Nat),
        raw.writeBySlices? b count =
          some (String.ofList (Piece.chars form b count raw.pieces)) := by
  refine ⟨pairwise_markersFrom 0 _, mem_numberedMarkers_iff_standsIn sql,
    (pairwise_placeholdersFrom 0 _).2, ?_, ?_, rebaseBySlices?_eq sql,
    RawSql.writeBySlices?_eq⟩
  · intro code hcode i hcovered hdollar
    exact slice?_digitRun hcode hcovered hdollar
  · intro text
    rw [splice?_markers]
    rfl

theorem numberedMarkers_pointwise_oversized :
    let sql := "é = $01 + $18446744073709551616 - a$2 || '$3'"
    let code : Span := ⟨0, 42⟩
    code ∈ codeSpans sql ∧ code.Covers 11 ∧ (bytes sql)[11]? = some 36 ∧
      numberedMarkers sql = [⟨⟨5, 8⟩, 1⟩] ∧ rebaseBySlices? sql 9 = some (rebase sql 9) ∧
      ∃ digits, slice? sql 12 32 = some digits ∧ bytes digits = digitRun sql 11 42 := by
  intro sql code
  have hcode : code ∈ codeSpans sql := by decide +kernel
  have hcovered : code.Covers 11 := ⟨by decide, by decide⟩
  have hdollar : (bytes sql)[11]? = some 36 := by decide +kernel
  obtain ⟨-, -, -, hdigits, -, hrebase, -⟩ := numberedMarkers_pointwise sql
  have hslice := hdigits code hcode 11 hcovered hdollar
  have hlength : (digitRun sql 11 42).length = 20 := by decide +kernel
  rw [hlength] at hslice
  exact ⟨hcode, hcovered, hdollar, by decide +kernel, hrebase 9, hslice⟩

end BoundSql
