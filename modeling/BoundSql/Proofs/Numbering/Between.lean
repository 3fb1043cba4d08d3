import BoundSql.Proofs.Lexical.Automaton
import BoundSql.Proofs.Numbering.Mark

/-!
# What rebasing leaves alone

Rebasing writes other digits into the markers of a text, and everything behind the first
marker may move. What stands between the markers stays, byte for byte, and so does what
stands between the spans of code, which is the quoted and the commented text
(`rebase_shifts`).

Both are `between` spans. The spans are found by readers that go along the lexemes and along
the glyphs; `lexemeGaps` and `opaqueGaps` say without offsets what these leave between them,
and there a marker is the same as any other.
-/

namespace BoundSql.Lexical

/-- The bytes of some characters. -/
def encode (cs : List Char) : List UInt8 :=
  cs.flatMap String.utf8EncodeChar

/-- What stands before, between and behind spans, one piece more than there are spans. The
bytes begin at offset `pos`. -/
def between (pos : Nat) : List Span → List UInt8 → List (List UInt8)
  | [], bytes => [bytes]
  | span :: spans, bytes =>
      bytes.take (span.start - pos) :: between span.stop spans (bytes.drop (span.stop - pos))

/-- The text before, between and behind the markers of a text. -/
def textBetweenMarkers (sql : String) : List (List UInt8) :=
  between 0 ((numberedMarkers sql).map Marker.span) sql.toByteArray.data.toList

/-- The quoted and commented text: what stands before, between and behind the spans of
code. -/
def opaqueText (sql : String) : List (List UInt8) :=
  between 0 (codeSpans sql) sql.toByteArray.data.toList

/-! ## Pieces between spans -/

theorem encode_append (a b : List Char) : encode (a ++ b) = encode a ++ encode b :=
  List.flatMap_append

theorem length_encode (cs : List Char) : (encode cs).length = byteSize cs := by
  induction cs with
  | nil => rfl
  | cons c cs ih =>
      show (String.utf8EncodeChar c ++ encode cs).length = _
      rw [List.length_append, String.length_utf8EncodeChar, ih, byteSize]

/-- Bytes in front of all spans belong to the first piece. -/
theorem between_append {pos : Nat} {spans : List Span} {a : List UInt8}
    (h : ∀ span ∈ spans, pos + a.length ≤ span.start ∧ span.start ≤ span.stop)
    (b : List UInt8) :
    between pos spans (a ++ b) = (between (pos + a.length) spans b).modifyHead (a ++ ·) := by
  cases spans with
  | nil => rfl
  | cons span spans =>
      obtain ⟨hstart, hstop⟩ := h span (List.mem_cons_self ..)
      rw [between, between, List.modifyHead_cons, List.take_append, List.drop_append,
        List.take_of_length_le (by omega), List.drop_of_length_le (by omega), List.nil_append,
        Nat.sub_sub, Nat.sub_sub]

/-- The bytes of a span that comes first belong to no piece. -/
theorem between_cons_append {pos : Nat} {span : Span} {a : List UInt8}
    (hstart : span.start ≤ pos) (hstop : span.stop = pos + a.length) (spans : List Span)
    (b : List UInt8) :
    between pos (span :: spans) (a ++ b) = [] :: between (pos + a.length) spans b := by
  rw [between, hstop, Nat.sub_eq_zero_of_le hstart, List.take_zero, Nat.add_sub_cancel_left,
    List.drop_left]

/-! ## Between markers -/

theorem length_encode_chars (l : Lexeme) : (encode l.chars).length = l.size :=
  length_encode l.chars

/-- The text between the markers among lexemes. -/
def lexemeGaps : List Lexeme → List (List UInt8)
  | [] => [[]]
  | .glyph g :: ls => (lexemeGaps ls).modifyHead (encode [g.char] ++ ·)
  | .marker _ _ :: ls => [] :: lexemeGaps ls

theorem start_of_mem_markersFrom {pos : Nat} {ls : List Lexeme} {m : Marker}
    (h : m ∈ markersFrom pos ls) : pos ≤ m.span.start ∧ m.span.start ≤ m.span.stop := by
  induction ls generalizing pos with
  | nil => cases h
  | cons l ls ih =>
      have hrest (hm : m ∈ markersFrom (pos + l.size) ls) :
          pos ≤ m.span.start ∧ m.span.start ≤ m.span.stop := by
        obtain ⟨hstart, hstop⟩ := ih hm
        exact ⟨by omega, hstop⟩
      cases l with
      | glyph g => exact hrest h
      | marker digits index =>
          rcases List.mem_cons.mp h with hfirst | hm
          · rw [hfirst]
            exact ⟨Nat.le_refl _, Nat.le_add_right _ _⟩
          · exact hrest hm

theorem between_markersFrom (pos : Nat) (ls : List Lexeme) :
    between pos ((markersFrom pos ls).map Marker.span) (encode (ls.flatMap Lexeme.chars)) =
      lexemeGaps ls := by
  induction ls generalizing pos with
  | nil => rfl
  | cons l ls ih =>
      rw [List.flatMap_cons, encode_append]
      cases l with
      | glyph g =>
          have hspans : ∀ span ∈ (markersFrom (pos + (Lexeme.glyph g).size) ls).map Marker.span,
              pos + (encode (Lexeme.glyph g).chars).length ≤ span.start ∧
                span.start ≤ span.stop := by
            intro span hspan
            obtain ⟨m, hm, rfl⟩ := List.mem_map.mp hspan
            rw [length_encode_chars]
            exact start_of_mem_markersFrom hm
          show between pos ((markersFrom (pos + (Lexeme.glyph g).size) ls).map Marker.span) _ = _
          rw [between_append hspans, length_encode_chars, ih]
          rfl
      | marker digits index =>
          have hstop := congrArg (pos + ·) (length_encode_chars (.marker digits index)).symm
          show between pos (⟨pos, pos + (Lexeme.marker digits index).size⟩ ::
            (markersFrom (pos + (Lexeme.marker digits index).size) ls).map Marker.span) _ = _
          rw [between_cons_append (Nat.le_refl pos) hstop, length_encode_chars, ih]
          rfl

theorem textBetweenMarkers_eq (sql : String) :
    textBetweenMarkers sql = lexemeGaps (lexemes sql.toList) := by
  have h := between_markersFrom 0 (lexemes sql.toList)
  rw [chars_lexemes] at h
  rw [textBetweenMarkers, toList_data_toByteArray]
  exact h

/-- Between markers nothing depends on their digits. -/
theorem lexemeGaps_map_shift (offset : Nat) (ls : List Lexeme) :
    lexemeGaps (ls.map (Lexeme.shift offset)) = lexemeGaps ls := by
  induction ls with
  | nil => rfl
  | cons l ls ih =>
      cases l with
      | glyph g => exact congrArg (List.modifyHead (encode [g.char] ++ ·)) ih
      | marker digits index => exact congrArg ([] :: ·) ih

/-! ## Between spans of code -/

/-- The text between the runs of code among glyphs. The first piece stands behind the run that
is open, or before the first run if none is. -/
def opaqueGaps (inCode : Bool) : List Glyph → List (List UInt8)
  | [] => [[]]
  | g :: gs =>
      if g.code then
        if inCode then opaqueGaps true gs else [] :: opaqueGaps true gs
      else (opaqueGaps false gs).modifyHead (encode [g.char] ++ ·)

theorem length_encode_char (g : Glyph) : (encode [g.char]).length = g.size :=
  length_encode [g.char]

theorem encode_map_cons (g : Glyph) (gs : List Glyph) :
    encode ((g :: gs).map Glyph.char) = encode [g.char] ++ encode (gs.map Glyph.char) :=
  encode_append [g.char] (gs.map Glyph.char)

/-- An opaque glyph behind which no run is open belongs to the piece that follows. -/
theorem between_spansFrom_outside (pos : Nat) (g : Glyph) (gs : List Glyph) :
    between pos (spansFrom (pos + g.size) none gs)
        (encode [g.char] ++ encode (gs.map Glyph.char)) =
      (between (pos + g.size) (spansFrom (pos + g.size) none gs)
        (encode (gs.map Glyph.char))).modifyHead (encode [g.char] ++ ·) := by
  have hspans : ∀ span ∈ spansFrom (pos + g.size) none gs,
      pos + (encode [g.char]).length ≤ span.start ∧ span.start ≤ span.stop := by
    intro span hspan
    obtain ⟨hstart, hlt, -⟩ := edges_of_mem_spansFrom (by simp) hspan
    rw [length_encode_char]
    exact ⟨hstart, Nat.le_of_lt hlt⟩
  rw [between_append hspans, length_encode_char]

/-- Along the glyphs behind a run that is still open, of which `front` has been read, or
behind none. -/
theorem between_spansFrom (gs : List Glyph) :
    (∀ pos, between pos (spansFrom pos none gs) (encode (gs.map Glyph.char)) =
        opaqueGaps false gs) ∧
      ∀ since front, between since (spansFrom (since + front.length) (some since) gs)
          (front ++ encode (gs.map Glyph.char)) =
        [] :: opaqueGaps true gs := by
  induction gs with
  | nil =>
      refine ⟨fun pos => rfl, fun since front => ?_⟩
      exact between_cons_append (Nat.le_refl since) rfl [] []
  | cons g gs ih =>
      obtain ⟨hclosed, hopen⟩ := ih
      rw [encode_map_cons]
      cases hcode : g.code with
      | true =>
          simp only [spansFrom_of_code hcode, opaqueGaps, hcode, if_true]
          constructor
          · intro pos
            have h := hopen pos (encode [g.char])
            rw [length_encode_char] at h
            exact h
          · intro since front
            have h := hopen since (front ++ encode [g.char])
            rw [List.length_append, length_encode_char, ← Nat.add_assoc, List.append_assoc] at h
            exact h
      | false =>
          have hgaps (inCode : Bool) : opaqueGaps inCode (g :: gs) =
              (opaqueGaps false gs).modifyHead (encode [g.char] ++ ·) := by
            rw [opaqueGaps, hcode]
            rfl
          have houtside (pos : Nat) :
              between pos (spansFrom (pos + g.size) none gs)
                  (encode [g.char] ++ encode (gs.map Glyph.char)) =
                (opaqueGaps false gs).modifyHead (encode [g.char] ++ ·) := by
            rw [between_spansFrom_outside, hclosed]
          simp only [spansFrom_of_not_code hcode, hgaps]
          constructor
          · intro pos
            exact houtside pos
          · intro since front
            -- the run that was open ends before the glyph
            refine (between_cons_append (Nat.le_refl since) rfl _ _).trans ?_
            exact congrArg ([] :: ·) (houtside (since + front.length))

theorem opaqueText_eq (sql : String) : opaqueText sql = opaqueGaps false (glyphs sql.toList) := by
  have h := (between_spansFrom (glyphs sql.toList)).1 0
  rw [map_char_glyphs] at h
  rw [opaqueText, toList_data_toByteArray]
  exact h

/-- A run that is open goes on over characters of code. -/
theorem opaqueGaps_code (cs : List Char) (gs : List Glyph) :
    opaqueGaps true ((cs.map fun c => ⟨c, true⟩) ++ gs) = opaqueGaps true gs := by
  induction cs with
  | nil => rfl
  | cons c cs ih => exact ih

theorem opaqueGaps_dollarGlyphs (inCode : Bool) (ds : List Char) (gs : List Glyph) :
    opaqueGaps inCode (dollarGlyphs ds ++ gs) =
      if inCode then opaqueGaps true gs else [] :: opaqueGaps true gs := by
  rw [dollarGlyphs, List.cons_append, opaqueGaps, opaqueGaps_code]
  rfl

/-- Between runs of code nothing depends on the digits of markers. -/
theorem opaqueGaps_shift (inCode : Bool) (offset : Nat) (ls : List Lexeme) :
    opaqueGaps inCode ((ls.map (Lexeme.shift offset)).flatMap Lexeme.glyphs) =
      opaqueGaps inCode (ls.flatMap Lexeme.glyphs) := by
  induction ls generalizing inCode with
  | nil => rfl
  | cons l ls ih =>
      cases l with
      | glyph g =>
          show opaqueGaps inCode (g :: (ls.map (Lexeme.shift offset)).flatMap Lexeme.glyphs) =
            opaqueGaps inCode (g :: ls.flatMap Lexeme.glyphs)
          rw [opaqueGaps, opaqueGaps, ih, ih]
      | marker digits index =>
          show opaqueGaps inCode (dollarGlyphs (Text.digits (wrapIndex (index + offset))) ++
              (ls.map (Lexeme.shift offset)).flatMap Lexeme.glyphs) =
            opaqueGaps inCode (dollarGlyphs digits ++ ls.flatMap Lexeme.glyphs)
          have hrest := ih true
          rw [opaqueGaps_dollarGlyphs, opaqueGaps_dollarGlyphs, hrest]

/-! ## Rebased texts -/

/-- Rebasing keeps the quoted and the commented text. -/
theorem opaqueText_rebase (sql : String) (offset : Nat) :
    opaqueText (rebase sql offset) = opaqueText sql := by
  by_cases hoffset : offset = 0
  · rw [hoffset, rebase_zero]
  · rw [opaqueText_eq, opaqueText_eq, glyphs_rebase hoffset, opaqueGaps_shift]
    exact congrArg (opaqueGaps false) (glyphs_lexemesFrom false (glyphs sql.toList))

theorem textBetweenMarkers_rebase (sql : String) (offset : Nat) :
    textBetweenMarkers (rebase sql offset) = textBetweenMarkers sql := by
  by_cases hoffset : offset = 0
  · rw [hoffset, rebase_zero]
  · rw [textBetweenMarkers_eq, textBetweenMarkers_eq, lexemes_rebase hoffset,
      lexemeGaps_map_shift]

theorem countPlaceholders_rebase (sql : String) (offset : Nat) :
    countPlaceholders (rebase sql offset) = countPlaceholders sql := by
  by_cases hoffset : offset = 0
  · rw [hoffset, rebase_zero]
  · have hcount := MarkerStyle.count_eq_length_marks .positional
    refine (hcount (rebase sql offset)).trans (Eq.trans ?_ (hcount sql).symm)
    rw [MarkerStyle.marks, MarkerStyle.marks, lexemes_rebase hoffset, List.filterMap_map]
    refine congrArg List.length (List.filterMap_congr fun l _ => ?_)
    cases l <;> rfl

/-- As long as the sums can be read, rebasing by `i` adds `i` to the index of every marker, and
that is all it does: the text between the markers stays, and with it the quoted and the
commented text and the number of placeholders. Rebasing by zero does nothing, and rebasing
twice is rebasing by the sum. -/
theorem rebase_shifts {sql : String} {i j : Nat}
    (h : ∀ m ∈ numberedMarkers sql, m.index + i + j < indexBound) :
    (numberedMarkers (rebase sql i)).map Marker.index =
        (numberedMarkers sql).map (fun m => m.index + i) ∧
      textBetweenMarkers (rebase sql i) = textBetweenMarkers sql ∧
      opaqueText (rebase sql i) = opaqueText sql ∧
      countPlaceholders (rebase sql i) = countPlaceholders sql ∧
      rebase sql 0 = sql ∧
      rebase (rebase sql i) j = rebase sql (i + j) := by
  have hshift : Shiftable i (lexemes sql.toList) := by
    rw [MarkerStyle.shiftable_iff]
    intro index hindex
    obtain ⟨m, hm, rfl⟩ := List.mem_map.mp hindex
    exact Nat.lt_of_le_of_lt (Nat.le_add_right _ j) (h m hm)
  have hindices := MarkerStyle.markerIndices_rebase hshift
  rw [Compiled.markerIndices, Compiled.markerIndices, List.map_map] at hindices
  exact ⟨hindices, textBetweenMarkers_rebase sql i, opaqueText_rebase sql i,
    countPlaceholders_rebase sql i, rebase_zero sql, rebase_rebase sql i j⟩

theorem rebase_shifts_adjacent :
    let sql := "x = $01$7 AND y = '$3'$12 AND b$1 = ? OR $18446744073709551616 -- $4"
    (∀ m ∈ numberedMarkers sql, m.index + 98 + 1 < indexBound) ∧
      (numberedMarkers (rebase sql 98)).map Marker.index = [99, 110] ∧
      textBetweenMarkers (rebase sql 98) = textBetweenMarkers sql ∧
      opaqueText (rebase sql 98) = opaqueText sql ∧
      countPlaceholders (rebase sql 98) = 1 ∧
      rebase (rebase sql 98) 1 = rebase sql 99 := by
  intro sql
  have hbound : ∀ m ∈ numberedMarkers sql, m.index + 98 + 1 < indexBound := by decide +kernel
  obtain ⟨hindices, hbetween, houtside, hcount, -, htwice⟩ := rebase_shifts hbound
  have hmarkers : (numberedMarkers sql).map (fun m => m.index + 98) = [99, 110] := by
    decide +kernel
  have hplaceholders : countPlaceholders sql = 1 := by decide +kernel
  exact ⟨hbound, hindices.trans hmarkers, hbetween, houtside, hcount.trans hplaceholders, htwice⟩

end BoundSql.Lexical
