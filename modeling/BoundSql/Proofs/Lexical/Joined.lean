import BoundSql.Proofs.Lexical.Automaton
import BoundSql.Proofs.Lexical.Seam

/-!
# Two texts one behind the other

What is found in two texts one behind the other is what is found in the first, and what is found
in the second as many bytes later as the first has (`scan_append`): the bytes of code, the
placeholders, and the markers.

The first text has to be closed, and there must be no comment mark across the seam. Markers need
two conditions more, since a word of the first text takes in a dollar sign, and a marker digits.
Quotes need none: a quote that the first text closes and the second opens again reads like a
doubled one, and so does what stands behind it.
-/

namespace BoundSql.Lexical

/-! ## Offsets -/

/-- A marker as it stands behind `n` other bytes. -/
def Marker.moved (n : Nat) (m : Marker) : Marker :=
  ⟨⟨n + m.span.start, n + m.span.stop⟩, m.index⟩

/-- A span as it stands behind `n` other bytes. -/
def Span.moved (n : Nat) (span : Span) : Span :=
  ⟨n + span.start, n + span.stop⟩

theorem spansFrom_add (n pos : Nat) (since : Option Nat) (gs : List Glyph) :
    spansFrom (n + pos) (since.map (n + ·)) gs = (spansFrom pos since gs).map (Span.moved n) := by
  induction gs generalizing pos since with
  | nil => cases since <;> rfl
  | cons g gs ih =>
      cases hcode : g.code with
      | true =>
          have hrest := ih (pos + g.size) (some (since.getD pos))
          rw [spansFrom_of_code hcode, spansFrom_of_code hcode, ← hrest, Nat.add_assoc]
          cases since <;> rfl
      | false =>
          have hrest := ih (pos + g.size) none
          rw [spansFrom_of_not_code hcode, spansFrom_of_not_code hcode, List.map_append, ← hrest,
            Nat.add_assoc]
          cases since <;> rfl

theorem placeholdersFrom_add (n pos : Nat) (gs : List Glyph) :
    placeholdersFrom (n + pos) gs = (placeholdersFrom pos gs).map (n + ·) := by
  induction gs generalizing pos with
  | nil => rfl
  | cons g gs ih =>
      rw [placeholdersFrom, placeholdersFrom, Nat.add_assoc, ih]
      split <;> rfl

theorem markersFrom_add (n pos : Nat) (ls : List Lexeme) :
    markersFrom (n + pos) ls = (markersFrom pos ls).map (Marker.moved n) := by
  induction ls generalizing pos with
  | nil => rfl
  | cons l ls ih =>
      rw [markersFrom, markersFrom]
      simp only [Nat.add_assoc, ih]
      cases l.index? <;> rfl

theorem markersFrom_append (pos : Nat) (ls ms : List Lexeme) :
    markersFrom pos (ls ++ ms) =
      markersFrom pos ls ++ markersFrom (pos + byteSize (ls.flatMap Lexeme.chars)) ms := by
  induction ls generalizing pos with
  | nil => simp [markersFrom, byteSize]
  | cons l ls ih =>
      have hsize : pos + byteSize ((l :: ls).flatMap Lexeme.chars) =
          pos + l.size + byteSize (ls.flatMap Lexeme.chars) := by
        rw [List.flatMap_cons, byteSize_append, Lexeme.size, Nat.add_assoc]
      rw [List.cons_append, markersFrom, markersFrom, ih, hsize]
      cases l.index? <;> rfl

theorem utf8ByteSize_eq (sql : String) : sql.utf8ByteSize = byteSize sql.toList := by
  rw [← utf8ByteSize_ofList, String.ofList_toList]

/-! ## Code, placeholders and markers -/

/-- A byte lies in a span of code just if it is a byte of code. -/
theorem exists_mem_codeSpans_iff (sql : String) (i : Nat) :
    (∃ span ∈ codeSpans sql, span.Covers i) ↔
      (verdicts (glyphs sql.toList))[i]? = some true := by
  have h := @exists_mem_spansFrom_iff 0 none (glyphs sql.toList) (by simp) i
  rw [codeSpans]
  simpa using h

theorem length_verdicts_glyphs (sql : String) :
    (verdicts (glyphs sql.toList)).length = sql.utf8ByteSize := by
  rw [length_verdicts, map_char_glyphs, utf8ByteSize_eq]

/-- The spans of a text lie in it. -/
theorem lt_of_mem_codeSpans {sql : String} {span : Span} (h : span ∈ codeSpans sql) {i : Nat}
    (hi : span.Covers i) : i < sql.utf8ByteSize := by
  obtain ⟨hlt, -⟩ := List.getElem?_eq_some_iff.mp
    ((exists_mem_codeSpans_iff sql i).mp ⟨span, h, hi⟩)
  rwa [length_verdicts_glyphs] at hlt

/-- The spans around an opaque text are those of the two texts, the last one moved behind the
others. -/
theorem codeSpans_around {a b c : String}
    (h : glyphs (a ++ b ++ c).toList = glyphs a.toList ++ (glyphs b.toList ++ glyphs c.toList))
    (hne : b.toList ≠ []) (hcode : ∀ g ∈ glyphs b.toList, g.code = false) :
    codeSpans (a ++ b ++ c) =
      codeSpans a ++ (codeSpans c).map (Span.moved (a ++ b).utf8ByteSize) := by
  have hhead : ∀ g ∈ (glyphs b.toList ++ glyphs c.toList).head?, g.code = false := by
    intro g hg
    obtain ⟨k, ks, hglyphs⟩ : ∃ k ks, glyphs b.toList = k :: ks :=
      List.exists_cons_of_ne_nil fun hnil =>
        hne (by rw [← map_char_glyphs b.toList, hnil, List.map_nil])
    rw [hglyphs] at hg hcode
    obtain rfl : k = g := Option.some.inj hg
    exact hcode k (by simp)
  have hsize : (a ++ b).utf8ByteSize = 0 + byteSize a.toList + byteSize b.toList := by
    rw [utf8ByteSize_eq, String.toList_append, byteSize_append, Nat.zero_add]
  rw [codeSpans, h, spansFrom_append_of_not_code hhead, spansFrom_none_append hcode,
    map_char_glyphs, map_char_glyphs, ← hsize]
  exact congrArg (codeSpans a ++ ·) (spansFrom_add (a ++ b).utf8ByteSize 0 none _)

section Glyphs

variable {a b : String} (h : glyphs (a ++ b).toList = glyphs a.toList ++ glyphs b.toList)
include h

theorem exists_mem_codeSpans_append_iff (i : Nat) :
    (∃ span ∈ codeSpans (a ++ b), span.Covers i) ↔
      (∃ span ∈ codeSpans a, span.Covers i) ∨
        ∃ j, i = a.utf8ByteSize + j ∧ ∃ span ∈ codeSpans b, span.Covers j := by
  have hlength := length_verdicts_glyphs a
  simp only [exists_mem_codeSpans_iff]
  rw [h, verdicts_append]
  by_cases hi : i < a.utf8ByteSize
  · have hbehind : ¬∃ j, i = a.utf8ByteSize + j ∧
        (verdicts (glyphs b.toList))[j]? = some true := by
      intro hj
      obtain ⟨j, hj, -⟩ := hj
      omega
    rw [List.getElem?_append_left (by omega), or_iff_left hbehind]
  · have hnone : (verdicts (glyphs a.toList))[i]? = none :=
      List.getElem?_eq_none (by omega)
    rw [List.getElem?_append_right (by omega), hlength, hnone]
    constructor
    · intro hcode
      exact Or.inr ⟨i - a.utf8ByteSize, by omega, hcode⟩
    · intro hcode
      rcases hcode with hcode | ⟨j, rfl, hcode⟩
      · cases hcode
      · rwa [Nat.add_sub_cancel_left]

theorem placeholderOffsets_append :
    placeholderOffsets (a ++ b) =
      placeholderOffsets a ++ (placeholderOffsets b).map (a.utf8ByteSize + ·) := by
  rw [placeholderOffsets, h, placeholdersFrom_append, map_char_glyphs, ← utf8ByteSize_eq,
    Nat.zero_add]
  exact congrArg (placeholderOffsets a ++ ·) (placeholdersFrom_add a.utf8ByteSize 0 _)

end Glyphs

theorem numberedMarkers_append {a b : String}
    (h : lexemes (a ++ b).toList = lexemes a.toList ++ lexemes b.toList) :
    numberedMarkers (a ++ b) =
      numberedMarkers a ++ (numberedMarkers b).map (Marker.moved a.utf8ByteSize) := by
  rw [numberedMarkers, h, markersFrom_append, chars_lexemes, ← utf8ByteSize_eq, Nat.zero_add]
  exact congrArg (numberedMarkers a ++ ·) (markersFrom_add a.utf8ByteSize 0 _)

/-! ## Lexemes -/

/-- A text that starts with no dollar sign reads the same behind a word. -/
theorem lexemesFrom_of_head_ne {b : List Char} (hb : b.head? ≠ some '$') (word : Bool) :
    lexemesFrom word (glyphs b) = lexemes b := by
  cases b with
  | nil => rfl
  | cons c cs =>
      have hc : c ≠ '$' := fun hc => hb (congrArg some hc)
      simp [lexemes, glyphs, lexemesFrom, hc]

theorem lexemesFrom_wordAfter {a b : List Char}
    (h : ∀ c ∈ a.getLast?, isWordChar c = true → b.head? ≠ some '$') :
    lexemesFrom (wordAfter false (glyphs a)) (glyphs b) = lexemes b := by
  cases hword : wordAfter false (glyphs a) with
  | false => rfl
  | true =>
      rw [wordAfter_glyphs] at hword
      cases hlast : a.getLast? with
      | none => simp [hlast] at hword
      | some c =>
          rw [hlast, Option.map_some, Option.getD_some] at hword
          exact lexemesFrom_of_head_ne (h c hlast hword) true

/-- The first text is closed, and no comment mark stands across the seam. Then bytes of code and
placeholders are those of the two texts, the second moved behind the first. The same holds of
markers if no word of the first text goes on with a dollar sign, and no dollar sign of its code,
with digits behind it or not, with a digit. -/
theorem scan_append {a b : String} (hclosed : Closed a)
    (hquiet : Quiet (glyphs a.toList) b.toList.head?) :
    (∀ i, (∃ span ∈ codeSpans (a ++ b), span.Covers i) ↔
        (∃ span ∈ codeSpans a, span.Covers i) ∨
          ∃ j, i = a.utf8ByteSize + j ∧ ∃ span ∈ codeSpans b, span.Covers j) ∧
      placeholderOffsets (a ++ b) =
        placeholderOffsets a ++ (placeholderOffsets b).map (a.utf8ByteSize + ·) ∧
      ((∀ c ∈ a.toList.getLast?, isWordChar c = true → b.toList.head? ≠ some '$') →
        (∀ c ∈ b.toList.head?, c.isDigit = true → ¬EndsInDollar (glyphs a.toList)) →
        numberedMarkers (a ++ b) =
          numberedMarkers a ++ (numberedMarkers b).map (Marker.moved a.utf8ByteSize)) := by
  have hends : EndsInCode a.toList := (closed_iff a).mp hclosed
  have hglyphs : glyphs (a ++ b).toList = glyphs a.toList ++ glyphs b.toList := by
    rw [String.toList_append, glyphs_append_of_quiet hends hquiet]
  refine ⟨exists_mem_codeSpans_append_iff hglyphs, placeholderOffsets_append hglyphs, ?_⟩
  intro hword hdigits
  have hopen : StartsInDigit (glyphs b.toList) → ¬EndsInDollar (glyphs a.toList) := by
    intro hstarts
    obtain ⟨c, hc, hdigit⟩ := startsInDigit_glyphs hstarts
    exact hdigits c hc hdigit
  refine numberedMarkers_append ?_
  rw [String.toList_append]
  exact lexemes_append hends hquiet (lexemesFrom_wordAfter hword) hopen

theorem scan_append_lookalikes :
    let a := "é = ? OR $1 = '?'"
    let b := "'$7' || ? - $2 /* ? */"
    let c := "* ?"
    Closed a ∧ Closed b ∧ Quiet (glyphs a.toList) b.toList.head? ∧
      Quiet (glyphs b.toList) c.toList.head? ∧
      placeholderOffsets (a ++ b) = [5, 26] ∧ placeholderOffsets (b ++ c) = [8, 24] ∧
      numberedMarkers (a ++ b) = [⟨⟨10, 12⟩, 1⟩, ⟨⟨30, 32⟩, 2⟩] := by
  intro a b c
  have ha : Closed a := by decide +kernel
  have hb : Closed b := by decide +kernel
  have hquotes : Quiet (glyphs a.toList) b.toList.head? := by decide +kernel
  have hslash : Quiet (glyphs b.toList) c.toList.head? := by decide +kernel
  obtain ⟨-, hplaceholders, hmarkers⟩ := scan_append ha hquotes
  obtain ⟨-, hbehind, -⟩ := scan_append hb hslash
  have hquote : b.toList.head? = some '\'' := by decide +kernel
  rw [hquote] at hmarkers
  have hjoined := hmarkers (fun _ _ _ => by decide) (by
    intro d hd hdigit
    rw [← Option.some.inj hd] at hdigit
    cases hdigit)
  rw [hplaceholders, hbehind, hjoined]
  exact ⟨ha, hb, hquotes, hslash, by decide +kernel, by decide +kernel, by decide +kernel⟩

end BoundSql.Lexical
