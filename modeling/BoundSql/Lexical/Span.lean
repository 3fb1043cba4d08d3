import BoundSql.Lexical.Glyph

/-!
# Byte spans of code

The maximal runs of code in a text, and the placeholders in them, by their byte
offsets. Offsets count the bytes of the UTF-8 encoding.
-/

namespace BoundSql.Lexical

/-- A range of bytes, the first included and the last not. -/
structure Span where
  start : Nat
  stop : Nat
  deriving DecidableEq, Repr

/-- The runs of code among glyphs that start at byte `pos`, where a run may have
been open since byte `since`. -/
def spansFrom (pos : Nat) (since : Option Nat) : List Glyph → List Span
  | [] => (since.map (⟨·, pos⟩)).toList
  | g :: gs =>
      if g.code then spansFrom (pos + g.size) (some (since.getD pos)) gs
      else (since.map (⟨·, pos⟩)).toList ++ spansFrom (pos + g.size) none gs

/-- The maximal runs of code in a text. -/
def codeSpans (sql : String) : List Span :=
  spansFrom 0 none (glyphs sql.toList)

/-- Whether a glyph is a positional placeholder. -/
def Glyph.isPlaceholder (g : Glyph) : Bool :=
  g.code && g.char == '?'

/-- The byte offsets of the placeholders among glyphs that start at byte `pos`. -/
def placeholdersFrom (pos : Nat) : List Glyph → List Nat
  | [] => []
  | g :: gs =>
      if g.isPlaceholder then pos :: placeholdersFrom (pos + g.size) gs
      else placeholdersFrom (pos + g.size) gs

/-- The byte offsets of the positional placeholders of a text. -/
def placeholderOffsets (sql : String) : List Nat :=
  placeholdersFrom 0 (glyphs sql.toList)

/-- The number of positional placeholders of a text. -/
def countPlaceholders (sql : String) : Nat :=
  (placeholderOffsets sql).length

theorem length_placeholdersFrom (pos : Nat) (gs : List Glyph) :
    (placeholdersFrom pos gs).length = gs.countP Glyph.isPlaceholder := by
  induction gs generalizing pos with
  | nil => rfl
  | cons g gs ih =>
      by_cases h : g.isPlaceholder = true <;> simp [placeholdersFrom, h, ih]

theorem placeholdersFrom_append (pos : Nat) (gs hs : List Glyph) :
    placeholdersFrom pos (gs ++ hs) =
      placeholdersFrom pos gs ++ placeholdersFrom (pos + byteSize (gs.map Glyph.char)) hs := by
  induction gs generalizing pos with
  | nil => simp [placeholdersFrom, byteSize]
  | cons g gs ih =>
      by_cases h : g.isPlaceholder = true <;>
        simp [placeholdersFrom, h, ih, byteSize, Glyph.size, Nat.add_assoc]

/-- The text split at its placeholders: one piece more than there are
placeholders. -/
def splitPlaceholders : List Glyph → List (List Char)
  | [] => [[]]
  | g :: gs =>
      match splitPlaceholders gs with
      | [] => [[]]
      | piece :: pieces =>
          if g.isPlaceholder then [] :: piece :: pieces else (g.char :: piece) :: pieces

theorem length_splitPlaceholders (gs : List Glyph) :
    (splitPlaceholders gs).length = gs.countP Glyph.isPlaceholder + 1 := by
  induction gs with
  | nil => rfl
  | cons g gs ih =>
      simp only [splitPlaceholders]
      split
      · rename_i h
        simp [h] at ih
      · rename_i piece pieces h
        rw [h] at ih
        by_cases hg : g.isPlaceholder = true <;> simp_all

end BoundSql.Lexical
