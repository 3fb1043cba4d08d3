import BoundSql.Proofs.Lexical.Cut
import Mathlib.Data.List.Basic

/-!
# Rebasing keeps the cut

`rebase` writes another number into every marker. `lexemes_rebase` says that the
new text has the same lexemes with their indices raised: the digits of a marker end
where they ended before, the reader leaves each marker in code as it did before, and
a machine word can be read again. Indices are raised by as much as they should be as
long as the sums fit (`Shiftable`).
-/

namespace BoundSql.Lexical

/-- The text of lexemes with their indices raised. -/
def shiftedChars (offset : Nat) (ls : List Lexeme) : List Char :=
  ls.flatMap fun l => (l.shift offset).chars

/-- All indices can be raised by `offset` without leaving the machine words. -/
def Shiftable (offset : Nat) (ls : List Lexeme) : Prop :=
  ∀ l ∈ ls, ∀ index ∈ l.index?, index + offset < indexBound

theorem toList_rebase {offset : Nat} (h : offset ≠ 0) (sql : String) :
    (rebase sql offset).toList = shiftedChars offset (lexemes sql.toList) := by
  simp [rebase, h, shiftedChars]

/-! ## The shifted text follows the cut -/

theorem Cut.head?_shiftedChars {r : Region} {word : Bool} {cs : List Char} {ls : List Lexeme}
    (h : Cut r word cs ls) (offset : Nat) :
    (shiftedChars offset ls).head? = cs.head? := by
  cases h <;> rfl

theorem Cut.leadingDigits_shiftedChars {r : Region} {word : Bool} {cs : List Char}
    {ls : List Lexeme} (h : Cut r word cs ls) (offset : Nat) :
    leadingDigits (shiftedChars offset ls) = leadingDigits cs := by
  induction h with
  | nil r word => rfl
  | marker hne hdigits hbound hstop _ ih =>
      simp [shiftedChars, Lexeme.shift, Lexeme.chars, leadingDigits_cons]
  | @glyph r word c cs ls hno _ ih =>
      have hchars : shiftedChars offset (.glyph ⟨c, (r.step c cs.head?).2⟩ :: ls) =
          c :: shiftedChars offset ls := rfl
      rw [hchars, leadingDigits_cons, leadingDigits_cons, ih]

/-- Digits in code leave the reader in code. -/
theorem regionAfter_digits {ds : List Char} (hdigits : ∀ c ∈ ds, c.isDigit = true)
    (f : Option Char) (cs : List Char) :
    regionAfter .code f (ds ++ cs) = regionAfter .code f cs := by
  induction ds with
  | nil => rfl
  | cons c ds ih =>
      simp only [List.cons_append, regionAfter, step_code_of_isDigit (hdigits c (by simp))]
      exact ih fun d hd => hdigits d (by simp [hd])

theorem regionAfter_marker {ds : List Char} (hdigits : ∀ c ∈ ds, c.isDigit = true)
    (f : Option Char) (cs : List Char) :
    regionAfter .code f ('$' :: (ds ++ cs)) = regionAfter .code f cs := by
  rw [regionAfter, step_code_dollar, regionAfter_digits hdigits]

theorem isDigit_digits (n : Nat) : ∀ c ∈ Text.digits n, c.isDigit = true :=
  fun _ hc => Text.isDigit_of_mem_digits hc

theorem Cut.regionAfter_shiftedChars {r : Region} {word : Bool} {cs : List Char}
    {ls : List Lexeme} (h : Cut r word cs ls) (offset : Nat) (f : Option Char) :
    regionAfter r f (shiftedChars offset ls) = regionAfter r f cs := by
  induction h with
  | nil r word => rfl
  | @marker ds cs ls hne hdigits hbound hstop _ ih =>
      rw [regionAfter_marker hdigits, ← ih]
      exact regionAfter_marker (isDigit_digits _) f (shiftedChars offset ls)
  | @glyph r word c cs ls hno htail ih =>
      have hchars : shiftedChars offset (.glyph ⟨c, (r.step c cs.head?).2⟩ :: ls) =
          c :: shiftedChars offset ls := rfl
      -- the step sees one character ahead, and rebasing keeps that one
      rw [hchars, regionAfter, regionAfter, htail.head?_shiftedChars]
      cases cs with
      | nil =>
          obtain rfl : [] = ls := htail.lexemesFrom_eq
          rfl
      | cons d ds => exact ih

/-- The reader finds the shifted text to be code where the text is. -/
theorem Cut.glyphsFrom_shiftedChars {r : Region} {word : Bool} {cs : List Char}
    {ls : List Lexeme} (h : Cut r word cs ls) (offset : Nat) :
    glyphsFrom r (shiftedChars offset ls) =
      (ls.map (Lexeme.shift offset)).flatMap Lexeme.glyphs := by
  induction h with
  | nil r word => rfl
  | @marker ds cs ls hne hdigits hbound hstop _ ih =>
      have hchars : shiftedChars offset (.marker ds (Text.natOfDigits ds) :: ls) =
          '$' :: (Text.digits (wrapIndex (Text.natOfDigits ds + offset)) ++
            shiftedChars offset ls) := rfl
      rw [hchars, glyphsFrom_dollar (isDigit_digits _), ih]
      rfl
  | @glyph r word c cs ls hno htail ih =>
      have hchars : shiftedChars offset (.glyph ⟨c, (r.step c cs.head?).2⟩ :: ls) =
          c :: shiftedChars offset ls := rfl
      rw [hchars, glyphsFrom_cons, htail.head?_shiftedChars, ih]
      rfl

/-- The shifted text is cut into the shifted lexemes. -/
theorem Cut.shift {r : Region} {word : Bool} {cs : List Char} {ls : List Lexeme}
    (h : Cut r word cs ls) (offset : Nat) :
    Cut r word (shiftedChars offset ls) (ls.map (Lexeme.shift offset)) := by
  induction h with
  | nil r word => exact .nil r word
  | @marker ds cs ls hne hdigits hbound hstop htail ih =>
      -- the new digits are read back as the raised index and end where the old ones did
      have hcut := Cut.marker (Text.digits_ne_nil (wrapIndex (Text.natOfDigits ds + offset)))
        (isDigit_digits _) (by rw [Text.natOfDigits_digits]; exact wrapIndex_lt _)
        (by rw [htail.leadingDigits_shiftedChars]; exact hstop) ih
      rw [Text.natOfDigits_digits] at hcut
      exact hcut
  | @glyph r word c cs ls hno htail ih =>
      have hno' : ¬ StartsMarker r word c (shiftedChars offset ls) := by
        simpa only [StartsMarker, htail.leadingDigits_shiftedChars] using hno
      rw [← htail.head?_shiftedChars offset] at ih ⊢
      exact .glyph hno' ih

/-! ## Rebased texts -/

theorem lexemes_shiftedChars (cs : List Char) (offset : Nat) :
    lexemes (shiftedChars offset (lexemes cs)) = (lexemes cs).map (Lexeme.shift offset) :=
  ((cut_lexemes cs).shift offset).lexemesFrom_eq

theorem glyphs_rebase {offset : Nat} (hoffset : offset ≠ 0) (sql : String) :
    glyphs (rebase sql offset).toList =
      ((lexemes sql.toList).map (Lexeme.shift offset)).flatMap Lexeme.glyphs := by
  rw [toList_rebase hoffset]
  exact (cut_lexemes sql.toList).glyphsFrom_shiftedChars offset

/-- A rebased text has the lexemes of the text with their indices raised. -/
theorem lexemes_rebase {offset : Nat} (hoffset : offset ≠ 0) (sql : String) :
    lexemes (rebase sql offset).toList =
      (lexemes sql.toList).map (Lexeme.shift offset) := by
  rw [toList_rebase hoffset, lexemes_shiftedChars]

/-- Texts without markers are left as they are. -/
theorem shiftedChars_of_noMarker {ls : List Lexeme} (h : ∀ l ∈ ls, l.index? = none)
    (offset : Nat) : shiftedChars offset ls = ls.flatMap Lexeme.chars := by
  refine List.flatMap_congr fun l hl => ?_
  cases l with
  | glyph g => rfl
  | marker digits index => cases h _ hl

theorem shiftedChars_append (offset : Nat) (ls ms : List Lexeme) :
    shiftedChars offset (ls ++ ms) = shiftedChars offset ls ++ shiftedChars offset ms :=
  List.flatMap_append

theorem shiftedChars_map_shift (i j : Nat) (ls : List Lexeme) :
    shiftedChars j (ls.map (Lexeme.shift i)) = shiftedChars (i + j) ls := by
  rw [shiftedChars, List.flatMap_map]
  refine List.flatMap_congr fun l _ => ?_
  cases l with
  | glyph g => rfl
  | marker digits index => simp only [Lexeme.shift, wrapIndex_add, Nat.add_assoc]

/-- Rebasing twice is rebasing by the sum. -/
theorem rebase_rebase (sql : String) (i j : Nat) :
    rebase (rebase sql i) j = rebase sql (i + j) := by
  by_cases hi : i = 0
  · rw [hi, rebase_zero, Nat.zero_add]
  by_cases hj : j = 0
  · rw [hj, rebase_zero, Nat.add_zero]
  have hij : i + j ≠ 0 := by omega
  rw [← String.toList_inj, toList_rebase hj, lexemes_rebase hi, shiftedChars_map_shift,
    toList_rebase hij]

/-- Rebasing leaves a text as closed as it was. -/
theorem endsInCode_rebase (sql : String) (offset : Nat) :
    EndsInCode (rebase sql offset).toList ↔ EndsInCode sql.toList := by
  by_cases hoffset : offset = 0
  · rw [hoffset, rebase_zero]
  · rw [EndsInCode, toList_rebase hoffset,
      (cut_lexemes sql.toList).regionAfter_shiftedChars offset]
    rfl

end BoundSql.Lexical
