import BoundSql.Lexical.Span
import BoundSql.Text.Digits

/-!
# Numbered markers

A numbered marker is a dollar sign in code, not behind a letter, a digit or an
underscore, and the digits behind it. `lexemes` cuts a text into markers and
single characters; finding markers and renumbering them are two views of that
one cut.

A run of digits whose number needs more than sixty-four bits makes no marker.
-/

namespace BoundSql.Lexical

/-- A piece of SQL text: one character, or a numbered marker with its digits as
written. -/
inductive Lexeme where
  | glyph (g : Glyph)
  | marker (digits : List Char) (index : Nat)
  deriving DecidableEq, Repr

namespace Lexeme

/-- The text of a lexeme. -/
def chars : Lexeme → List Char
  | .glyph g => [g.char]
  | .marker digits _ => '$' :: digits

/-- The number of bytes of a lexeme. -/
def size (l : Lexeme) : Nat :=
  byteSize l.chars

/-- The index of a marker. -/
def index? : Lexeme → Option Nat
  | .glyph _ => none
  | .marker _ index => some index

end Lexeme

/-- Indices of markers stay below this bound. -/
def indexBound : Nat := UInt64.size

/-- What a machine word holds of a number. -/
def wrapIndex (n : Nat) : Nat :=
  n % indexBound

/-- A lexeme with its index raised by `offset`. The sum is a machine word; a program that
checks for overflow stops where it does not fit. -/
def Lexeme.shift (offset : Nat) : Lexeme → Lexeme
  | .glyph g => .glyph g
  | .marker _ index =>
      .marker (Text.digits (wrapIndex (index + offset))) (wrapIndex (index + offset))

/-- Whether a dollar sign behind this character belongs to a word. -/
def isWordChar (c : Char) : Bool :=
  c.isAlphanum || c == '_'

/-- The digits in code at the start of a cut, and the lexemes behind them. -/
def takeDigits : List Lexeme → List Char × List Lexeme
  | .glyph ⟨c, true⟩ :: rest =>
      if c.isDigit then
        let (ds, tail) := takeDigits rest
        (c :: ds, tail)
      else ([], .glyph ⟨c, true⟩ :: rest)
  | ls => ([], ls)

/-- A dollar sign in front of a cut: with digits behind it that spell an index
it is a marker, otherwise it is a character. -/
def attachDollar (g : Glyph) (rest : List Lexeme) : List Lexeme :=
  let (ds, tail) := takeDigits rest
  if ds ≠ [] ∧ Text.natOfDigits ds < indexBound then .marker ds (Text.natOfDigits ds) :: tail
  else .glyph g :: rest

/-- The lexemes of glyphs, given whether the character before them belongs to a
word. -/
def lexemesFrom (word : Bool) : List Glyph → List Lexeme
  | [] => []
  | g :: gs =>
      let rest := lexemesFrom (isWordChar g.char) gs
      if g.code && g.char == '$' && !word then attachDollar g rest else .glyph g :: rest

/-- The lexemes of a text. -/
def lexemes (cs : List Char) : List Lexeme :=
  lexemesFrom false (glyphs cs)

/-- A numbered marker of a text. -/
structure Marker where
  span : Span
  index : Nat
  deriving DecidableEq, Repr

/-- The markers among lexemes that start at byte `pos`. -/
def markersFrom (pos : Nat) : List Lexeme → List Marker
  | [] => []
  | l :: ls =>
      let stop := pos + l.size
      match l.index? with
      | some index => ⟨⟨pos, stop⟩, index⟩ :: markersFrom stop ls
      | none => markersFrom stop ls

/-- The numbered markers of a text, in their order. -/
def numberedMarkers (sql : String) : List Marker :=
  markersFrom 0 (lexemes sql.toList)

/-- The text with all marker indices raised by `offset`. An offset of zero
leaves the text as it is, leading zeros included. -/
def rebase (sql : String) (offset : Nat) : String :=
  if offset = 0 then sql
  else String.ofList ((lexemes sql.toList).flatMap fun l => (l.shift offset).chars)

/-! ## Small facts -/

theorem wrapIndex_lt (n : Nat) : wrapIndex n < indexBound :=
  Nat.mod_lt _ (by decide)

theorem wrapIndex_of_lt {n : Nat} (h : n < indexBound) : wrapIndex n = n :=
  Nat.mod_eq_of_lt h

/-- Machine words are added like the numbers that they hold a part of. -/
theorem wrapIndex_add (m n : Nat) : wrapIndex (wrapIndex m + n) = wrapIndex (m + n) :=
  Nat.mod_add_mod m indexBound n

theorem chars_takeDigits (ls : List Lexeme) :
    (takeDigits ls).1 ++ (takeDigits ls).2.flatMap Lexeme.chars = ls.flatMap Lexeme.chars := by
  fun_induction takeDigits ls with
  | case1 c rest _ ds tail hrest ih =>
      rw [hrest] at ih
      simpa [Lexeme.chars] using ih
  | case2 => simp
  | case3 => simp

theorem chars_attachDollar {g : Glyph} (h : g.char = '$') (rest : List Lexeme) :
    (attachDollar g rest).flatMap Lexeme.chars =
      g.char :: rest.flatMap Lexeme.chars := by
  have hd := chars_takeDigits rest
  unfold attachDollar
  cases hcut : takeDigits rest with
  | mk ds tail =>
      simp only [hcut] at hd ⊢
      split
      · simp [Lexeme.chars, h, hd]
      · rfl

/-- The lexemes of a text hold all its characters. -/
theorem chars_lexemesFrom (word : Bool) (gs : List Glyph) :
    (lexemesFrom word gs).flatMap Lexeme.chars = gs.map Glyph.char := by
  induction gs generalizing word with
  | nil => rfl
  | cons g gs ih =>
      simp only [lexemesFrom]
      split
      · rename_i h
        rw [chars_attachDollar (by simp at h; exact h.1.2), ih]
        rfl
      · simp [Lexeme.chars, ih]

@[simp] theorem chars_lexemes (cs : List Char) :
    (lexemes cs).flatMap Lexeme.chars = cs := by
  simp [lexemes, glyphs, chars_lexemesFrom]

@[simp] theorem rebase_zero (sql : String) : rebase sql 0 = sql := rfl

end BoundSql.Lexical
