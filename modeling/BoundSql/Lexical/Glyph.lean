/-!
# Code and quoted text

SQL text is read once from left to right, and every character is found to be
code or not. Text in quotes and in comments is not code, and neither are the
quotes and the marks of the comments themselves. The reading is the same for all
backends: it knows apostrophes, double quotes, comments from two hyphens to the
end of the line, and block comments, and nothing else.

`glyphs` reads a whole text. It is a run of the one-character step
`Region.step`, so a text can be read in two pieces: `glyphsFrom_append` says
what each piece has to know of the other.
-/

namespace BoundSql.Lexical

/-- Where a reader of SQL stands. The two states around a block comment hold the
second character of its opening and of its closing mark. -/
inductive Region where
  | code
  | quoted (quote : Char)
  | lineComment
  | blockOpening
  | blockComment
  | blockClosing
  deriving DecidableEq, Repr

/-- Whether a character starts quoted text. A quote written twice inside quoted
text closes it and opens it again, which comes to the same as staying inside. -/
def isQuote (c : Char) : Bool :=
  c == '\'' || c == '"'

/-- The region behind a character, and whether the character is code. The
character after it is needed to see two-character marks. -/
def Region.step : Region → Char → Option Char → Region × Bool
  | .code, c, next =>
      if isQuote c then (.quoted c, false)
      else if c = '-' ∧ next = some '-' then (.lineComment, false)
      else if c = '/' ∧ next = some '*' then (.blockOpening, false)
      else (.code, true)
  | .quoted q, c, _ => (if c = q then .code else .quoted q, false)
  | .lineComment, c, _ => if c = '\n' then (.code, true) else (.lineComment, false)
  | .blockOpening, _, _ => (.blockComment, false)
  | .blockComment, c, next =>
      (if c = '*' ∧ next = some '/' then .blockClosing else .blockComment, false)
  | .blockClosing, _, _ => (.code, false)

/-- A character of SQL text, and whether it is code. -/
structure Glyph where
  char : Char
  code : Bool
  deriving DecidableEq, Repr

/-- The number of bytes of a character. -/
def Glyph.size (g : Glyph) : Nat :=
  g.char.utf8Size

/-- The glyphs of a text that starts in the given region. -/
def glyphsFrom (r : Region) : List Char → List Glyph
  | [] => []
  | c :: cs =>
      let (next, code) := r.step c cs.head?
      ⟨c, code⟩ :: glyphsFrom next cs

/-- The region behind a text that starts in the given region, when the character
`follower` comes after it. -/
def regionAfter (r : Region) (follower : Option Char) : List Char → Region
  | [] => r
  | c :: cs => regionAfter (r.step c (cs.head?.or follower)).1 follower cs

/-- The glyphs of a text. -/
def glyphs (cs : List Char) : List Glyph :=
  glyphsFrom .code cs

/-- The number of bytes of a text. -/
def byteSize : List Char → Nat
  | [] => 0
  | c :: cs => c.utf8Size + byteSize cs

/-! ## Small facts -/

@[simp] theorem glyphsFrom_nil (r : Region) : glyphsFrom r [] = [] := rfl

@[simp] theorem glyphsFrom_cons (r : Region) (c : Char) (cs : List Char) :
    glyphsFrom r (c :: cs) =
      ⟨c, (r.step c cs.head?).2⟩ :: glyphsFrom (r.step c cs.head?).1 cs := rfl

@[simp] theorem map_char_glyphsFrom (r : Region) (cs : List Char) :
    (glyphsFrom r cs).map Glyph.char = cs := by
  induction cs generalizing r with
  | nil => rfl
  | cons c cs ih => simp [ih]

theorem map_char_glyphs (cs : List Char) : (glyphs cs).map Glyph.char = cs :=
  map_char_glyphsFrom .code cs

@[simp] theorem length_glyphsFrom (r : Region) (cs : List Char) :
    (glyphsFrom r cs).length = cs.length := by
  induction cs generalizing r with
  | nil => rfl
  | cons c cs ih => simp [ih]

theorem byteSize_append (a b : List Char) : byteSize (a ++ b) = byteSize a + byteSize b := by
  induction a with
  | nil => exact (Nat.zero_add _).symm
  | cons c cs ih => rw [List.cons_append, byteSize, byteSize, ih, Nat.add_assoc]

/-- The glyphs of the first part of a text, read with sight of the second. -/
def glyphsBefore (r : Region) (follower : Option Char) : List Char → List Glyph
  | [] => []
  | c :: cs =>
      let (next, code) := r.step c (cs.head?.or follower)
      ⟨c, code⟩ :: glyphsBefore next follower cs

/-- A text read in two pieces: the first piece sees the first character of the
second, and the second starts where the first ends. -/
theorem glyphsFrom_append (r : Region) (a b : List Char) :
    glyphsFrom r (a ++ b) =
      glyphsBefore r b.head? a ++ glyphsFrom (regionAfter r b.head? a) b := by
  induction a generalizing r with
  | nil => rfl
  | cons c cs ih =>
      have hhead : (cs ++ b).head? = cs.head?.or b.head? := by cases cs <;> simp
      simp only [List.cons_append, glyphsFrom_cons, glyphsBefore, regionAfter, hhead, ih]

end BoundSql.Lexical
