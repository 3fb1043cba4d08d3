import BoundSql.Proofs.Lexical.Runs

/-!
# Closed texts

A text is **closed** when it leaves no quote and no comment open, so that what is
written behind it is read as if nothing stood before. `Closed` says so by the
spans of code; `EndsInCode` says the same by the region of the reader, which is
what proofs work with (`closed_iff`).

Behind a closed text only two pairs of characters can still grow together: two
hyphens, and a slash with an asterisk. `glyphs_append` cuts a text at any other
place behind a closed part, and `glyphs_append_of_quiet` also where the slash is
the end of a comment.
-/

namespace BoundSql.Lexical

/-- A text with no quote and no comment left open: a space written behind it
falls inside a span of code. -/
def Closed (sql : String) : Prop :=
  ∃ span ∈ codeSpans (sql ++ " "),
    span.start ≤ byteSize sql.toList ∧ byteSize sql.toList < span.stop

instance (sql : String) : Decidable (Closed sql) :=
  inferInstanceAs (Decidable (∃ span ∈ codeSpans (sql ++ " "),
    span.start ≤ byteSize sql.toList ∧ byteSize sql.toList < span.stop))

/-- The reader is back in code behind a text, when a space follows. -/
def EndsInCode (cs : List Char) : Prop :=
  regionAfter .code (some ' ') cs = .code

instance (cs : List Char) : Decidable (EndsInCode cs) :=
  inferInstanceAs (Decidable (regionAfter .code (some ' ') cs = .code))

/-- The end of one text and the start of the next make no comment together. -/
def Calm (a b : List Char) : Prop :=
  ∀ c ∈ a.getLast?, ¬ (c = '-' ∧ b.head? = some '-') ∧ ¬ (c = '/' ∧ b.head? = some '*')

@[simp] theorem endsInCode_nil : EndsInCode [] := rfl

/-! ## Spans and regions agree -/

theorem map_char_glyphsBefore (r : Region) (f : Option Char) (cs : List Char) :
    (glyphsBefore r f cs).map Glyph.char = cs := by
  induction cs generalizing r with
  | nil => rfl
  | cons c cs ih => simp [glyphsBefore, ih]

/-- A space is code only in code. -/
theorem step_space_code (r : Region) (next : Option Char) :
    (r.step ' ' next).2 = true ↔ r = .code := by
  cases r <;> simp [Region.step, isQuote]

theorem closed_iff (sql : String) : Closed sql ↔ EndsInCode sql.toList := by
  have hglyphs : glyphs (sql ++ " ").toList =
      glyphsBefore .code (some ' ') sql.toList ++
        [⟨' ', ((regionAfter .code (some ' ') sql.toList).step ' ' none).2⟩] := by
    rw [String.toList_append]
    exact glyphsFrom_append .code sql.toList [' ']
  -- the space is the last glyph, and the bytes before it are those of the text
  have hlast := exists_span_last_iff (glyphsBefore .code (some ' ') sql.toList)
    ⟨' ', ((regionAfter .code (some ' ') sql.toList).step ' ' none).2⟩
  simp only [map_char_glyphsBefore, Span.Covers] at hlast
  rw [Closed, codeSpans, hglyphs, hlast, step_space_code, EndsInCode]

/-! ## Reading on behind a closed text -/

/-- The last of some glyphs begins no comment with what follows. It can only do so if it is
code. -/
def Quiet (gs : List Glyph) (f : Option Char) : Prop :=
  ∀ g ∈ gs.getLast?, g.code = true →
    ¬ (g.char = '-' ∧ f = some '-') ∧ ¬ (g.char = '/' ∧ f = some '*')

instance (gs : List Glyph) (f : Option Char) : Decidable (Quiet gs f) :=
  inferInstanceAs (Decidable (∀ g ∈ gs.getLast?, g.code = true →
    ¬ (g.char = '-' ∧ f = some '-') ∧ ¬ (g.char = '/' ∧ f = some '*')))

theorem getLast?_glyphs_char (a : List Char) :
    (glyphs a).getLast?.map Glyph.char = a.getLast? := by
  rw [← List.getLast?_map, map_char_glyphs]

theorem Calm.quiet {a b : List Char} (h : Calm a b) : Quiet (glyphs a) b.head? := by
  intro g hg _
  refine h g.char ?_
  rw [← getLast?_glyphs_char, Option.mem_def.mp hg]
  rfl

/-- A step into code depends on what follows only through a comment mark. -/
theorem step_of_ends {r : Region} {c : Char} {f : Option Char}
    (h : (r.step c (some ' ')).1 = .code)
    (hquiet : (r.step c none).2 = true →
      ¬ (c = '-' ∧ f = some '-') ∧ ¬ (c = '/' ∧ f = some '*')) :
    r.step c f = r.step c none ∧ (r.step c f).1 = .code := by
  cases r with
  | code =>
      by_cases hq : isQuote c = true
      · simp [Region.step, hq] at h
      · have hcode := hquiet (by simp [Region.step, hq])
        simp [Region.step, hq, hcode.1, hcode.2]
  | quoted q => exact ⟨rfl, h⟩
  | lineComment => exact ⟨rfl, h⟩
  | blockOpening => simp [Region.step] at h
  | blockComment => simp [Region.step] at h
  | blockClosing => exact ⟨rfl, rfl⟩

/-- A part that ends in code reads the same before any text that makes no comment
with it. -/
theorem glyphsBefore_of_ends {r : Region} {a : List Char} {f : Option Char}
    (h : regionAfter r (some ' ') a = .code) (hquiet : Quiet (glyphsFrom r a) f) :
    glyphsBefore r f a = glyphsFrom r a ∧ regionAfter r f a = .code := by
  induction a generalizing r with
  | nil => exact ⟨rfl, h⟩
  | cons c cs ih =>
      -- only the last character is read with sight of `f`
      cases cs with
      | nil =>
          obtain ⟨hstep, hcode⟩ := step_of_ends h (hquiet _ rfl)
          exact ⟨by simp [glyphsBefore, hstep], hcode⟩
      | cons d ds =>
          obtain ⟨hglyphs, hregion⟩ := ih h hquiet
          refine ⟨?_, hregion⟩
          simp only [glyphsBefore, List.head?_cons, Option.some_or] at hglyphs ⊢
          rw [glyphsFrom_cons, List.head?_cons, ← hglyphs]

theorem regionAfter_append (r : Region) (f : Option Char) (a b : List Char) :
    regionAfter r f (a ++ b) = regionAfter (regionAfter r (b.head?.or f) a) f b := by
  induction a generalizing r with
  | nil => rfl
  | cons c cs ih =>
      have hhead : (cs ++ b).head?.or f = cs.head?.or (b.head?.or f) := by cases cs <;> simp
      simp only [List.cons_append, regionAfter, hhead, ih]

/-- Behind a closed part a text reads as if nothing stood before it. -/
theorem glyphs_append_of_quiet {a b : List Char} (ha : EndsInCode a)
    (hquiet : Quiet (glyphs a) b.head?) : glyphs (a ++ b) = glyphs a ++ glyphs b := by
  obtain ⟨hglyphs, hregion⟩ := glyphsBefore_of_ends ha hquiet
  rw [glyphs, glyphsFrom_append, hglyphs, hregion]
  rfl

theorem glyphs_append {a b : List Char} (ha : EndsInCode a) (hcalm : Calm a b) :
    glyphs (a ++ b) = glyphs a ++ glyphs b :=
  glyphs_append_of_quiet ha hcalm.quiet

theorem EndsInCode.append {a b : List Char} (ha : EndsInCode a) (hb : EndsInCode b)
    (hcalm : Calm a b) : EndsInCode (a ++ b) := by
  have hseam : Quiet (glyphs a) (b.head?.or (some ' ')) := by
    intro g hg hcode
    have hquiet := hcalm.quiet g hg hcode
    cases b with
    | nil => simp
    | cons d ds => simpa using hquiet
  rw [EndsInCode, regionAfter_append, (glyphsBefore_of_ends ha hseam).2]
  exact hb

/-! ## Regions that a reader comes to -/

/-- A region that a reader who started in code can be in, in front of a character: quoted
text is quoted by a quote, and the end of a block comment has a slash before it. -/
def Region.Fits : Region → Option Char → Prop
  | .quoted q, _ => isQuote q = true
  | .blockClosing, next => next = some '/'
  | _, _ => True

theorem Region.Fits.step {r : Region} {c : Char} (h : r.Fits (some c)) (next : Option Char) :
    (r.step c next).1.Fits next := by
  cases r with
  | code =>
      simp only [Region.step]
      split
      · assumption
      · split
        · trivial
        · split <;> trivial
  | quoted q =>
      simp only [Region.step]
      split
      · trivial
      · exact h
  | lineComment =>
      simp only [Region.step]
      split <;> trivial
  | blockOpening => trivial
  | blockComment =>
      simp only [Region.step]
      split
      · rename_i hmark
        exact hmark.2
      · trivial
  | blockClosing => trivial

theorem Region.Fits.regionAfter {r : Region} {f : Option Char} {cs : List Char}
    (h : r.Fits (cs.head?.or f)) : (Lexical.regionAfter r f cs).Fits f := by
  induction cs generalizing r with
  | nil => exact h
  | cons c cs ih => exact ih (Region.Fits.step h _)

end BoundSql.Lexical
