import BoundSql.Lexical.Marker
import BoundSql.Proofs.Lexical.Closed

/-!
# Seams between texts

When two texts are written one behind the other, their lexemes are those of the
first and then those of the second, unless something grows together where they
meet. `lexemes_append` names the four things that can: a comment that starts
across the seam, a comment or quote left open by the first text, a word of the
first text that takes in a dollar sign of the second, and a marker of the first
that takes in digits of the second.

A **separator** is a character at which none of this happens. Everything that the
compiler writes meets its neighbour at a separator (`lexemes_append_of_apart`),
except binds inside raw SQL.
-/

namespace BoundSql.Lexical

/-! ## Lexemes and their glyphs -/

/-- The glyphs of a lexeme. A marker is code throughout. -/
def Lexeme.glyphs : Lexeme → List Glyph
  | .glyph g => [g]
  | .marker digits _ => ⟨'$', true⟩ :: digits.map fun c => ⟨c, true⟩

theorem takeDigits_eq (ls : List Lexeme) :
    ls = (takeDigits ls).1.map (fun c => .glyph ⟨c, true⟩) ++ (takeDigits ls).2 ∧
      ∀ c ∈ (takeDigits ls).1, c.isDigit = true := by
  fun_induction takeDigits ls with
  | case1 c rest hc ds tail hrest ih =>
      rw [hrest] at ih
      obtain ⟨heq, hdigits⟩ := ih
      refine ⟨by simpa using heq, ?_⟩
      intro d hd
      rcases List.mem_cons.mp hd with rfl | hd
      · exact hc
      · exact hdigits d hd
  | case2 => simp
  | case3 => simp

theorem glyphs_attachDollar (rest : List Lexeme) :
    (attachDollar ⟨'$', true⟩ rest).flatMap Lexeme.glyphs =
      ⟨'$', true⟩ :: rest.flatMap Lexeme.glyphs := by
  have hrest := (takeDigits_eq rest).1
  unfold attachDollar
  cases hcut : takeDigits rest with
  | mk ds tail =>
      rw [hcut] at hrest
      simp only []
      split
      · rw [hrest]
        simp [Lexeme.glyphs, List.flatMap_append, List.flatMap_map, ← List.map_eq_flatMap]
      · rfl

/-- The lexemes of glyphs hold these glyphs in order. -/
theorem glyphs_lexemesFrom (word : Bool) (gs : List Glyph) :
    (lexemesFrom word gs).flatMap Lexeme.glyphs = gs := by
  induction gs generalizing word with
  | nil => rfl
  | cons g gs ih =>
      simp only [lexemesFrom]
      split
      · rename_i h
        obtain ⟨c, code⟩ := g
        simp only [Bool.and_eq_true, beq_iff_eq] at h
        obtain ⟨⟨rfl, rfl⟩, -⟩ := h
        rw [glyphs_attachDollar, ih]
      · simp [Lexeme.glyphs, ih]

/-! ## Digits at a seam -/

/-- Glyphs that end in a dollar sign of code with digits of code behind it, so that
further digits would join them. -/
def EndsInDollar (gs : List Glyph) : Prop :=
  ∃ before ds, gs = before ++ ⟨'$', true⟩ :: ds ∧
    ∀ d ∈ ds, d.code = true ∧ d.char.isDigit = true

/-- Glyphs that start with a digit of code. -/
def StartsInDigit (gs : List Glyph) : Prop :=
  ∃ g ∈ gs.head?, g.code = true ∧ g.char.isDigit = true

theorem EndsInDollar.cons {g : Glyph} {gs : List Glyph} (h : EndsInDollar gs) :
    EndsInDollar (g :: gs) := by
  obtain ⟨before, ds, rfl, hds⟩ := h
  exact ⟨g :: before, ds, rfl, hds⟩

theorem takeDigits_of_fst_nil {ls : List Lexeme} (h : (takeDigits ls).1 = []) :
    takeDigits ls = ([], ls) := by
  have hls := (takeDigits_eq ls).1
  rw [h] at hls
  exact Prod.ext h hls.symm

/-- A run of digits that ends inside the first part is not changed by the second. -/
theorem takeDigits_append {ls ms : List Lexeme}
    (h : (takeDigits ls).2 = [] → (takeDigits ms).1 = []) :
    takeDigits (ls ++ ms) = ((takeDigits ls).1, (takeDigits ls).2 ++ ms) := by
  fun_induction takeDigits ls with
  | case1 c rest hc ds tail hrest ih =>
      rw [hrest] at ih
      have := ih h
      simp [takeDigits, hc, this]
  | case2 c rest hc => simp [takeDigits, hc]
  | case3 ls hls =>
      cases ls with
      | nil =>
          -- the first part is all digits, so the run would go on in the second
          rw [List.nil_append, takeDigits_of_fst_nil (h rfl)]
      | cons l ls =>
          cases l with
          | glyph g =>
              obtain ⟨c, code⟩ := g
              cases code with
              | true => exact absurd rfl (hls c ls)
              | false => simp [takeDigits]
          | marker digits index => simp [takeDigits]

theorem takeDigits_lexemesFrom_of_head {word : Bool} {gs : List Glyph}
    (h : ¬ StartsInDigit gs) : (takeDigits (lexemesFrom word gs)).1 = [] := by
  cases gs with
  | nil => rfl
  | cons g gs =>
      have hg : ¬ (g.code = true ∧ g.char.isDigit = true) := fun hd => h ⟨g, rfl, hd⟩
      obtain ⟨c, code⟩ := g
      have hglyph : ∀ ls, (takeDigits (.glyph ⟨c, code⟩ :: ls)).1 = [] := by
        intro ls
        cases code with
        | true =>
            have hc : c.isDigit = false := by simpa using hg
            simp [takeDigits, hc]
        | false => rfl
      simp only [lexemesFrom]
      split
      · unfold attachDollar
        simp only []
        split
        · rfl
        · exact hglyph _
      · exact hglyph _

/-- Lexemes that are all digits come from glyphs that are all digits. -/
theorem glyphs_of_takeDigits_snd_nil {word : Bool} {gs : List Glyph}
    (h : (takeDigits (lexemesFrom word gs)).2 = []) :
    ∀ d ∈ gs, d.code = true ∧ d.char.isDigit = true := by
  obtain ⟨heq, hdigits⟩ := takeDigits_eq (lexemesFrom word gs)
  rw [h, List.append_nil] at heq
  have hgs := glyphs_lexemesFrom word gs
  rw [heq] at hgs
  intro d hd
  rw [← hgs] at hd
  simp only [List.flatMap_map, Lexeme.glyphs, List.mem_flatMap, List.mem_singleton] at hd
  obtain ⟨c, hc, rfl⟩ := hd
  exact ⟨rfl, hdigits c hc⟩

theorem attachDollar_append {g : Glyph} {ls ms : List Lexeme}
    (h : (takeDigits ls).2 = [] → (takeDigits ms).1 = []) :
    attachDollar g (ls ++ ms) = attachDollar g ls ++ ms := by
  unfold attachDollar
  rw [takeDigits_append h]
  simp only []
  split <;> rfl

/-! ## Words at a seam -/

/-- Whether a dollar sign behind these glyphs belongs to a word. -/
def wordAfter (word : Bool) (gs : List Glyph) : Bool :=
  (gs.getLast?.map fun g => isWordChar g.char).getD word

theorem wordAfter_cons (word : Bool) (g : Glyph) (gs : List Glyph) :
    wordAfter word (g :: gs) = wordAfter (isWordChar g.char) gs := by
  cases gs with
  | nil => rfl
  | cons h gs => rfl

/-- Lexemes of glyphs in two parts, where no marker takes digits from the second. -/
theorem lexemesFrom_append {word : Bool} {gs hs : List Glyph}
    (hopen : StartsInDigit hs → ¬ EndsInDollar gs) :
    lexemesFrom word (gs ++ hs) =
      lexemesFrom word gs ++ lexemesFrom (wordAfter word gs) hs := by
  induction gs generalizing word with
  | nil => rfl
  | cons g gs ih =>
      have ih' : ∀ word, lexemesFrom word (gs ++ hs) =
          lexemesFrom word gs ++ lexemesFrom (wordAfter word gs) hs :=
        fun _ => ih fun hd he => hopen hd he.cons
      simp only [List.cons_append, lexemesFrom, ih', wordAfter_cons]
      split
      · rename_i h
        refine attachDollar_append fun hall => takeDigits_lexemesFrom_of_head fun hd => ?_
        -- otherwise the first part is a dollar sign and digits, and the second goes on
        have hcode : g = ⟨'$', true⟩ := by
          obtain ⟨c, code⟩ := g
          simp only [Bool.and_eq_true, beq_iff_eq] at h
          obtain ⟨⟨rfl, rfl⟩, -⟩ := h
          rfl
        exact hopen hd ⟨[], gs, by rw [hcode]; rfl, glyphs_of_takeDigits_snd_nil hall⟩
      · rfl

/-- Glyphs that start without a marker read the same behind a word. -/
theorem lexemesFrom_true_of_head {gs : List Glyph}
    (h : ∀ l ∈ (lexemesFrom false gs).head?, l.index? = none) :
    lexemesFrom true gs = lexemesFrom false gs := by
  cases gs with
  | nil => rfl
  | cons g gs =>
      simp only [lexemesFrom, Bool.not_true, Bool.and_false, Bool.false_eq_true, if_false,
        Bool.not_false, Bool.and_true] at h ⊢
      split
      · rename_i hg
        rw [if_pos hg] at h
        unfold attachDollar at h ⊢
        simp only [] at h ⊢
        split
        · rename_i hd
          rw [if_pos hd] at h
          exact absurd (h _ rfl) (by simp [Lexeme.index?])
        · rfl
      · rfl

/-- The lexemes of two texts one behind the other. -/
theorem lexemes_append {a b : List Char} (ha : EndsInCode a) (hquiet : Quiet (glyphs a) b.head?)
    (hword : lexemesFrom (wordAfter false (glyphs a)) (glyphs b) = lexemes b)
    (hopen : StartsInDigit (glyphs b) → ¬ EndsInDollar (glyphs a)) :
    lexemes (a ++ b) = lexemes a ++ lexemes b := by
  rw [lexemes, glyphs_append_of_quiet ha hquiet, lexemesFrom_append hopen, hword]
  rfl

/-! ## Separators -/

/-- A character that joins with nothing before it and nothing behind it. -/
def isSeparator (c : Char) : Bool :=
  !isWordChar c && !(['-', '*', '/', '$'].contains c)

/-- Two texts of which one shows the other a separator. -/
def Apart (a b : List Char) : Prop :=
  (∀ c ∈ a.getLast?, isSeparator c = true) ∨ (∀ c ∈ b.head?, isSeparator c = true)

theorem isSeparator_iff {c : Char} :
    isSeparator c = true ↔
      isWordChar c = false ∧ c ≠ '-' ∧ c ≠ '*' ∧ c ≠ '/' ∧ c ≠ '$' := by
  simp [isSeparator]

theorem not_isDigit_of_isSeparator {c : Char} (h : isSeparator c = true) :
    c.isDigit = false := by
  have hword := (isSeparator_iff.mp h).1
  simp only [isWordChar, Char.isAlphanum, Bool.or_eq_false_iff] at hword
  exact hword.1.2

theorem Apart.calm {a b : List Char} (h : Apart a b) : Calm a b := by
  intro c hc
  rcases h with ha | hb
  · obtain ⟨-, hhyphen, -, hslash, -⟩ := isSeparator_iff.mp (ha c hc)
    exact ⟨fun h => hhyphen h.1, fun h => hslash h.1⟩
  · constructor
    · rintro ⟨-, hhead⟩
      exact absurd (hb _ hhead) (by decide)
    · rintro ⟨-, hhead⟩
      exact absurd (hb _ hhead) (by decide)

theorem head?_glyphs_char (a : List Char) :
    (glyphs a).head?.map Glyph.char = a.head? := by
  rw [← List.head?_map, map_char_glyphs]

theorem wordAfter_glyphs (a : List Char) :
    wordAfter false (glyphs a) = (a.getLast?.map isWordChar).getD false := by
  rw [wordAfter, ← getLast?_glyphs_char, Option.map_map]
  rfl

theorem startsInDigit_glyphs {b : List Char} (h : StartsInDigit (glyphs b)) :
    ∃ c ∈ b.head?, c.isDigit = true := by
  obtain ⟨g, hg, -, hdigit⟩ := h
  refine ⟨g.char, ?_, hdigit⟩
  rw [← head?_glyphs_char, Option.mem_def.mp hg]
  rfl

/-- Glyphs that end in a dollar sign and digits do not end in a separator. -/
theorem EndsInDollar.getLast? {gs : List Glyph} (h : EndsInDollar gs) :
    ∃ g ∈ gs.getLast?, isSeparator g.char = false := by
  obtain ⟨before, ds, rfl, hds⟩ := h
  rw [List.getLast?_append, List.getLast?_cons, Option.some_or]
  cases hlast : ds.getLast? with
  | none => exact ⟨⟨'$', true⟩, rfl, by decide⟩
  | some d =>
      refine ⟨d, rfl, ?_⟩
      have hd := (hds d (List.mem_of_getLast? hlast)).2
      cases hsep : isSeparator d.char with
      | true => exact absurd hd (by simp [not_isDigit_of_isSeparator hsep])
      | false => rfl

theorem lexemesFrom_of_isSeparator {word : Bool} {b : List Char}
    (hb : ∀ c ∈ b.head?, isSeparator c = true) : lexemesFrom word (glyphs b) = lexemes b := by
  cases b with
  | nil => rfl
  | cons c cs =>
      have hc : c ≠ '$' := (isSeparator_iff.mp (hb c rfl)).2.2.2.2
      simp [lexemes, glyphs, lexemesFrom, hc]

/-- At a separator lexemes of two texts do not join. -/
theorem lexemes_append_of_apart {a b : List Char} (ha : EndsInCode a) (h : Apart a b) :
    lexemes (a ++ b) = lexemes a ++ lexemes b := by
  refine lexemes_append ha h.calm.quiet ?_ ?_
  · rcases h with hlast | hhead
    -- a separator ends a word; or what starts with one is no marker, word or not
    · have hword : wordAfter false (glyphs a) = false := by
        rw [wordAfter_glyphs]
        cases hc : a.getLast? with
        | none => rfl
        | some c => exact (isSeparator_iff.mp (hlast c hc)).1
      rw [hword]
      rfl
    · exact lexemesFrom_of_isSeparator hhead
  · intro hdigit hdollar
    rcases h with hlast | hhead
    · obtain ⟨g, hg, hsep⟩ := hdollar.getLast?
      have hmem : g.char ∈ a.getLast? := by
        rw [← getLast?_glyphs_char, Option.mem_def.mp hg]
        rfl
      exact absurd (hlast _ hmem) (by simp [hsep])
    · obtain ⟨c, hc, hdig⟩ := startsInDigit_glyphs hdigit
      exact absurd hdig (by simp [not_isDigit_of_isSeparator (hhead c hc)])

theorem EndsInCode.append_of_apart {a b : List Char} (ha : EndsInCode a) (hb : EndsInCode b)
    (h : Apart a b) : EndsInCode (a ++ b) :=
  ha.append hb h.calm

end BoundSql.Lexical
