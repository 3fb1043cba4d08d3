import BoundSql.Proofs.Lexical.Seam

/-!
# The cut of a text into lexemes

`Cut r word cs ls` says from left to right what `lexemesFrom` computes from the
back: a dollar sign in code, not in a word, takes the digits behind it if there
are any and they spell an index, and every other character stands alone. Each
text has a cut (`cut_lexemesFrom`) and no other (`Cut.lexemesFrom_eq`), so that
facts on lexemes can be proved by induction on the cut.
-/

namespace BoundSql.Lexical

/-- The digits at the start of a text. -/
def leadingDigits (cs : List Char) : List Char :=
  (Text.spanDigits cs).1

/-- Whether a numbered marker starts here. -/
def StartsMarker (r : Region) (word : Bool) (c : Char) (cs : List Char) : Prop :=
  r = .code ∧ word = false ∧ c = '$' ∧ leadingDigits cs ≠ [] ∧
    Text.natOfDigits (leadingDigits cs) < indexBound

/-- The cut of a text that starts in a region, behind a word or not. -/
inductive Cut : Region → Bool → List Char → List Lexeme → Prop
  | nil (r : Region) (word : Bool) : Cut r word [] []
  /-- A marker takes all digits behind the dollar sign. -/
  | marker {ds cs : List Char} {ls : List Lexeme} (hne : ds ≠ [])
      (hdigits : ∀ c ∈ ds, c.isDigit = true) (hbound : Text.natOfDigits ds < indexBound)
      (hstop : leadingDigits cs = []) (htail : Cut .code true cs ls) :
      Cut .code false ('$' :: (ds ++ cs)) (.marker ds (Text.natOfDigits ds) :: ls)
  | glyph {r : Region} {word : Bool} {c : Char} {cs : List Char} {ls : List Lexeme}
      (hno : ¬ StartsMarker r word c cs)
      (htail : Cut (r.step c cs.head?).1 (isWordChar c) cs ls) :
      Cut r word (c :: cs) (.glyph ⟨c, (r.step c cs.head?).2⟩ :: ls)

/-! ## Digits in code -/

/-- A digit in code is code, whatever follows. -/
theorem step_code_of_isDigit {c : Char} (h : c.isDigit = true) (next : Option Char) :
    Region.step .code c next = (.code, true) := by
  have hquote : isQuote c = false := by
    cases hq : isQuote c with
    | false => rfl
    | true =>
        simp only [isQuote, Bool.or_eq_true, beq_iff_eq] at hq
        rcases hq with rfl | rfl <;> simp [Char.isDigit] at h
  have hhyphen : c ≠ '-' := by rintro rfl; simp [Char.isDigit] at h
  have hslash : c ≠ '/' := by rintro rfl; simp [Char.isDigit] at h
  simp [Region.step, hquote, hhyphen, hslash]

/-- A dollar sign in code is code, whatever follows. -/
theorem step_code_dollar (next : Option Char) : Region.step .code '$' next = (.code, true) := by
  simp [Region.step, isQuote]

/-- Digits in code are code. -/
theorem glyphsFrom_digits {ds : List Char} (hdigits : ∀ c ∈ ds, c.isDigit = true)
    (cs : List Char) :
    glyphsFrom .code (ds ++ cs) = ds.map (fun c => ⟨c, true⟩) ++ glyphsFrom .code cs := by
  induction ds with
  | nil => rfl
  | cons c ds ih =>
      have ih' := ih fun d hd => hdigits d (by simp [hd])
      simp [step_code_of_isDigit (hdigits c (by simp)), ih']

/-- The glyphs of a dollar sign and the digits behind it. -/
def dollarGlyphs (ds : List Char) : List Glyph :=
  ⟨'$', true⟩ :: ds.map fun c => ⟨c, true⟩

@[simp] theorem map_char_dollarGlyphs (ds : List Char) :
    (dollarGlyphs ds).map Glyph.char = '$' :: ds := by
  simp [dollarGlyphs, Function.comp_def]

theorem glyphsFrom_dollar {ds : List Char} (hdigits : ∀ c ∈ ds, c.isDigit = true)
    (cs : List Char) :
    glyphsFrom .code ('$' :: (ds ++ cs)) = dollarGlyphs ds ++ glyphsFrom .code cs := by
  rw [glyphsFrom_cons, step_code_dollar, glyphsFrom_digits hdigits]
  rfl

theorem isWordChar_of_isDigit {c : Char} (h : c.isDigit = true) : isWordChar c = true := by
  simp [isWordChar, Char.isAlphanum, h]

theorem ne_dollar_of_isDigit {c : Char} (h : c.isDigit = true) : c ≠ '$' := by
  rintro rfl
  simp [Char.isDigit] at h

@[simp] theorem leadingDigits_nil : leadingDigits [] = [] := rfl

theorem leadingDigits_cons (c : Char) (cs : List Char) :
    leadingDigits (c :: cs) = if c.isDigit = true then c :: leadingDigits cs else [] := by
  simp only [leadingDigits, Text.spanDigits, List.takeWhile_cons]

theorem isDigit_of_mem_leadingDigits {c : Char} {cs : List Char}
    (h : c ∈ leadingDigits cs) : c.isDigit = true := by
  simp only [leadingDigits, Text.spanDigits] at h
  exact List.all_eq_true.mp List.all_takeWhile c h

/-- A text behind its leading digits starts with none. -/
theorem exists_leadingDigits_append (cs : List Char) :
    ∃ rest, cs = leadingDigits cs ++ rest ∧ leadingDigits rest = [] := by
  refine ⟨(Text.spanDigits cs).2, (Text.spanDigits_append cs).symm, ?_⟩
  simp only [leadingDigits, Text.spanDigits]
  cases hrest : cs.dropWhile Char.isDigit with
  | nil => rfl
  | cons c rest =>
      have hhead := List.head?_dropWhile_not Char.isDigit cs
      rw [hrest] at hhead
      simp only [List.head?_cons] at hhead
      simp [hhead]

/-- The digits that a dollar sign can take are the leading digits of the text. -/
theorem takeDigits_lexemesFrom (word : Bool) (ds cs : List Char)
    (hdigits : ∀ c ∈ ds, c.isDigit = true) (hstop : leadingDigits cs = []) :
    takeDigits (lexemesFrom word (glyphsFrom .code (ds ++ cs))) =
      (ds, lexemesFrom (if ds = [] then word else true) (glyphsFrom .code cs)) := by
  induction ds generalizing word with
  | nil =>
      -- what follows the digits starts with none, or the run would not have stopped
      refine takeDigits_of_fst_nil (takeDigits_lexemesFrom_of_head ?_)
      rintro ⟨g, hg, -, hdigit⟩
      cases cs with
      | nil => simp at hg
      | cons c cs =>
          simp only [List.nil_append, glyphsFrom_cons, List.head?_cons, Option.mem_def,
            Option.some.injEq] at hg
          subst hg
          rw [leadingDigits_cons, if_pos hdigit] at hstop
          exact absurd hstop (List.cons_ne_nil _ _)
  | cons c ds ih =>
      have hc := hdigits c (by simp)
      have ih' := ih true fun d hd => hdigits d (by simp [hd])
      simp only [List.cons_append, glyphsFrom_cons, step_code_of_isDigit hc, lexemesFrom,
        isWordChar_of_isDigit hc]
      rw [if_neg (by simp [ne_dollar_of_isDigit hc])]
      simp only [takeDigits, hc, if_true, ih', ite_self, List.cons_ne_nil, if_false]

/-! ## The cut and the function -/

theorem lexemesFrom_marker {ds cs : List Char} (hne : ds ≠ [])
    (hdigits : ∀ c ∈ ds, c.isDigit = true) (hbound : Text.natOfDigits ds < indexBound)
    (hstop : leadingDigits cs = []) :
    lexemesFrom false (glyphsFrom .code ('$' :: (ds ++ cs))) =
      .marker ds (Text.natOfDigits ds) :: lexemesFrom true (glyphsFrom .code cs) := by
  simp only [glyphsFrom_cons, step_code_dollar, lexemesFrom]
  rw [if_pos (by decide), attachDollar, takeDigits_lexemesFrom _ _ _ hdigits hstop]
  simp [hne, hbound]

theorem lexemesFrom_glyph {r : Region} {word : Bool} {c : Char} {cs : List Char}
    (hno : ¬ StartsMarker r word c cs) :
    lexemesFrom word (glyphsFrom r (c :: cs)) =
      .glyph ⟨c, (r.step c cs.head?).2⟩ ::
        lexemesFrom (isWordChar c) (glyphsFrom (r.step c cs.head?).1 cs) := by
  simp only [glyphsFrom_cons, lexemesFrom]
  split
  · rename_i h
    simp only [Bool.and_eq_true, beq_iff_eq, Bool.not_eq_true'] at h
    obtain ⟨⟨hcode, rfl⟩, rfl⟩ := h
    have hr : r = .code := by
      cases r <;> simp [Region.step] at hcode ⊢
    subst hr
    -- a dollar sign in code that starts no marker has no digits or too many behind it
    obtain ⟨rest, heq, hstop⟩ := exists_leadingDigits_append cs
    have htake := takeDigits_lexemesFrom (isWordChar '$') (leadingDigits cs) rest
      (fun d hd => isDigit_of_mem_leadingDigits hd) hstop
    rw [← heq] at htake
    rw [attachDollar, step_code_dollar, htake]
    exact if_neg fun h => hno ⟨rfl, rfl, rfl, h⟩
  · rfl

theorem Cut.lexemesFrom_eq {r : Region} {word : Bool} {cs : List Char} {ls : List Lexeme}
    (h : Cut r word cs ls) : lexemesFrom word (glyphsFrom r cs) = ls := by
  induction h with
  | nil r word => rfl
  | marker hne hdigits hbound hstop _ ih =>
      rw [lexemesFrom_marker hne hdigits hbound hstop, ih]
  | glyph hno _ ih => rw [lexemesFrom_glyph hno, ih]

theorem cut_lexemesFrom (r : Region) (word : Bool) (cs : List Char) :
    Cut r word cs (lexemesFrom word (glyphsFrom r cs)) := by
  -- a marker takes several characters at once, hence the induction on the length
  induction hn : cs.length using Nat.strongRecOn generalizing r word cs with
  | ind n ih =>
      cases cs with
      | nil => exact .nil r word
      | cons c cs =>
          simp only [List.length_cons] at hn
          by_cases hmarker : StartsMarker r word c cs
          · obtain ⟨rfl, rfl, rfl, hne, hbound⟩ := hmarker
            obtain ⟨rest, heq, hstop⟩ := exists_leadingDigits_append cs
            have hdigits : ∀ d ∈ leadingDigits cs, d.isDigit = true :=
              fun d hd => isDigit_of_mem_leadingDigits hd
            have hlen : rest.length < n := by
              have := congrArg List.length heq
              simp only [List.length_append] at this
              omega
            rw [heq, lexemesFrom_marker hne hdigits hbound hstop]
            exact .marker hne hdigits hbound hstop (ih _ hlen _ _ _ rfl)
          · rw [lexemesFrom_glyph hmarker]
            exact .glyph hmarker (ih cs.length (by omega) _ _ _ rfl)

theorem cut_lexemes (cs : List Char) : Cut .code false cs (lexemes cs) :=
  cut_lexemesFrom .code false cs

end BoundSql.Lexical
