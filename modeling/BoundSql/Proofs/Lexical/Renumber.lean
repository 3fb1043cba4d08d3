import BoundSql.Proofs.Lexical.Closed
import BoundSql.Proofs.Lexical.Rebase

/-!
# Texts with other numbers

Two texts are **renumbered** versions of each other when they differ in the digits of
numerals behind dollar signs and in nothing else. A numbered text and a rebased one are
such a pair, and so are the texts that a compiler writes behind different numbers of binds.

Whether such a dollar sign is a marker depends on the text before it, which may have opened
a quote, a comment or a word. The reader comes to both texts' dollar signs in the same state,
so the two have equally many markers, whatever the texts leave open
(`Renumbered.length_numbersFrom`). The numbers of markers are collected character by
character for this: once a marker has added its number, its digits are passed like any
other characters (`numbersFrom_marker`).
-/

namespace BoundSql.Lexical

/-! ## The numbers of markers -/

/-- The numbers of the markers of a text that starts in a region, behind a word or not. -/
def numbersFrom (r : Region) (word : Bool) (cs : List Char) : List Nat :=
  (lexemesFrom word (glyphsFrom r cs)).filterMap Lexeme.index?

theorem numbersFrom_glyph {r : Region} {word : Bool} {c : Char} {cs : List Char}
    (hno : ¬ StartsMarker r word c cs) :
    numbersFrom r word (c :: cs) = numbersFrom (r.step c cs.head?).1 (isWordChar c) cs := by
  rw [numbersFrom, lexemesFrom_glyph hno]
  rfl

/-- A region that digits do not lead out of. -/
def Region.Steady (r : Region) : Prop :=
  ∀ c, c.isDigit = true → ∀ next, (r.step c next).1 = r

theorem Region.steady_code : Region.code.Steady :=
  fun _ hc next => congrArg Prod.fst (step_code_of_isDigit hc next)

/-- Digits have no numbers of their own, but are a word before what follows. -/
theorem numbersFrom_digits {r : Region} (hsteady : r.Steady) {ds : List Char}
    (hdigits : ∀ c ∈ ds, c.isDigit = true) (word : Bool) (cs : List Char) :
    numbersFrom r word (ds ++ cs) = numbersFrom r (if ds = [] then word else true) cs := by
  induction ds generalizing word with
  | nil => rfl
  | cons c ds ih =>
      have hc := hdigits c (by simp)
      rw [List.cons_append, numbersFrom_glyph fun h => ne_dollar_of_isDigit hc h.2.2.1,
        hsteady c hc, isWordChar_of_isDigit hc, ih fun d hd => hdigits d (by simp [hd])]
      simp

theorem leadingDigits_eq_nil_iff {cs : List Char} :
    leadingDigits cs = [] ↔ ∀ c ∈ cs.head?, c.isDigit = false := by
  cases cs with
  | nil => simp
  | cons c cs => simp [leadingDigits_cons]

/-- Digits are leading digits in front of anything but digits. -/
theorem leadingDigits_append {ds cs : List Char} (hdigits : ∀ c ∈ ds, c.isDigit = true)
    (hstop : leadingDigits cs = []) : leadingDigits (ds ++ cs) = ds := by
  simp only [leadingDigits, Text.spanDigits] at hstop ⊢
  rw [List.takeWhile_append_of_pos hdigits, hstop, List.append_nil]

/-- A marker adds its number, and its digits can be passed like any characters. -/
theorem numbersFrom_marker {r : Region} {word : Bool} {c : Char} {cs : List Char}
    (h : StartsMarker r word c cs) :
    numbersFrom r word (c :: cs) = Text.natOfDigits (leadingDigits cs) ::
      numbersFrom (r.step c cs.head?).1 (isWordChar c) cs := by
  obtain ⟨rfl, rfl, rfl, hne, hbound⟩ := h
  obtain ⟨rest, heq, hstop⟩ := exists_leadingDigits_append cs
  have hdigits : ∀ d ∈ leadingDigits cs, d.isDigit = true :=
    fun d hd => isDigit_of_mem_leadingDigits hd
  have hmarker := lexemesFrom_marker hne hdigits hbound hstop
  have hrest := numbersFrom_digits Region.steady_code hdigits (isWordChar '$') rest
  rw [if_neg hne, ← heq] at hrest
  rw [← heq] at hmarker
  rw [step_code_dollar, hrest, numbersFrom, hmarker]
  rfl

/-! ## Numerals behind dollar signs -/

/-- Digits that spell an index. -/
structure Numeral (ds : List Char) : Prop where
  ne_nil : ds ≠ []
  digits : ∀ c ∈ ds, c.isDigit = true
  bound : Text.natOfDigits ds < indexBound

theorem numeral_digits {index : Nat} (h : index < indexBound) : Numeral (Text.digits index) :=
  ⟨Text.digits_ne_nil index, isDigit_digits index, by rwa [Text.natOfDigits_digits]⟩

/-- Texts that differ in numerals behind dollar signs only. -/
inductive Renumbered : List Char → List Char → Prop
  | nil : Renumbered [] []
  | cons (c : Char) {cs es : List Char} (htail : Renumbered cs es) :
      Renumbered (c :: cs) (c :: es)
  | numeral {m n cs es : List Char} (hm : Numeral m) (hn : Numeral n)
      (hstop : leadingDigits cs = []) (htail : Renumbered cs es) :
      Renumbered ('$' :: (m ++ cs)) ('$' :: (n ++ es))

namespace Renumbered

variable {cs es : List Char}

theorem refl (cs : List Char) : Renumbered cs cs := by
  induction cs with
  | nil => exact .nil
  | cons c cs ih => exact .cons c ih

theorem leadingDigits_eq (h : Renumbered cs es) : leadingDigits cs = leadingDigits es := by
  induction h with
  | nil => rfl
  | cons c _ ih => rw [leadingDigits_cons, leadingDigits_cons, ih]
  | numeral => simp [leadingDigits_cons]

theorem head?_eq (h : Renumbered cs es) : cs.head? = es.head? := by
  cases h <;> rfl

/-- The seam between renumbered texts does not lie in a numeral. -/
theorem append {fs gs : List Char} (h : Renumbered cs es) (hbehind : Renumbered fs gs)
    (hstop : leadingDigits fs = []) : Renumbered (cs ++ fs) (es ++ gs) := by
  induction h with
  | nil => exact hbehind
  | cons c _ ih => exact .cons c ih
  | @numeral m n cs es hm hn hend _ ih =>
      have hstop' : leadingDigits (cs ++ fs) = [] := by
        cases cs with
        | nil => exact hstop
        | cons c cs => simpa [leadingDigits_cons] using hend
      simp only [List.cons_append, List.append_assoc]
      exact .numeral hm hn hstop' ih

/-- The text before a renumbered one can be anything. -/
theorem append_left (cs : List Char) {fs gs : List Char} (h : Renumbered fs gs) :
    Renumbered (cs ++ fs) (cs ++ gs) := by
  induction cs with
  | nil => exact h
  | cons c cs ih => exact .cons c ih

/-! ## Equally many markers -/

theorem step_dollar (r : Region) (next : Option Char) : r.step '$' next = r.step '$' none := by
  cases r <;> simp [Region.step, isQuote]

/-- Digits do not lead out of a region that a dollar sign leads to. -/
theorem steady_step_dollar {r : Region} (h : r.Fits (some '$')) : (r.step '$' none).1.Steady := by
  intro c hc next
  have hne : ∀ d, d.isDigit = false → c ≠ d := by
    rintro d hd rfl
    exact absurd hc (by simp [hd])
  cases r with
  | code => exact Region.steady_code c hc next
  | quoted q =>
      -- a quote is neither the dollar sign nor a digit
      have hquote : isQuote q = true := h
      have hq : q = '\'' ∨ q = '"' := by simpa [isQuote] using hquote
      rcases hq with rfl | rfl
      · simp [Region.step, hne '\'' (by decide)]
      · simp [Region.step, hne '"' (by decide)]
  | lineComment => simp [Region.step, hne '\n' (by decide)]
  | blockOpening => simp [Region.step, hne '*' (by decide)]
  | blockComment => simp [Region.step, hne '*' (by decide)]
  | blockClosing => exact Region.steady_code c hc next

/-- A dollar sign in front of a numeral adds one number in code and behind no word, and
none elsewhere. -/
theorem length_numbersFrom_numeral {r : Region} (hfits : r.Fits (some '$')) (word : Bool)
    {m : List Char} (hm : Numeral m) (hstop : leadingDigits cs = []) :
    (numbersFrom r word ('$' :: (m ++ cs))).length =
      (if r = .code ∧ word = false then 1 else 0) +
        (numbersFrom (r.step '$' none).1 true cs).length := by
  have hmarker : StartsMarker r word '$' (m ++ cs) ↔ r = .code ∧ word = false := by
    rw [StartsMarker, leadingDigits_append hm.digits hstop]
    exact ⟨fun h => ⟨h.1, h.2.1⟩, fun h => ⟨h.1, h.2, rfl, hm.ne_nil, hm.bound⟩⟩
  have hrest := numbersFrom_digits (steady_step_dollar hfits) hm.digits (isWordChar '$') cs
  rw [if_neg hm.ne_nil] at hrest
  split
  · rename_i h
    rw [numbersFrom_marker (hmarker.mpr h), step_dollar, hrest, List.length_cons, Nat.add_comm]
  · rename_i h
    rw [numbersFrom_glyph (hmarker.not.mpr h), step_dollar, hrest, Nat.zero_add]

/-- Renumbered texts have equally many markers, wherever the reader stands before them. -/
theorem length_numbersFrom (h : Renumbered cs es) {r : Region} (hfits : r.Fits cs.head?)
    (word : Bool) : (numbersFrom r word cs).length = (numbersFrom r word es).length := by
  induction h generalizing r word with
  | nil => rfl
  | @cons c cs es htail ih =>
      have hrest := ih (hfits.step cs.head?) (isWordChar c)
      have hmarker : StartsMarker r word c cs ↔ StartsMarker r word c es := by
        rw [StartsMarker, StartsMarker, htail.leadingDigits_eq]
      by_cases hstarts : StartsMarker r word c cs
      · rw [numbersFrom_marker hstarts, numbersFrom_marker (hmarker.mp hstarts),
          ← htail.head?_eq, List.length_cons, List.length_cons, hrest]
      · rw [numbersFrom_glyph hstarts, numbersFrom_glyph (hmarker.not.mp hstarts),
          ← htail.head?_eq, hrest]
  | @numeral m n cs es hm hn hstop htail ih =>
      have hstop' := hstop
      rw [htail.leadingDigits_eq] at hstop'
      have hnext : (r.step '$' none).1.Fits cs.head? := by
        rw [← step_dollar r cs.head?]
        exact Region.Fits.step hfits cs.head?
      rw [length_numbersFrom_numeral hfits word hm hstop,
        length_numbersFrom_numeral hfits word hn hstop', ih hnext true]

end Renumbered

/-! ## Rebased texts -/

theorem Cut.renumbered {r : Region} {word : Bool} {cs : List Char} {ls : List Lexeme}
    (h : Cut r word cs ls) (offset : Nat) : Renumbered cs (shiftedChars offset ls) := by
  induction h with
  | nil => exact .nil
  | marker hne hdigits hbound hstop _ ih =>
      exact .numeral ⟨hne, hdigits, hbound⟩ (numeral_digits (wrapIndex_lt _)) hstop ih
  | glyph hno _ ih => exact .cons _ ih

/-- A rebased text is a renumbered one. -/
theorem renumbered_rebase (sql : String) (offset : Nat) :
    Renumbered sql.toList (rebase sql offset).toList := by
  by_cases hoffset : offset = 0
  · rw [hoffset, rebase_zero]
    exact .refl _
  · rw [toList_rebase hoffset]
    exact (cut_lexemes sql.toList).renumbered offset

end BoundSql.Lexical
