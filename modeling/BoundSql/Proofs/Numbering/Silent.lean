import BoundSql.Identifier
import BoundSql.Proofs.Numbering.Mark
import Mathlib.Data.List.Chain
import Mathlib.Data.List.Infix

/-!
# Silent texts

A text is **silent** for a marker style when it is closed and shows no marks of the
style. The fixed words of statements are silent for both styles, and so are
identifiers in double quotes, whatever they hold: the reader does not look inside
(`silent_quoted`).

The reader does not know backticks. An identifier between them is read as code,
so it is silent only if it holds no quote, no placeholder and no comment mark
(`Identifier.Transparent`).
-/

namespace BoundSql

open Lexical

namespace MarkerStyle

/-- A closed text without marks of the style. -/
structure Silent (style : MarkerStyle) (cs : List Char) : Prop where
  ends : EndsInCode cs
  marks : style.marks cs = []

instance (style : MarkerStyle) (cs : List Char) : Decidable (style.Silent cs) :=
  decidable_of_iff (EndsInCode cs ∧ style.marks cs = [])
    ⟨fun h => ⟨h.1, h.2⟩, fun h => ⟨h.ends, h.marks⟩⟩

theorem Silent.append_of_apart {style : MarkerStyle} {a b : List Char} (ha : style.Silent a)
    (hb : style.Silent b) (h : Apart a b) : style.Silent (a ++ b) := by
  refine ⟨ha.ends.append_of_apart hb.ends h, ?_⟩
  rw [style.marks_append_of_apart ha.ends h, ha.marks, hb.marks, List.append_nil]

/-! ## Marks and glyphs -/

/-- The glyph that every marker of a style starts with. -/
def opensMark : MarkerStyle → Glyph → Bool
  | .numbered, g => g.code && g.char == '$'
  | .positional, g => g.isPlaceholder

/-- Without a glyph that starts a marker there is no mark. -/
theorem marks_eq_nil {style : MarkerStyle} {cs : List Char}
    (h : ∀ g ∈ glyphs cs, style.opensMark g = false) : style.marks cs = [] := by
  rw [marks, List.filterMap_eq_nil_iff]
  intro l hl
  have hglyphs : ∀ g ∈ l.glyphs, style.opensMark g = false := by
    intro g hg
    refine h g ?_
    rw [← glyphs_lexemesFrom false (glyphs cs)]
    exact List.mem_flatMap.mpr ⟨l, hl, hg⟩
  cases style with
  | numbered =>
      cases l with
      | glyph g => rfl
      | marker digits index => exact absurd (hglyphs _ (List.mem_cons_self ..)) (by decide)
  | positional =>
      cases l with
      | glyph g =>
          have hg : g.isPlaceholder = false := hglyphs g (List.mem_singleton.mpr rfl)
          simp [mark?, hg]
      | marker digits index => rfl

/-! ## Runs of code -/

/-- Two neighbours that start no comment. -/
def Uncommented (c d : Char) : Prop :=
  ¬ (c = '-' ∧ d = '-') ∧ ¬ (c = '/' ∧ d = '*')

/-- Without quotes and comment marks a text is code throughout. -/
theorem glyphs_of_run {cs : List Char} (hquote : ∀ c ∈ cs, isQuote c = false)
    (hrun : cs.IsChain Uncommented) :
    glyphs cs = cs.map (fun c => ⟨c, true⟩) ∧ EndsInCode cs := by
  induction cs with
  | nil => exact ⟨rfl, rfl⟩
  | cons c cs ih =>
      obtain ⟨hnext, hrun⟩ := List.isChain_cons.mp hrun
      obtain ⟨hglyphs, hends⟩ := ih (fun d hd => hquote d (by simp [hd])) hrun
      have hstep : ∀ f, (∀ d ∈ f, Uncommented c d) → Region.step .code c f = (.code, true) := by
        intro f hf
        have hhyphen : ¬ (c = '-' ∧ f = some '-') := fun h => (hf _ h.2).1 ⟨h.1, rfl⟩
        have hslash : ¬ (c = '/' ∧ f = some '*') := fun h => (hf _ h.2).2 ⟨h.1, rfl⟩
        simp [Region.step, hquote c (by simp), hhyphen, hslash]
      constructor
      · rw [glyphs, glyphsFrom_cons, hstep _ hnext]
        exact congrArg _ hglyphs
      -- here the last character sees the space behind the text
      · rw [EndsInCode, regionAfter, hstep]
        · exact hends
        · cases cs with
          | nil =>
              rintro d ⟨⟩
              exact ⟨by simp, by simp⟩
          | cons d ds => exact hnext

/-- A character without a part in quotes, comments or markers. -/
def isPlain (c : Char) : Bool :=
  !isQuote c && !(['-', '/', '$', '?'].contains c)

/-- A text of plain characters is silent for every style. -/
theorem silent_of_plain (style : MarkerStyle) {cs : List Char}
    (h : ∀ c ∈ cs, isPlain c = true) : style.Silent cs := by
  have hplain : ∀ c ∈ cs, isQuote c = false ∧ c ≠ '-' ∧ c ≠ '/' ∧ c ≠ '$' ∧ c ≠ '?' := by
    intro c hc
    simpa [isPlain] using h c hc
  have hrun : cs.IsChain Uncommented := by
    refine (List.isChain_isInfix cs).imp fun c d hcd => ?_
    have hc := hplain c (hcd.subset (by simp))
    exact ⟨fun h => hc.2.1 h.1, fun h => hc.2.2.1 h.1⟩
  obtain ⟨hglyphs, hends⟩ := glyphs_of_run (fun c hc => (hplain c hc).1) hrun
  refine ⟨hends, marks_eq_nil fun g hg => ?_⟩
  rw [hglyphs] at hg
  obtain ⟨c, hc, rfl⟩ := List.mem_map.mp hg
  obtain ⟨-, -, -, hdollar, hask⟩ := hplain c hc
  cases style with
  | numbered => simp [opensMark, hdollar]
  | positional => simp [opensMark, Glyph.isPlaceholder, hask]

/-- The digits of a number are plain. -/
theorem isPlain_of_isDigit {c : Char} (h : c.isDigit = true) : isPlain c = true := by
  cases hp : isPlain c with
  | true => rfl
  | false =>
      have hcases : c = '\'' ∨ c = '"' ∨ c = '-' ∨ c = '/' ∨ c = '$' ∨ c = '?' := by
        simp only [isPlain, isQuote, Bool.and_eq_false_iff, Bool.not_eq_false',
          Bool.or_eq_true, beq_iff_eq, List.contains_eq_mem, List.mem_cons, List.not_mem_nil,
          or_false, decide_eq_true_eq] at hp
        tauto
      rcases hcases with rfl | rfl | rfl | rfl | rfl | rfl <;> exact absurd h (by decide)

end MarkerStyle

/-! ## Identifiers between double quotes -/

namespace Identifier

open MarkerStyle

/-- The reader stays in quoted text through a doubled identifier. -/
theorem glyphsFrom_double {q : Char} (hq : isQuote q = true) (cs rest : List Char) :
    glyphsFrom (.quoted q) (double q cs ++ rest) =
      (double q cs).map (fun c => ⟨c, false⟩) ++ glyphsFrom (.quoted q) rest := by
  induction cs with
  | nil => rfl
  | cons c cs ih =>
      by_cases hc : c = q
      · simp [double, hc, Region.step, hq, ih]
      · simp [double, hc, Region.step, ih]

theorem regionAfter_double {q : Char} (hq : isQuote q = true) (f : Option Char)
    (cs rest : List Char) :
    regionAfter (.quoted q) f (double q cs ++ rest) = regionAfter (.quoted q) f rest := by
  induction cs with
  | nil => rfl
  | cons c cs ih =>
      by_cases hc : c = q
      · simp [double, hc, regionAfter, Region.step, hq, ih]
      · simp [double, hc, regionAfter, Region.step, ih]

/-- Nothing of an identifier between quotes is code. -/
theorem glyphs_quoteWith {q : Char} (hq : isQuote q = true) (name : String) :
    ∀ g ∈ glyphs (quoteWith q name).toList, g.code = false := by
  have hstep : ∀ f, Region.step .code q f = (.quoted q, false) := by
    intro f
    simp [Region.step, hq]
  intro g hg
  rw [toList_quoteWith, glyphs, List.cons_append, glyphsFrom_cons, hstep,
    glyphsFrom_double hq] at hg
  simp only [List.mem_cons, List.mem_append, List.mem_map] at hg
  rcases hg with rfl | ⟨c, -, rfl⟩ | hg
  · rfl
  · rfl
  · simp only [glyphsFrom_cons, glyphsFrom_nil, List.mem_singleton] at hg
    rw [hg]
    rfl

theorem endsInCode_quoteWith {q : Char} (hq : isQuote q = true) (name : String) :
    EndsInCode (quoteWith q name).toList := by
  have hstep : ∀ f, Region.step .code q f = (.quoted q, false) := by
    intro f
    simp [Region.step, hq]
  rw [EndsInCode, toList_quoteWith, List.cons_append, regionAfter, hstep, regionAfter_double hq]
  simp [regionAfter, Region.step]

theorem silent_quoteWith {q : Char} (hq : isQuote q = true) (style : MarkerStyle)
    (name : String) : style.Silent (quoteWith q name).toList := by
  refine ⟨endsInCode_quoteWith hq name, marks_eq_nil fun g hg => ?_⟩
  have hcode := glyphs_quoteWith hq name g hg
  cases style with
  | numbered => simp [opensMark, hcode]
  | positional => simp [opensMark, Glyph.isPlaceholder, hcode]

/-! ## Identifiers between backticks -/

/-- An identifier that the reader passes as code without a quote, a placeholder
or a comment. -/
structure Transparent (name : String) : Prop where
  noQuote : '\'' ∉ name.toList ∧ '"' ∉ name.toList
  noPlaceholder : '?' ∉ name.toList
  noLineComment : ¬ ['-', '-'] <:+: name.toList
  noBlockComment : ¬ ['/', '*'] <:+: name.toList

instance (name : String) : Decidable (Transparent name) :=
  decidable_of_iff (('\'' ∉ name.toList ∧ '"' ∉ name.toList) ∧ '?' ∉ name.toList ∧
      ¬ ['-', '-'] <:+: name.toList ∧ ¬ ['/', '*'] <:+: name.toList)
    ⟨fun h => ⟨h.1, h.2.1, h.2.2.1, h.2.2.2⟩,
      fun h => ⟨h.noQuote, h.noPlaceholder, h.noLineComment, h.noBlockComment⟩⟩

theorem head?_double (q : Char) (cs : List Char) : (double q cs).head? = cs.head? := by
  cases cs with
  | nil => rfl
  | cons c cs => by_cases hc : c = q <;> simp [double, hc]

theorem mem_double {q c : Char} {cs : List Char} (h : c ∈ double q cs) : c ∈ cs := by
  induction cs with
  | nil => exact h
  | cons d cs ih =>
      by_cases hd : d = q
      · simp only [double, hd, if_true, List.mem_cons] at h ⊢
        tauto
      · simp only [double, hd, if_false, List.mem_cons] at h ⊢
        tauto

/-- Doubling a character that starts and ends no comment mark makes no comment. -/
theorem isChain_double {q : Char} (hq : ∀ c, Uncommented q c ∧ Uncommented c q)
    {cs : List Char} (h : cs.IsChain Uncommented) : (double q cs).IsChain Uncommented := by
  induction cs with
  | nil => exact List.isChain_nil
  | cons c cs ih =>
      obtain ⟨hnext, hrun⟩ := List.isChain_cons.mp h
      have hdouble : (c :: double q cs).IsChain Uncommented := by
        rw [List.isChain_cons, head?_double]
        exact ⟨hnext, ih hrun⟩
      by_cases hc : c = q
      · simp only [double, hc, if_true] at hdouble ⊢
        exact List.isChain_cons.mpr ⟨fun d _ => (hq d).1, hdouble⟩
      · simpa only [double, hc, if_false] using hdouble

theorem silent_backticks {name : String} (h : Transparent name) :
    MarkerStyle.positional.Silent (quoteWith '\x60' name).toList := by
  have htick : ∀ c, Uncommented '\x60' c ∧ Uncommented c '\x60' := by
    intro c
    simp [Uncommented]
  have hname : name.toList.IsChain Uncommented := by
    refine (List.isChain_isInfix name.toList).imp fun c d hcd => ⟨?_, ?_⟩
    · rintro ⟨rfl, rfl⟩
      exact h.noLineComment hcd
    · rintro ⟨rfl, rfl⟩
      exact h.noBlockComment hcd
  -- backticks are no part of a comment mark, so neither are they next to the identifier
  have hrun : (quoteWith '\x60' name).toList.IsChain Uncommented := by
    rw [toList_quoteWith, List.isChain_append, List.isChain_cons]
    refine ⟨⟨fun d _ => (htick d).1, isChain_double htick hname⟩, List.isChain_singleton _, ?_⟩
    rintro c - d ⟨⟩
    exact (htick c).2
  have hmem : ∀ c ∈ (quoteWith '\x60' name).toList, c = '\x60' ∨ c ∈ name.toList := by
    intro c hc
    rw [toList_quoteWith] at hc
    simp only [List.cons_append, List.mem_cons, List.mem_append, List.not_mem_nil,
      or_false] at hc
    rcases hc with rfl | hc | rfl
    · exact Or.inl rfl
    · exact Or.inr (mem_double hc)
    · exact Or.inl rfl
  have hquote : ∀ c ∈ (quoteWith '\x60' name).toList, isQuote c = false := by
    intro c hc
    rcases hmem c hc with rfl | hc
    · rfl
    · have hapostrophe : c ≠ '\'' := fun heq => h.noQuote.1 (heq ▸ hc)
      have hdouble : c ≠ '"' := fun heq => h.noQuote.2 (heq ▸ hc)
      simp [isQuote, hapostrophe, hdouble]
  obtain ⟨hglyphs, hends⟩ := glyphs_of_run hquote hrun
  refine ⟨hends, marks_eq_nil fun g hg => ?_⟩
  rw [hglyphs] at hg
  obtain ⟨c, hc, rfl⟩ := List.mem_map.mp hg
  have hask : c ≠ '?' := by
    rintro rfl
    rcases hmem _ hc with heq | hc
    · exact absurd heq (by decide)
    · exact h.noPlaceholder hc
  simp [opensMark, Glyph.isPlaceholder, hask]

/-! ## Identifiers of a backend -/

/-- An identifier that a backend writes without harm to the counting of markers.
Where identifiers stand between double quotes, all are. -/
def SafeFor (b : Backend) (name : String) : Prop :=
  b = .mysql → Transparent name

instance (b : Backend) (name : String) : Decidable (SafeFor b name) :=
  inferInstanceAs (Decidable (b = .mysql → Transparent name))

theorem silent_quoted {b : Backend} {name : String} (h : SafeFor b name) :
    b.markerStyle.Silent (quoted b name).toList := by
  cases b with
  | postgresql => exact silent_quoteWith (by decide) _ name
  | mysql => exact silent_backticks (h rfl)
  | sqlite => exact silent_quoteWith (by decide) _ name

/-- A written identifier starts and ends in a quote character. -/
theorem isSeparator_quoteChar (b : Backend) : isSeparator b.quoteChar = true := by
  cases b <;> decide

theorem getLast?_quoted (b : Backend) (name : String) :
    (quoted b name).toList.getLast? = some b.quoteChar := by
  rw [quoted, toList_quoteWith, List.getLast?_append]
  rfl

end Identifier

end BoundSql
