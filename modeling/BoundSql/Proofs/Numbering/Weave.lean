import BoundSql.Sql.Statement
import BoundSql.Proofs.Numbering.Tidy

/-!
# Raw SQL with its markers

Raw SQL is cut at its placeholders, and a marker is written at each cut. `Woven`
says what such a cut is: each text but the last ends in code, where a placeholder
follows it, and no text holds a placeholder.

Placeholders are separators, so nothing can go wrong where markers are
placeholders. A numbered marker is not: it joins a word before it, and takes in
digits behind it. `RawSql.Isolated` excludes both, and then the pieces of raw SQL
are tidy (`RawSql.tidy_pieces`).
-/

namespace BoundSql

open Lexical

namespace Lexical

/-! ## The cut at placeholders -/

/-- A text and its parts between placeholders. -/
inductive Woven : List Char → List (List Char) → Prop
  | last {text : List Char} (hno : ∀ g ∈ glyphs text, g.isPlaceholder = false) :
      Woven text [text]
  | cons {text rest : List Char} {texts : List (List Char)} (hends : EndsInCode text)
      (hno : ∀ g ∈ glyphs text, g.isPlaceholder = false) (htail : Woven rest texts) :
      Woven (text ++ '?' :: rest) (text :: texts)

theorem splitPlaceholders_cons (g : Glyph) (gs : List Glyph) :
    ∃ text texts, splitPlaceholders gs = text :: texts ∧
      splitPlaceholders (g :: gs) =
        if g.isPlaceholder then [] :: text :: texts else (g.char :: text) :: texts := by
  have hlength := length_splitPlaceholders gs
  cases hsplit : splitPlaceholders gs with
  | nil => simp [hsplit] at hlength
  | cons text texts => exact ⟨text, texts, rfl, by simp only [splitPlaceholders, hsplit]⟩

/-- A character other than a comment mark in front of a text reads like a space. -/
theorem regionAfter_placeholder (r : Region) (cs : List Char) :
    regionAfter r (some '?') cs = regionAfter r (some ' ') cs := by
  induction cs generalizing r with
  | nil => rfl
  | cons c cs ih =>
      simp only [regionAfter, ih]
      cases cs with
      | nil => cases r <;> simp [Region.step]
      | cons d ds => rfl

/-- The first placeholder of a text, if there is one, and the texts around it. -/
theorem splitPlaceholders_cases (r : Region) (cs : List Char) :
    ((∀ g ∈ glyphsFrom r cs, g.isPlaceholder = false) ∧
        splitPlaceholders (glyphsFrom r cs) = [cs]) ∨
      ∃ text rest, cs = text ++ '?' :: rest ∧ regionAfter r (some '?') text = .code ∧
        (∀ g ∈ glyphsBefore r (some '?') text, g.isPlaceholder = false) ∧
        splitPlaceholders (glyphsFrom r cs) = text :: splitPlaceholders (glyphs rest) := by
  induction cs generalizing r with
  | nil => exact Or.inl ⟨by simp, rfl⟩
  | cons c cs ih =>
      obtain ⟨head, texts, htail, hsplit⟩ :=
        splitPlaceholders_cons ⟨c, (r.step c cs.head?).2⟩ (glyphsFrom (r.step c cs.head?).1 cs)
      rw [glyphsFrom_cons, hsplit]
      by_cases hg : (⟨c, (r.step c cs.head?).2⟩ : Glyph).isPlaceholder = true
      · right
        -- the text before a placeholder at the start is empty, and the reader is in code
        simp only [Glyph.isPlaceholder, Bool.and_eq_true, beq_iff_eq] at hg
        obtain ⟨hcode, rfl⟩ := hg
        have hr : r = .code := by
          cases r <;> simp [Region.step] at hcode ⊢
        subst hr
        refine ⟨[], cs, rfl, rfl, by simp [glyphsBefore], ?_⟩
        rw [if_pos (by simp [Glyph.isPlaceholder, hcode]), ← htail]
        simp [Region.step, isQuote, glyphs]
      · rw [if_neg hg]
        rcases ih (r.step c cs.head?).1 with ⟨hno, hone⟩ | ⟨text, rest, rfl, hends, hno, hrest⟩
        · left
          rw [htail] at hone
          obtain ⟨rfl, rfl⟩ := List.cons.inj hone
          refine ⟨?_, rfl⟩
          intro g hmem
          rcases List.mem_cons.mp hmem with rfl | hmem
          · simpa using hg
          · exact hno g hmem
        · right
          -- the first character sees the placeholder exactly if the text behind it is empty
          have hhead : (text ++ '?' :: rest).head? = text.head?.or (some '?') := by
            cases text <;> rfl
          rw [htail] at hrest
          obtain ⟨rfl, rfl⟩ := List.cons.inj hrest
          refine ⟨c :: head, rest, rfl, ?_, ?_, rfl⟩
          · rw [regionAfter, ← hhead]
            exact hends
          · intro g hmem
            simp only [glyphsBefore, ← hhead] at hmem
            rcases List.mem_cons.mp hmem with rfl | hmem
            · simpa using hg
            · exact hno g hmem

theorem woven_splitPlaceholders (cs : List Char) : Woven cs (splitPlaceholders (glyphs cs)) := by
  -- each step goes on behind the next placeholder, hence the induction on the length
  induction hn : cs.length using Nat.strongRecOn generalizing cs with
  | ind n ih =>
      rcases splitPlaceholders_cases .code cs with ⟨hno, hone⟩ | ⟨text, rest, rfl, hr, hno, hcons⟩
      · rw [glyphs, hone]
        exact .last hno
      · have hends : EndsInCode text := by
          rw [EndsInCode, ← regionAfter_placeholder]
          exact hr
        have hglyphs := (glyphsBefore_of_ends (f := some '?') hends (by simp [Quiet])).1
        rw [hglyphs] at hno
        rw [glyphs, hcons]
        refine .cons hends hno (ih rest.length ?_ rest rfl)
        rw [← hn]
        simp only [List.length_append, List.length_cons]
        omega

/-- What comes behind a placeholder decides whether a text is closed. -/
theorem endsInCode_placeholder {text rest : List Char} (h : EndsInCode text) :
    EndsInCode (text ++ '?' :: rest) ↔ EndsInCode rest := by
  have hregion : regionAfter .code (some '?') text = .code := by
    rw [regionAfter_placeholder]
    exact h
  rw [EndsInCode, regionAfter_append, List.head?_cons, Option.some_or, hregion, regionAfter,
    EndsInCode]
  simp [Region.step, isQuote]

theorem glyphs_placeholder {text : List Char} (h : EndsInCode text) (rest : List Char) :
    glyphs (text ++ '?' :: rest) = glyphs text ++ ⟨'?', true⟩ :: glyphs rest := by
  rw [glyphs_append h (by intro c _; simp)]
  simp [glyphs, Region.step, isQuote]

/-- A text that does not start with a placeholder has something before its first
one. -/
theorem ne_nil_of_head {text rest : List Char} (h : EndsInCode text)
    (hno : ∀ g ∈ (glyphs (text ++ '?' :: rest)).head?, g.isPlaceholder = false) :
    text ≠ [] := by
  rintro rfl
  rw [glyphs_placeholder h] at hno
  exact absurd (hno _ rfl) (by decide)

theorem lexemes_placeholder {text : List Char} (h : EndsInCode text) (rest : List Char) :
    lexemes (text ++ '?' :: rest) = lexemes text ++ .glyph ⟨'?', true⟩ :: lexemes rest := by
  rw [lexemes_append_of_apart h (Or.inr (by rintro c ⟨⟩; rfl))]
  have hends : EndsInCode ['?'] := rfl
  have hrest := lexemes_append_of_apart (b := rest) hends (Or.inl (by rintro c ⟨⟩; rfl))
  rw [show '?' :: rest = ['?'] ++ rest from rfl, hrest]
  rfl

/-- The markers of a woven text are those of its parts. -/
theorem Woven.marks_numbered {cs : List Char} {texts : List (List Char)} (h : Woven cs texts) :
    MarkerStyle.numbered.marks cs = texts.flatMap MarkerStyle.numbered.marks := by
  induction h with
  | last hno => simp
  | cons hends hno htail ih =>
      rw [MarkerStyle.marks, lexemes_placeholder hends, List.filterMap_append,
        List.flatMap_cons, ← ih]
      rfl

theorem Woven.marks_positional {cs : List Char} {texts : List (List Char)} (h : Woven cs texts) :
    ∀ text ∈ texts, MarkerStyle.positional.marks text = [] := by
  induction h with
  | last hno =>
      intro text hmem
      rw [List.mem_singleton.mp hmem]
      exact MarkerStyle.marks_eq_nil hno
  | cons hends hno htail ih =>
      intro text hmem
      rcases List.mem_cons.mp hmem with rfl | hmem
      · exact MarkerStyle.marks_eq_nil hno
      · exact ih text hmem

/-! ## A marker between two texts -/

/-- A marker is made of characters that start and end no comment mark. -/
theorem mem_marker {style : MarkerStyle} {index : Nat} {c : Char}
    (h : c ∈ (style.marker index).toList) : c ≠ '-' ∧ c ≠ '/' ∧ c ≠ '*' := by
  cases style with
  | positional =>
      obtain rfl : c = '?' := by simpa [MarkerStyle.marker] using h
      decide
  | numbered =>
      rw [MarkerStyle.marker, String.toList_ofList, List.mem_cons] at h
      rcases h with rfl | h
      · decide
      · have hdigit := isDigit_digits _ c h
        refine ⟨?_, ?_, ?_⟩ <;> rintro rfl <;> exact absurd hdigit (by decide)

theorem head?_marker_append (style : MarkerStyle) (index : Nat) (cs : List Char) :
    ((style.marker index).toList ++ cs).head? =
      some (match style with | .numbered => '$' | .positional => '?') := by
  cases style with
  | numbered =>
      rw [MarkerStyle.marker, String.toList_ofList]
      rfl
  | positional =>
      rw [MarkerStyle.marker, show "?".toList = ['?'] from rfl]
      rfl

theorem calm_append_marker (style : MarkerStyle) (index : Nat) (a cs : List Char) :
    Calm a ((style.marker index).toList ++ cs) := by
  intro c _
  rw [head?_marker_append]
  cases style <;> simp

theorem calm_marker_append (style : MarkerStyle) (index : Nat) (cs : List Char) :
    Calm (style.marker index).toList cs := by
  intro c hc
  obtain ⟨hhyphen, hslash, -⟩ := mem_marker (List.mem_of_getLast? hc)
  exact ⟨fun h => hhyphen h.1, fun h => hslash h.1⟩

theorem endsInCode_around_marker (style : MarkerStyle) (index : Nat) {a cs : List Char}
    (ha : EndsInCode a) (hcs : EndsInCode cs) :
    EndsInCode (a ++ ((style.marker index).toList ++ cs)) :=
  ha.append ((MarkerStyle.endsInCode_marker style index).append hcs
    (calm_marker_append style index cs)) (calm_append_marker style index a cs)

/-- A marker does not join what stands before it, unless it is numbered and stands
behind a word. -/
theorem lexemes_append_marker (style : MarkerStyle) (index : Nat) {a : List Char}
    (cs : List Char) (ha : EndsInCode a)
    (hlast : style = .numbered → ∀ c ∈ a.getLast?, isWordChar c = false) :
    lexemes (a ++ ((style.marker index).toList ++ cs)) =
      lexemes a ++ lexemes ((style.marker index).toList ++ cs) := by
  have hhead := head?_marker_append style index cs
  refine lexemes_append ha (calm_append_marker style index a cs).quiet ?_ ?_
  · cases style with
    | numbered =>
        have hword : wordAfter false (glyphs a) = false := by
          rw [wordAfter_glyphs]
          cases hc : a.getLast? with
          | none => rfl
          | some c => exact hlast rfl c hc
        rw [hword]
        rfl
    | positional =>
        refine lexemesFrom_of_isSeparator fun c hc => ?_
        rw [hhead] at hc
        rw [← Option.some.inj hc]
        decide
  · intro hdigit
    -- neither kind of marker starts with a digit
    obtain ⟨c, hc, hd⟩ := startsInDigit_glyphs hdigit
    rw [hhead] at hc
    rw [← Option.some.inj hc] at hd
    cases style <;> exact absurd hd (by decide)

/-- A marker does not join what stands behind it, unless it is numbered and digits
or another numbered marker come next. -/
theorem lexemes_marker_append (style : MarkerStyle) (index : Nat) {cs : List Char}
    (hdigit : style = .numbered → ∀ c ∈ cs.head?, c.isDigit = false)
    (hhead : style = .numbered → ∀ l ∈ (lexemes cs).head?, l.index? = none) :
    lexemes ((style.marker index).toList ++ cs) =
      lexemes (style.marker index).toList ++ lexemes cs := by
  have hends := MarkerStyle.endsInCode_marker style index
  cases style with
  | positional =>
      refine lexemes_append_of_apart hends (Or.inl fun c hc => ?_)
      obtain rfl : c = '?' := by simpa [MarkerStyle.marker, eq_comm] using hc
      decide
  | numbered =>
      refine lexemes_append hends (calm_marker_append _ index cs).quiet ?_ ?_
      · cases wordAfter false (glyphs (MarkerStyle.numbered.marker index).toList) with
        | false => rfl
        | true => exact lexemesFrom_true_of_head (hhead rfl)
      · intro hstart
        obtain ⟨c, hc, hd⟩ := startsInDigit_glyphs hstart
        rw [hdigit rfl c hc] at hd
        exact absurd hd Bool.false_ne_true

/-! ## Isolated placeholders -/

/-- Neighbours neither of which spoils a numbered marker in the place of the other:
no placeholder stands behind a word or a placeholder, and none before a digit. -/
def Placed (g h : Glyph) : Prop :=
  (h.isPlaceholder = true → isWordChar g.char = false ∧ g.char ≠ '?') ∧
    (g.isPlaceholder = true → h.char.isDigit = false)

instance (g h : Glyph) : Decidable (Placed g h) :=
  inferInstanceAs (Decidable ((h.isPlaceholder = true → isWordChar g.char = false ∧ g.char ≠ '?') ∧
    (g.isPlaceholder = true → h.char.isDigit = false)))

/-- Isolated placeholders come with isolated texts: what stands before and behind
the first one, and the placeholders of the rest. -/
theorem placed_cons {text rest : List Char} (hends : EndsInCode text)
    (h : (glyphs (text ++ '?' :: rest)).IsChain Placed) :
    (∀ c ∈ text.getLast?, isWordChar c = false) ∧
      (∀ g ∈ (glyphs rest).head?, g.isPlaceholder = false ∧ g.char.isDigit = false) ∧
      (glyphs rest).IsChain Placed := by
  rw [glyphs_placeholder hends, List.isChain_append, List.isChain_cons] at h
  obtain ⟨-, ⟨hnext, hrest⟩, hlast⟩ := h
  refine ⟨?_, ?_, hrest⟩
  · intro c hc
    rw [← getLast?_glyphs_char] at hc
    obtain ⟨g, hg, rfl⟩ := Option.map_eq_some_iff.mp hc
    exact ((hlast g hg _ rfl).1 rfl).1
  · intro g hg
    obtain ⟨hbehind, hbefore⟩ := hnext g hg
    refine ⟨?_, hbefore rfl⟩
    cases hp : g.isPlaceholder with
    | false => rfl
    | true => exact absurd rfl (hbehind hp).2

end Lexical

/-! ## The pieces of raw SQL -/

open Piece (written)

/-- Texts woven with binds start like the raw text, if it does not start with a
placeholder. -/
theorem Lexical.Woven.head?_written {cs : List Char} {texts : List (List Char)}
    (h : Woven cs texts) {values : List Bind} (hlength : texts.length = values.length + 1)
    (hno : ∀ g ∈ (glyphs cs).head?, g.isPlaceholder = false) (b : Backend) (count : Nat) :
    (written b count (weave texts values)).head? = cs.head? := by
  cases h with
  | last _ =>
      obtain rfl : values = [] := List.length_eq_zero_iff.mp (by simpa using hlength.symm)
      simp [weave, Piece.ownText]
  | @cons text rest texts hends _ htail =>
      obtain ⟨c, text, rfl⟩ := List.exists_cons_of_ne_nil (ne_nil_of_head hends hno)
      cases values <;> simp [weave, Piece.ownText]

/-- Texts woven with binds start with no marker, if the raw text does not start with
a placeholder. -/
theorem Lexical.Woven.index?_head {cs : List Char} {texts : List (List Char)} (h : Woven cs texts)
    {values : List Bind} (hlength : texts.length = values.length + 1)
    (hno : ∀ g ∈ (glyphs cs).head?, g.isPlaceholder = false)
    (hsilent : ∀ text ∈ texts, MarkerStyle.numbered.marks text = []) (b : Backend) (count : Nat) :
    ∀ l ∈ (Piece.lexemes b count (weave texts values)).head?, l.index? = none := by
  have hfirst : ∀ text ∈ texts, ∀ l ∈ lexemes text, l.index? = none := fun text htext =>
    MarkerStyle.index?_of_marks_eq_nil (hsilent text htext)
  cases h with
  | last _ =>
      obtain rfl : values = [] := List.length_eq_zero_iff.mp (by simpa using hlength.symm)
      intro l hl
      refine hfirst cs (by simp) l (List.mem_of_head? ?_)
      simpa [weave, Piece.lexemes, Piece.ownText] using hl
  | @cons text rest texts hends _ htail =>
      have hne : lexemes text ≠ [] := by
        intro hnil
        have hchars := chars_lexemes text
        rw [hnil] at hchars
        exact ne_nil_of_head hends hno hchars.symm
      obtain ⟨first, others, hlexemes⟩ := List.exists_cons_of_ne_nil hne
      intro l hl
      have hl' : l = first := by
        cases values <;> simpa [weave, Piece.lexemes, Piece.ownText, hlexemes, eq_comm] using hl
      rw [hl']
      exact hfirst text (by simp) first (by simp [hlexemes])

/-- Where a text goes on behind a placeholder, there is a value for the placeholder. -/
theorem Lexical.Woven.exists_cons {texts : List (List Char)} {rest text : List Char}
    {values : List Bind} (htail : Woven rest texts)
    (hlength : (text :: texts).length = values.length + 1) :
    ∃ value others, values = value :: others ∧ texts.length = others.length + 1 := by
  cases values with
  | nil =>
      have hempty : texts = [] := by simpa using hlength
      subst hempty
      cases htail
  | cons value others => exact ⟨value, others, rfl, by simpa using hlength⟩

/-- Texts woven with binds are tidy. -/
theorem Lexical.Woven.tidy_weave {b : Backend} {cs : List Char} {texts : List (List Char)}
    (h : Woven cs texts) {values : List Bind} (hlength : texts.length = values.length + 1)
    (hends : EndsInCode cs) (hsilent : ∀ text ∈ texts, b.markerStyle.marks text = [])
    (hplaced : b.markerStyle = .numbered → (glyphs cs).IsChain Placed) :
    Piece.Tidy b (weave texts values) := by
  induction h generalizing values with
  | @last text hno =>
      obtain rfl : values = [] := List.length_eq_zero_iff.mp (by simpa using hlength.symm)
      refine Piece.tidy_singleton (p := .text (String.ofList text)) ?_
      rw [Piece.Sound, String.toList_ofList]
      exact ⟨hends, hsilent text (by simp)⟩
  | @cons text rest texts htext hno htail ih =>
      obtain ⟨value, values, rfl, hlen⟩ := htail.exists_cons hlength
      have hrest : Piece.Tidy b (weave texts values) :=
        ih hlen ((endsInCode_placeholder htext).mp hends)
          (fun t ht => hsilent t (by simp [ht])) fun hstyle =>
            (placed_cons htext (hplaced hstyle)).2.2
      -- a numbered marker stands behind no word, and before no digit and no other marker
      have hbefore : b.markerStyle = .numbered → ∀ c ∈ text.getLast?, isWordChar c = false :=
        fun hstyle => (placed_cons htext (hplaced hstyle)).1
      have hdigit : b.markerStyle = .numbered → ∀ count, ∀ c ∈
          (written b count (weave texts values)).head?, c.isDigit = false := by
        intro hstyle count c hc
        have hnext := (placed_cons htext (hplaced hstyle)).2.1
        rw [htail.head?_written hlen (fun g hg => (hnext g hg).1), ← head?_glyphs_char] at hc
        obtain ⟨g, hg, rfl⟩ := Option.map_eq_some_iff.mp hc
        exact (hnext g hg).2
      have hindex : b.markerStyle = .numbered → ∀ count, ∀ l ∈
          (lexemes (written b count (weave texts values))).head?, l.index? = none := by
        intro hstyle count
        have hnext := (placed_cons htext (hplaced hstyle)).2.1
        rw [hrest.lexemes]
        refine htail.index?_head hlen (fun g hg => (hnext g hg).1) ?_ b count
        rw [hstyle] at hsilent
        exact fun t ht => hsilent t (by simp [ht])
      have hwritten : ∀ count, written b count (weave (text :: texts) (value :: values)) =
          text ++ ((b.markerStyle.marker (count + 1)).toList ++
            written b (count + 1) (weave texts values)) := by
        intro count
        simp [weave, Piece.ownText, Piece.ownBinds, Backend.marker]
      refine ⟨?_, fun count => ?_, fun count => ?_⟩
      · intro p hp
        simp only [weave, List.mem_cons] at hp
        rcases hp with rfl | rfl | hp
        · rw [Piece.Sound, String.toList_ofList]
          exact ⟨htext, hsilent text (by simp)⟩
        · trivial
        · exact hrest.sound p hp
      · rw [hwritten]
        exact endsInCode_around_marker _ _ htext (hrest.ends _)
      · rw [hwritten, lexemes_append_marker _ _ _ htext hbefore,
          lexemes_marker_append _ _ (fun hs => hdigit hs _) (fun hs => hindex hs _), hrest.lexemes]
        simp [weave, Piece.lexemes, Piece.ownText, Piece.ownBinds, Backend.marker]

namespace RawSql

/-- The texts of raw SQL are woven into its text. -/
theorem woven_texts (raw : RawSql) : Woven raw.sql.toList raw.texts :=
  woven_splitPlaceholders raw.sql.toList

/-- Neither style finds a marker in the texts between the placeholders: numbered
ones were refused, and placeholders have been cut out. -/
theorem marks_texts (raw : RawSql) (style : MarkerStyle) :
    ∀ text ∈ raw.texts, style.marks text = [] := by
  cases style with
  | positional => exact raw.woven_texts.marks_positional
  | numbered =>
      have hnone : MarkerStyle.numbered.marks raw.sql.toList = [] := by
        rw [MarkerStyle.marks_numbered, Compiled.markerIndices, raw.noMarkers]
        rfl
      rw [raw.woven_texts.marks_numbered] at hnone
      exact List.flatMap_eq_nil_iff.mp hnone

/-- No placeholder stands directly behind a letter, a digit, an underscore or a
question mark, nor directly before a digit. -/
def Isolated (raw : RawSql) : Prop :=
  (glyphs raw.sql.toList).IsChain Placed

instance (raw : RawSql) : Decidable raw.Isolated :=
  inferInstanceAs (Decidable ((glyphs raw.sql.toList).IsChain Placed))

/-- Raw SQL into which a backend can write its markers. -/
structure Admits (raw : RawSql) (b : Backend) : Prop where
  closed : Closed raw.sql
  isolated : b.markerStyle = .numbered → raw.Isolated

theorem tidy_pieces {raw : RawSql} {b : Backend} (h : raw.Admits b) :
    Piece.Tidy b raw.pieces :=
  raw.woven_texts.tidy_weave raw.length_texts ((closed_iff raw.sql).mp h.closed)
    (raw.marks_texts b.markerStyle) h.isolated

end RawSql

end BoundSql
