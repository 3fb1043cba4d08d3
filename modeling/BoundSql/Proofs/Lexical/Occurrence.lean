import BoundSql.Proofs.Lexical.Renumber

/-!
# Where markers stand

Markers are found by a reader that passes over the digits of every marker it has found.
`mem_numberedMarkers_iff` says the same of one place at a time, without the reader: a marker
is found just where a dollar sign of code stands behind no word and in front of digits that
spell an index, and it takes all of these digits.

The reader comes to each such place because nothing in a marker can be the beginning of
another: digits are no dollar signs (`exists_of_digits_append`), and behind them a word has
begun.
-/

namespace BoundSql.Lexical

/-- The marker with the digits `ds` that starts at byte `pos`. -/
def markerAt (pos : Nat) (ds : List Char) : Marker :=
  ⟨⟨pos, pos + byteSize ('$' :: ds)⟩, Text.natOfDigits ds⟩

/-- Glyphs between which a dollar sign with the digits `ds` is a marker, if the glyphs
themselves stand behind a word or not. -/
structure Surrounds (word : Bool) (front : List Glyph) (ds : List Char) (back : List Glyph) :
    Prop where
  noWord : wordAfter word front = false
  numeral : Numeral ds
  stops : ¬ StartsInDigit back

/-! ## Digits in a list of glyphs -/

/-- In code a text starts with a digit of code just if it starts with a digit. -/
theorem not_startsInDigit_iff (cs : List Char) :
    ¬ StartsInDigit (glyphs cs) ↔ leadingDigits cs = [] := by
  rw [leadingDigits_eq_nil_iff]
  constructor
  · intro h c hc
    cases cs with
    | nil => cases hc
    | cons d cs =>
        obtain rfl : d = c := Option.some.inj hc
        rw [← Bool.not_eq_true]
        intro hdigit
        refine h ⟨⟨d, true⟩, ?_, rfl, hdigit⟩
        rw [glyphs, glyphsFrom_cons, step_code_of_isDigit hdigit]
        rfl
  · intro h hstarts
    obtain ⟨c, hc, hdigit⟩ := startsInDigit_glyphs hstarts
    rw [h c hc] at hdigit
    cases hdigit

/-- A run of digits of code is followed by what a reader in code finds. -/
theorem leadingDigits_of_glyphs {cs ds : List Char} {back : List Glyph}
    (hdigits : ∀ c ∈ ds, c.isDigit = true) (hstops : ¬ StartsInDigit back)
    (heq : glyphs cs = (ds.map fun c => ⟨c, true⟩) ++ back) : leadingDigits cs = ds := by
  have hchars := congrArg (List.map Glyph.char) heq
  simp only [glyphs, map_char_glyphsFrom, List.map_append, List.map_map, Function.comp_def,
    List.map_id'] at hchars
  have hback : back = glyphs (back.map Glyph.char) := by
    have hread := glyphsFrom_digits hdigits (back.map Glyph.char)
    rw [← hchars] at hread
    exact List.append_cancel_left (heq.symm.trans hread)
  rw [hback, not_startsInDigit_iff] at hstops
  rw [hchars]
  exact leadingDigits_append hdigits hstops

/-- A dollar sign behind digits stands behind all of them. -/
theorem exists_of_digits_append {ds es : List Char} {gs front back : List Glyph}
    (hdigits : ∀ c ∈ ds, c.isDigit = true)
    (heq : (ds.map fun c => ⟨c, true⟩) ++ gs = front ++ (dollarGlyphs es ++ back)) :
    ∃ rest, front = (ds.map fun c => ⟨c, true⟩) ++ rest ∧
      gs = rest ++ (dollarGlyphs es ++ back) := by
  rcases List.append_eq_append_iff.mp heq with ⟨rest, hfront, hgs⟩ | ⟨rest, hds, hdollar⟩
  · exact ⟨rest, hfront, hgs⟩
  · cases rest with
    | nil => exact ⟨[], by simpa using hds.symm, by simpa using hdollar.symm⟩
    | cons g rest =>
        -- the dollar sign would be one of the digits
        have hg : g = ⟨'$', true⟩ := (List.cons.inj hdollar).1.symm
        have hmem : g ∈ ds.map fun c => (⟨c, true⟩ : Glyph) := by simp [hds]
        obtain ⟨c, hc, rfl⟩ := List.mem_map.mp hmem
        exact absurd (congrArg Glyph.char hg) (ne_dollar_of_isDigit (hdigits c hc))

/-- Digits are a word before what follows them. -/
theorem wordAfter_digits {ds : List Char} (hdigits : ∀ c ∈ ds, c.isDigit = true) (word : Bool)
    (gs : List Glyph) :
    wordAfter word ((ds.map fun c => ⟨c, true⟩) ++ gs) =
      wordAfter (if ds = [] then word else true) gs := by
  induction ds generalizing word with
  | nil => rfl
  | cons c ds ih =>
      have hc := isWordChar_of_isDigit (hdigits c (by simp))
      rw [List.map_cons, List.cons_append, wordAfter_cons, hc,
        ih fun d hd => hdigits d (by simp [hd])]
      simp

/-! ## What stands around a marker -/

/-- A marker at the start of a text behind no word. -/
theorem surrounds_nil {ds cs : List Char} (hnumeral : Numeral ds)
    (hstop : leadingDigits cs = []) : Surrounds false [] ds (glyphs cs) :=
  ⟨rfl, hnumeral, (not_startsInDigit_iff cs).mpr hstop⟩

theorem surrounds_cons_iff {word : Bool} {g : Glyph} {front back : List Glyph} {ds : List Char} :
    Surrounds word (g :: front) ds back ↔ Surrounds (isWordChar g.char) front ds back := by
  have hword := wordAfter_cons word g front
  constructor
  · intro h
    exact { h with noWord := hword.symm.trans h.noWord }
  · intro h
    exact { h with noWord := hword.trans h.noWord }

/-- Behind a marker there is a word. -/
theorem surrounds_behind_iff {ds es : List Char} (h : Numeral ds) (word : Bool)
    {front back : List Glyph} :
    Surrounds word (dollarGlyphs ds ++ front) es back ↔ Surrounds true front es back := by
  have hword : wordAfter word (dollarGlyphs ds ++ front) = wordAfter true front := by
    rw [dollarGlyphs, List.cons_append, wordAfter_cons, wordAfter_digits h.digits,
      if_neg h.ne_nil]
  constructor
  · intro hbehind
    exact { hbehind with noWord := hword.symm.trans hbehind.noWord }
  · intro hbehind
    exact { hbehind with noWord := hword.trans hbehind.noWord }

/-- A character that starts no marker of the cut is not the dollar sign of one. -/
theorem startsMarker_of_surrounds {r : Region} {word : Bool} {c : Char} {cs ds : List Char}
    {back : List Glyph} (h : Surrounds word [] ds back)
    (heq : glyphsFrom r (c :: cs) = dollarGlyphs ds ++ back) : StartsMarker r word c cs := by
  rw [glyphsFrom_cons, dollarGlyphs, List.cons_append, List.cons.injEq, Glyph.mk.injEq] at heq
  obtain ⟨⟨rfl, hcode⟩, htail⟩ := heq
  obtain rfl : r = .code := by
    cases r <;> simp [Region.step] at hcode ⊢
  rw [step_code_dollar] at htail
  have hleading : leadingDigits cs = ds :=
    leadingDigits_of_glyphs h.numeral.digits h.stops htail
  refine ⟨rfl, h.noWord, rfl, ?_⟩
  rw [hleading]
  exact ⟨h.numeral.ne_nil, h.numeral.bound⟩

/-! ## Along the cut -/

/-- The markers among the lexemes of a text are those that its glyphs surround. -/
theorem Cut.mem_markersFrom_iff {r : Region} {word : Bool} {cs : List Char} {ls : List Lexeme}
    (h : Cut r word cs ls) (pos : Nat) (m : Marker) :
    m ∈ markersFrom pos ls ↔ ∃ front ds back,
      glyphsFrom r cs = front ++ (dollarGlyphs ds ++ back) ∧ Surrounds word front ds back ∧
        m = markerAt (pos + byteSize (front.map Glyph.char)) ds := by
  induction h generalizing pos with
  | nil r word =>
      constructor
      · intro hm
        cases hm
      · intro hplace
        obtain ⟨front, ds, back, heq, _⟩ := hplace
        simp [dollarGlyphs] at heq
  | @marker ds cs ls hne hdigits hbound hstop htail ih =>
      have hnumeral : Numeral ds := ⟨hne, hdigits, hbound⟩
      have hpos (front : List Glyph) :
          pos + byteSize ((dollarGlyphs ds ++ front).map Glyph.char) =
            pos + byteSize ('$' :: ds) + byteSize (front.map Glyph.char) := by
        rw [List.map_append, map_char_dollarGlyphs, byteSize_append, Nat.add_assoc]
      rw [glyphsFrom_dollar hdigits]
      constructor
      · intro hm
        rcases List.mem_cons.mp hm with rfl | hm
        · exact ⟨[], ds, glyphs cs, rfl, surrounds_nil hnumeral hstop, rfl⟩
        · obtain ⟨front, es, back, heq, hsurrounds, rfl⟩ := (ih _).mp hm
          exact ⟨dollarGlyphs ds ++ front, es, back, by rw [heq, List.append_assoc],
            (surrounds_behind_iff hnumeral false).mpr hsurrounds,
            congrArg (markerAt · es) (hpos front).symm⟩
      · intro hplace
        obtain ⟨front, es, back, heq, hsurrounds, hm⟩ := hplace
        subst hm
        cases front with
        | nil =>
            -- both take all the digits
            have hdollar := (List.cons.inj heq).2
            have hes : leadingDigits (ds ++ cs) = es :=
              leadingDigits_of_glyphs hsurrounds.numeral.digits hsurrounds.stops
                ((glyphsFrom_digits hdigits cs).trans hdollar)
            rw [leadingDigits_append hdigits hstop] at hes
            subst hes
            exact List.mem_cons_self ..
        | cons g front =>
            obtain ⟨rfl, hrest⟩ := List.cons.inj heq
            obtain ⟨rest, rfl, hcs⟩ := exists_of_digits_append hdigits hrest
            rw [← List.cons_append] at hsurrounds ⊢
            exact List.mem_cons_of_mem _ ((ih _).mpr ⟨rest, es, back, hcs,
              (surrounds_behind_iff hnumeral false).mp hsurrounds,
              congrArg (markerAt · es) (hpos rest)⟩)
  | @glyph r word c cs ls hno htail ih =>
      have hpos (front : List Glyph) :
          pos + byteSize ((⟨c, (r.step c cs.head?).2⟩ :: front : List Glyph).map Glyph.char) =
            pos + (Lexeme.glyph ⟨c, (r.step c cs.head?).2⟩).size +
              byteSize (front.map Glyph.char) := by
        simp [Lexeme.size, Lexeme.chars, byteSize, Nat.add_assoc]
      have hmarkers : markersFrom pos (.glyph ⟨c, (r.step c cs.head?).2⟩ :: ls) =
          markersFrom (pos + (Lexeme.glyph ⟨c, (r.step c cs.head?).2⟩).size) ls := rfl
      rw [hmarkers, ih]
      constructor
      · intro hplace
        obtain ⟨front, ds, back, heq, hsurrounds, hm⟩ := hplace
        refine ⟨⟨c, (r.step c cs.head?).2⟩ :: front, ds, back, ?_,
          surrounds_cons_iff.mpr hsurrounds, ?_⟩
        · rw [glyphsFrom_cons, heq]
          rfl
        · exact hm.trans (congrArg (markerAt · ds) (hpos front).symm)
      · intro hplace
        obtain ⟨front, ds, back, heq, hsurrounds, hm⟩ := hplace
        cases front with
        | nil => exact absurd (startsMarker_of_surrounds hsurrounds heq) hno
        | cons g front =>
            obtain ⟨rfl, hrest⟩ := List.cons.inj heq
            exact ⟨front, ds, back, hrest, surrounds_cons_iff.mp hsurrounds,
              hm.trans (congrArg (markerAt · ds) (hpos front))⟩

/-- A marker is found where a dollar sign of code stands behind no word and in front of
digits that spell an index, with all of these digits, and nowhere else. -/
theorem mem_numberedMarkers_iff (sql : String) (m : Marker) :
    m ∈ numberedMarkers sql ↔ ∃ front ds back,
      glyphs sql.toList = front ++ (dollarGlyphs ds ++ back) ∧ Surrounds false front ds back ∧
        m = markerAt (byteSize (front.map Glyph.char)) ds := by
  have h := (cut_lexemes sql.toList).mem_markersFrom_iff 0 m
  simp only [Nat.zero_add] at h
  exact h

end BoundSql.Lexical
