import BoundSql.Proofs.Lexical.Renumber
import BoundSql.Proofs.Numbering.Weave

/-!
# What the check of raw SQL ensures

Raw SQL is accepted when it has as many placeholders as binds and no numbered marker.
Where markers are numbered, a marker is then written in the place of each placeholder,
and what stands around it has not been looked at: behind a word the dollar sign belongs
to the word, and digits behind the placeholder are taken for digits of the number.

`RawSql.markers_alone` says when the markers are nevertheless `$1`, `$2` and so on: just
if the placeholders are isolated. The proof goes along the text. `numbersFrom_text_marker`
says what one written marker contributes, which is at most one number; so if all numbers
are there, none of the markers can have been lost or changed.
-/

namespace BoundSql

open Lexical

namespace Text

/-- Digits behind a number make it larger. -/
theorem natOfDigits_digits_append_eq {n : Nat} (hpos : 0 < n) {ds : List Char} :
    natOfDigits (digits n ++ ds) = n ↔ ds = [] := by
  constructor
  · intro h
    cases ds with
    | nil => rfl
    | cons d ds =>
        rw [natOfDigits, Nat.ofDigitChars_append, ← natOfDigits, natOfDigits_digits,
          Nat.ofDigitChars_eq_ofDigitChars_zero] at h
        -- one more digit makes the number ten times as large
        have hten : 10 ^ 1 ≤ 10 ^ (d :: ds).length := Nat.pow_le_pow_right (by omega) (by simp)
        have hlarge : 10 ^ 1 * n ≤ 10 ^ (d :: ds).length * n := Nat.mul_le_mul_right n hten
        omega
  · rintro rfl
    simp

end Text

namespace Lexical

/-! ## The numbers of markers -/

theorem markerIndices_eq_numbersFrom (sql : String) :
    Compiled.markerIndices sql = numbersFrom .code false sql.toList :=
  MarkerStyle.markerIndices_eq sql

/-- A text without markers has none behind a word either. -/
theorem numbersFrom_eq_nil {cs : List Char} (h : MarkerStyle.numbered.marks cs = [])
    (word : Bool) : numbersFrom .code word cs = [] := by
  have hno := MarkerStyle.index?_of_marks_eq_nil h
  have hlexemes : lexemesFrom word (glyphs cs) = lexemes cs := by
    cases word with
    | false => rfl
    | true => exact lexemesFrom_true_of_head fun l hl => hno l (List.mem_of_head? hl)
  rw [glyphs] at hlexemes
  rw [numbersFrom, hlexemes, List.filterMap_eq_nil_iff]
  exact hno

/-- A dollar sign with digits in code contributes their number, unless it stands behind a
word or the number is too large. -/
theorem numbersFrom_dollar {ds cs : List Char} (hne : ds ≠ [])
    (hdigits : ∀ c ∈ ds, c.isDigit = true) (hstop : leadingDigits cs = []) (word : Bool) :
    numbersFrom .code word ('$' :: (ds ++ cs)) =
      (if word = false ∧ Text.natOfDigits ds < indexBound then [Text.natOfDigits ds] else []) ++
        numbersFrom .code true cs := by
  have hleading := leadingDigits_append hdigits hstop
  have hmarker : StartsMarker .code word '$' (ds ++ cs) ↔
      word = false ∧ Text.natOfDigits ds < indexBound := by
    rw [StartsMarker, hleading]
    exact ⟨fun h => ⟨h.2.1, h.2.2.2.2⟩, fun h => ⟨rfl, h.1, rfl, hne, h.2⟩⟩
  have hrest := numbersFrom_digits Region.steady_code hdigits (isWordChar '$') cs
  rw [if_neg hne] at hrest
  split
  · rename_i h
    rw [numbersFrom_marker (hmarker.mpr h), step_code_dollar, hrest, hleading]
    rfl
  · rename_i h
    rw [numbersFrom_glyph (hmarker.not.mpr h), step_code_dollar, hrest]
    rfl

/-- What a written marker contributes between two texts of which the first has none. -/
theorem numbersFrom_text_marker {text : List Char} (hends : EndsInCode text)
    (hno : MarkerStyle.numbered.marks text = []) (word : Bool) (index : Nat) (rest : List Char) :
    numbersFrom .code word (text ++ ((MarkerStyle.numbered.marker index).toList ++ rest)) =
      (if wordAfter word (glyphs text) = false ∧
          Text.natOfDigits (Text.digits (wrapIndex index) ++ leadingDigits rest) < indexBound
        then [Text.natOfDigits (Text.digits (wrapIndex index) ++ leadingDigits rest)] else []) ++
        numbersFrom .code true rest := by
  have hopen : StartsInDigit (glyphs ((MarkerStyle.numbered.marker index).toList ++ rest)) →
      ¬ EndsInDollar (glyphs text) := by
    intro hdigit
    obtain ⟨c, hc, hd⟩ := startsInDigit_glyphs hdigit
    rw [head?_marker_append] at hc
    rw [← Option.some.inj hc] at hd
    exact absurd hd (by decide)
  obtain ⟨tail, hrest, hstop⟩ := exists_leadingDigits_append rest
  have hleading : ∀ c ∈ leadingDigits rest, c.isDigit = true :=
    fun c hc => isDigit_of_mem_leadingDigits hc
  have hdigits : ∀ c ∈ Text.digits (wrapIndex index) ++ leadingDigits rest, c.isDigit = true := by
    intro c hc
    exact (List.mem_append.mp hc).elim (isDigit_digits _ c) (hleading c)
  have hne : Text.digits (wrapIndex index) ++ leadingDigits rest ≠ [] := by
    simp [Text.digits_ne_nil]
  have hmarker : (MarkerStyle.numbered.marker index).toList ++ rest =
      '$' :: ((Text.digits (wrapIndex index) ++ leadingDigits rest) ++ tail) := by
    rw [MarkerStyle.marker, String.toList_ofList, List.append_assoc, ← hrest]
    rfl
  calc
    numbersFrom .code word (text ++ ((MarkerStyle.numbered.marker index).toList ++ rest))
        = numbersFrom .code word text ++ numbersFrom .code (wordAfter word (glyphs text))
            ((MarkerStyle.numbered.marker index).toList ++ rest) := by
          rw [numbersFrom, ← glyphs, glyphs_append hends (calm_append_marker _ index text rest),
            lexemesFrom_append hopen, List.filterMap_append]
          rfl
    _ = numbersFrom .code (wordAfter word (glyphs text))
          ('$' :: ((Text.digits (wrapIndex index) ++ leadingDigits rest) ++ tail)) := by
          rw [numbersFrom_eq_nil hno, List.nil_append, hmarker]
    _ = _ := by
          rw [numbersFrom_dollar hne hdigits hstop]
          have hpass := numbersFrom_digits Region.steady_code hleading true tail
          rw [ite_self, ← hrest] at hpass
          rw [hpass]

/-- A written marker has its own number, and the numbers behind it follow, just if it stands
behind no word and before no digit. -/
theorem numbersFrom_text_marker_eq_range_iff {text : List Char} (hends : EndsInCode text)
    (hno : MarkerStyle.numbered.marks text = []) (word : Bool) {index n : Nat} (hpos : 0 < index)
    (hbound : index < indexBound) {rest : List Char}
    (hle : (numbersFrom .code true rest).length ≤ n) :
    numbersFrom .code word (text ++ ((MarkerStyle.numbered.marker index).toList ++ rest)) =
        List.range' index (n + 1) ↔
      wordAfter word (glyphs text) = false ∧ leadingDigits rest = [] ∧
        numbersFrom .code true rest = List.range' (index + 1) n := by
  rw [numbersFrom_text_marker hends hno, wrapIndex_of_lt hbound, List.range'_succ]
  constructor
  · intro h
    split at h
    · rename_i hmarker
      obtain ⟨hnumber, hrest⟩ := List.cons.inj h
      exact ⟨hmarker.1, (Text.natOfDigits_digits_append_eq hpos).mp hnumber, hrest⟩
    · -- without this number, there are too few
      have hlength := congrArg List.length h
      simp only [List.nil_append, List.length_cons, List.length_range'] at hlength
      omega
  · rintro ⟨hword, hleading, hrest⟩
    rw [hleading, List.append_nil, Text.natOfDigits_digits, if_pos ⟨hword, hbound⟩, hrest]
    rfl

/-! ## Isolated placeholders -/

/-- A text ends a word unless its last character goes on with it. -/
theorem wordAfter_glyphs_eq_false_iff (word : Bool) (text : List Char) :
    wordAfter word (glyphs text) = false ↔
      (∀ c ∈ text.getLast?, isWordChar c = false) ∧ (word = true → text ≠ []) := by
  rw [wordAfter, ← getLast?_glyphs_char]
  cases hlast : (glyphs text).getLast? with
  | none =>
      have hnil : text = [] := by
        have hchar := getLast?_glyphs_char text
        rw [hlast] at hchar
        exact List.getLast?_eq_none_iff.mp hchar.symm
      simp [hnil]
  | some g =>
      have hne : text ≠ [] := by
        rintro rfl
        cases hlast
      simp [hne]

/-- A closed text without placeholders does not end in a question mark: the reader would
have to come back to code with it. -/
theorem getLast?_ne_placeholder {text : List Char} (hends : EndsInCode text)
    (hno : ∀ g ∈ glyphs text, g.isPlaceholder = false) : ∀ c ∈ text.getLast?, c ≠ '?' := by
  rintro c hc rfl
  obtain ⟨front, rfl⟩ := List.getLast?_eq_some_iff.mp hc
  have hfits : (regionAfter .code (some '?') front).Fits (some '?') :=
    Region.Fits.regionAfter trivial
  rw [EndsInCode, regionAfter_append] at hends
  simp only [List.head?_cons, Option.some_or, regionAfter, List.head?_nil, Option.none_or] at hends
  have hlast : (⟨'?', ((regionAfter .code (some '?') front).step '?' none).2⟩ : Glyph) ∈
      glyphs (front ++ ['?']) := by
    rw [glyphs, glyphsFrom_append]
    simp
  cases hregion : regionAfter .code (some '?') front with
  | code =>
      rw [hregion] at hlast
      exact absurd (hno _ hlast) (by decide)
  | quoted q =>
      rw [hregion] at hfits hends
      simp only [Region.step] at hends
      split at hends
      · rename_i hq
        subst hq
        exact absurd (show isQuote '?' = true from hfits) (by decide)
      · cases hends
  | lineComment =>
      rw [hregion] at hends
      cases hends
  | blockOpening =>
      rw [hregion] at hends
      cases hends
  | blockComment =>
      rw [hregion] at hends
      cases hends
  | blockClosing =>
      rw [hregion] at hfits
      cases hfits

/-- Where there are no placeholders, they are isolated. -/
theorem isChain_placed_of_noPlaceholder {gs : List Glyph}
    (hno : ∀ g ∈ gs, g.isPlaceholder = false) : gs.IsChain Placed := by
  refine (List.isChain_isInfix gs).imp fun g h hgh => ?_
  have hg := hno g (hgh.subset (by simp))
  have hh := hno h (hgh.subset (by simp))
  exact ⟨fun hp => absurd hp (by simp [hh]), fun hp => absurd hp (by simp [hg])⟩

/-- There is a text in front of the first placeholder just if that is not at the start. -/
theorem head?_placeholder_iff {text rest : List Char} (hends : EndsInCode text)
    (hno : ∀ g ∈ glyphs text, g.isPlaceholder = false) :
    (∀ g ∈ (glyphs (text ++ '?' :: rest)).head?, g.isPlaceholder = false) ↔ text ≠ [] := by
  refine ⟨ne_nil_of_head hends, fun hne g hg => ?_⟩
  rw [glyphs_placeholder hends] at hg
  cases text with
  | nil => exact absurd rfl hne
  | cons c cs => exact hno g (List.mem_of_head? hg)

/-- Placeholders of a text are isolated if the first one is and the others are. -/
theorem isChain_placed_iff {text rest : List Char} (hends : EndsInCode text)
    (hno : ∀ g ∈ glyphs text, g.isPlaceholder = false) :
    (glyphs (text ++ '?' :: rest)).IsChain Placed ↔
      (∀ c ∈ text.getLast?, isWordChar c = false) ∧
        (∀ g ∈ (glyphs rest).head?, g.isPlaceholder = false ∧ g.char.isDigit = false) ∧
        (glyphs rest).IsChain Placed := by
  refine ⟨placed_cons hends, fun ⟨hlast, hnext, hrest⟩ => ?_⟩
  have htext := isChain_placed_of_noPlaceholder hno
  rw [glyphs_placeholder hends, List.isChain_append, List.isChain_cons]
  refine ⟨htext, ⟨fun g hg => ⟨fun hp => ?_, fun _ => (hnext g hg).2⟩, hrest⟩, ?_⟩
  · exact absurd hp (by simp [(hnext g hg).1])
  · rintro g hg h ⟨⟩
    have hchar : g.char ∈ text.getLast? := by
      rw [← getLast?_glyphs_char, Option.mem_def.mp hg]
      rfl
    exact ⟨fun _ => ⟨hlast _ hchar, getLast?_ne_placeholder hends hno _ hchar⟩,
      fun hp => absurd hp (by simp [hno g (List.mem_of_getLast? hg)])⟩

end Lexical

/-! ## Markers in raw SQL -/

open Piece (written)

variable {b : Backend}

/-- Texts and markers in turn. -/
theorem written_weave_cons (hstyle : b.markerStyle = .numbered) (text : List Char)
    (texts : List (List Char)) (value : Bind) (values : List Bind) (count : Nat) :
    written b count (weave (text :: texts) (value :: values)) =
      text ++ ((MarkerStyle.numbered.marker (count + 1)).toList ++
        written b (count + 1) (weave texts values)) := by
  simp [weave, Piece.ownText, Piece.ownBinds, Backend.marker, hstyle]

/-- The markers in raw SQL are at most as many as the binds. -/
theorem Lexical.Woven.length_numbersFrom_le {cs : List Char} {texts : List (List Char)}
    (h : Woven cs texts) (hstyle : b.markerStyle = .numbered)
    (hsilent : ∀ text ∈ texts, MarkerStyle.numbered.marks text = []) {values : List Bind}
    (hlength : texts.length = values.length + 1) (word : Bool) (count : Nat) :
    (numbersFrom .code word (written b count (weave texts values))).length ≤ values.length := by
  induction h generalizing word count values with
  | @last text hno =>
      obtain rfl : values = [] := List.length_eq_zero_iff.mp (by simpa using hlength.symm)
      have hnil := numbersFrom_eq_nil (hsilent text (by simp)) word
      simp [weave, Piece.ownText, hnil]
  | @cons text rest texts hends hno htail ih =>
      obtain ⟨value, values, rfl, hlen⟩ := htail.exists_cons hlength
      have hrest := ih (fun t ht => hsilent t (by simp [ht])) hlen true (count + 1)
      rw [written_weave_cons hstyle, numbersFrom_text_marker hends (hsilent text (by simp)),
        List.length_append, List.length_cons, Nat.add_comm]
      refine Nat.add_le_add hrest ?_
      split <;> simp

/-- The text behind a marker starts with a digit just if the raw text does behind the
placeholder. -/
theorem Lexical.Woven.leadingDigits_written {cs : List Char} {texts : List (List Char)}
    (h : Woven cs texts) (hstyle : b.markerStyle = .numbered) {values : List Bind}
    (hlength : texts.length = values.length + 1) (count : Nat) :
    leadingDigits (written b count (weave texts values)) = [] ↔
      ∀ g ∈ (glyphs cs).head?, g.char.isDigit = false := by
  have hglyphs : (∀ g ∈ (glyphs cs).head?, g.char.isDigit = false) ↔
      ∀ c ∈ cs.head?, c.isDigit = false := by
    rw [← head?_glyphs_char]
    simp
  rw [hglyphs, leadingDigits_eq_nil_iff]
  cases h with
  | last _ =>
      obtain rfl : values = [] := List.length_eq_zero_iff.mp (by simpa using hlength.symm)
      simp [weave, Piece.ownText]
  | @cons text rest texts hends _ htail =>
      obtain ⟨value, values, rfl, -⟩ := htail.exists_cons hlength
      rw [written_weave_cons hstyle]
      cases text with
      | nil =>
          -- neither the marker nor the placeholder is a digit
          rw [List.nil_append, List.nil_append, head?_marker_append, List.head?_cons]
          exact iff_of_true (by rintro c ⟨⟩; rfl) (by rintro c ⟨⟩; rfl)
      | cons c text => simp

/-- The markers in raw SQL have the numbers of the binds just if the placeholders are
isolated. Behind a word that goes on, a placeholder at the start is not. -/
theorem Lexical.Woven.numbersFrom_eq_range_iff {cs : List Char} {texts : List (List Char)}
    (h : Woven cs texts) (hstyle : b.markerStyle = .numbered)
    (hsilent : ∀ text ∈ texts, MarkerStyle.numbered.marks text = []) {values : List Bind}
    (hlength : texts.length = values.length + 1) {count : Nat}
    (hbound : count + values.length < indexBound) (word : Bool) :
    numbersFrom .code word (written b count (weave texts values)) =
        List.range' (count + 1) values.length ↔
      (glyphs cs).IsChain Placed ∧
        (word = true → ∀ g ∈ (glyphs cs).head?, g.isPlaceholder = false) := by
  induction h generalizing word count values with
  | @last text hno =>
      obtain rfl : values = [] := List.length_eq_zero_iff.mp (by simpa using hlength.symm)
      have hnil := numbersFrom_eq_nil (hsilent text (by simp)) word
      have hchain : (glyphs text).IsChain Placed := isChain_placed_of_noPlaceholder hno
      have hhead : ∀ g ∈ (glyphs text).head?, g.isPlaceholder = false :=
        fun g hg => hno g (List.mem_of_head? hg)
      simpa [weave, Piece.ownText, hnil, hchain] using fun _ => hhead
  | @cons text rest texts hends hno htail ih =>
      obtain ⟨value, values, rfl, hlen⟩ := htail.exists_cons hlength
      have hrest : ∀ t ∈ texts, MarkerStyle.numbered.marks t = [] :=
        fun t ht => hsilent t (by simp [ht])
      simp only [List.length_cons] at hbound ⊢
      have hle := htail.length_numbersFrom_le hstyle hrest hlen true (count + 1)
      rw [written_weave_cons hstyle,
        numbersFrom_text_marker_eq_range_iff hends (hsilent text (by simp)) word (by omega)
          (by omega) hle,
        ih hrest hlen (by omega) true, isChain_placed_iff hends hno,
        head?_placeholder_iff hends hno, wordAfter_glyphs_eq_false_iff]
      constructor
      · rintro ⟨⟨hlast, hword⟩, hleading, hchain, hhead⟩
        have hdigit := (htail.leadingDigits_written hstyle hlen _).mp hleading
        exact ⟨⟨hlast, fun g hg => ⟨hhead rfl g hg, hdigit g hg⟩, hchain⟩, hword⟩
      · rintro ⟨⟨hlast, hnext, hchain⟩, hword⟩
        have hdigit := fun g hg => (hnext g hg).2
        exact ⟨⟨hlast, hword⟩, (htail.leadingDigits_written hstyle hlen _).mpr hdigit, hchain,
          fun _ g hg => (hnext g hg).1⟩

/-! ## What is written -/

/-- Texts with fillings between them. -/
def Lexical.fill : List (List Char) → List (List Char) → List Char
  | [], _ => []
  | text :: texts, [] => text ++ fill texts []
  | text :: texts, filling :: fillings => text ++ (filling ++ fill texts fillings)

/-- A text is its parts with placeholders between them. -/
theorem Lexical.Woven.eq_fill {cs : List Char} {texts : List (List Char)} (h : Woven cs texts) :
    cs = fill texts (List.replicate (texts.length - 1) ['?']) := by
  induction h with
  | last hno => simp [fill]
  | @cons text rest texts hends hno htail ih =>
      obtain ⟨first, others, rfl⟩ : ∃ first others, texts = first :: others := by
        cases htail <;> exact ⟨_, _, rfl⟩
      conv_lhs => rw [ih]
      simp [fill, List.replicate_succ]

/-- Binds woven into texts are written as the texts with markers between them. -/
theorem written_weave {texts : List (List Char)} {values : List Bind}
    (hlength : texts.length = values.length + 1) (count : Nat) :
    written b count (weave texts values) =
      fill texts ((List.range' (count + 1) values.length).map fun index =>
        (b.marker index).toList) := by
  induction values generalizing texts count with
  | nil =>
      obtain ⟨text, rfl⟩ := List.length_eq_one_iff.mp hlength
      simp [weave, fill, Piece.ownText]
  | cons value values ih =>
      cases texts with
      | nil => cases hlength
      | cons text texts =>
          have hrest : texts.length = values.length + 1 := by simpa using hlength
          simp [weave, fill, List.range'_succ, Piece.ownText, Piece.ownBinds, ih hrest]

namespace RawSql

/-- Accepted raw SQL is what it was made of. -/
theorem eq_of_ofParts {sql : String} {binds : List Bind} {raw : RawSql}
    (h : ofParts sql binds = .ok raw) : raw.sql = sql ∧ raw.binds = binds := by
  unfold ofParts at h
  split at h
  · split at h
    · obtain rfl := Except.ok.inj h
      exact ⟨rfl, rfl⟩
    · cases h
  · cases h

/-- Accepted raw SQL always compiles alone, to its texts with numbered markers in the place
of its placeholders. These are the markers found in the result just if the placeholders are
isolated, which acceptance does not say. -/
theorem markers_alone {sql : String} {binds : List Bind} {raw : RawSql}
    (haccept : ofParts sql binds = .ok raw) (hbound : binds.length < indexBound) :
    ∃ q, (Expr.raw raw).compile .postgresql = .ok q ∧ q.binds = binds ∧
      sql.toList = fill raw.texts (List.replicate binds.length ['?']) ∧
      q.sql.toList = fill raw.texts ((List.range' 1 binds.length).map fun index =>
        (MarkerStyle.numbered.marker index).toList) ∧
      (Compiled.markerIndices q.sql = List.range' 1 binds.length ↔ raw.Isolated) := by
  obtain ⟨rfl, rfl⟩ := eq_of_ofParts haccept
  have hwoven := raw.woven_texts
  refine ⟨_, Expr.compile_of_failure?_eq_none (failure?_weave _ _), raw.binds_pieces, ?_, ?_, ?_⟩
  · have h := hwoven.eq_fill
    rwa [raw.length_texts, Nat.add_sub_cancel] at h
  · rw [String.toList_ofList]
    exact written_weave raw.length_texts 0
  · rw [markerIndices_eq_numbersFrom, String.toList_ofList]
    have hlength : 0 + raw.binds.length < indexBound := by omega
    have h := hwoven.numbersFrom_eq_range_iff (b := .postgresql) rfl (raw.marks_texts .numbered)
      raw.length_texts hlength false
    exact h.trans (and_iff_left fun hword => absurd hword (by decide))

theorem markers_alone_cast :
    let sql := "x = ?::int AND y IN (?,'?')"
    let binds : List Bind := [.int 4, .string "b"]
    let raw : RawSql := ⟨sql, binds, by decide, by decide⟩
    ofParts sql binds = .ok raw ∧ raw.Isolated ∧
      ∃ q, (Expr.raw raw).compile .postgresql = .ok q ∧
        q.sql.toList = "x = $1::int AND y IN ($2,'?')".toList ∧
        Compiled.markerIndices q.sql = [1, 2] := by
  intro sql binds raw
  have haccept : ofParts sql binds = .ok raw := by
    rw [ofParts, dif_pos raw.noMarkers, dif_pos raw.parity]
  have hisolated : raw.Isolated := by decide +kernel
  obtain ⟨q, hcompile, -, -, hsql, hmarkers⟩ := markers_alone haccept (by decide)
  exact ⟨haccept, hisolated, q, hcompile, hsql.trans (by decide +kernel), hmarkers.mpr hisolated⟩

/-- The second placeholder is part of a word when it has become a marker. -/
theorem marker_joins_word :
    let sql := "a > ? AND b LIKE?"
    let binds : List Bind := [.int 1, .string "x%"]
    let raw : RawSql := ⟨sql, binds, by decide, by decide⟩
    let q : Compiled := ⟨"a > $1 AND b LIKE$2", binds, .postgresql⟩
    ofParts sql binds = .ok raw ∧ (Expr.raw raw).compile .postgresql = .ok q ∧
      Compiled.markerIndices q.sql ≠ [1, 2] := by
  intro sql binds raw q
  refine ⟨?_, ?_, by decide +kernel⟩
  · rw [ofParts, dif_pos raw.noMarkers, dif_pos raw.parity]
  · exact Statement.compile_of_pieces (by decide +kernel) (by decide +kernel) rfl rfl

end RawSql

end BoundSql
