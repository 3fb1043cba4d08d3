import BoundSql.Proofs.Lexical.Joined
import BoundSql.Proofs.Lexical.Occurrence
import BoundSql.Proofs.Numbering.Between

/-!
# Markers byte by byte

`Marker.StandsIn` says of the bytes of a text that a marker stands at some of them: a dollar
sign in a span of code, behind no byte of a word, and all the digits behind it that the span
still holds. The markers of a text are the markers that stand in it
(`mem_numberedMarkers_iff_standsIn`).

Bytes and characters agree on digits and on words, since all bytes of a character are those of
a digit if it is one, and of a word if it belongs to one (`isDigitCode_of_mem`,
`isWordCode_of_mem`). That the digits are sought in one span only loses none of them: behind a
span there is no code (`not_code_at_stop`).
-/

namespace BoundSql.Lexical

/-- The bytes of a text. -/
def bytes (sql : String) : List UInt8 :=
  sql.toByteArray.data.toList

/-- Whether a code is that of an ASCII digit. -/
def isDigitCode (n : Nat) : Bool :=
  48 ≤ n && n ≤ 57

/-- Whether a code is that of an ASCII letter, an ASCII digit or an underscore. -/
def isWordCode (n : Nat) : Bool :=
  isDigitCode n || (65 ≤ n && n ≤ 90) || (97 ≤ n && n ≤ 122) || n == 95

/-- The number that the bytes of digits spell. -/
def byteNumber (bs : List UInt8) : Nat :=
  bs.foldl (fun n b => 10 * n + (b.toNat - 48)) 0

/-- The digits directly behind byte `i`, as far as byte `stop`. -/
def digitRun (sql : String) (i stop : Nat) : List UInt8 :=
  (((bytes sql).take stop).drop (i + 1)).takeWhile fun b => isDigitCode b.toNat

/-- What stands in the bytes of a text where a marker stands in a span of its code. -/
structure Marker.StandsIn (m : Marker) (sql : String) (code : Span) : Prop where
  covered : code.Covers m.span.start
  dollar : (bytes sql)[m.span.start]? = some 36
  noWord : m.span.start ≠ 0 → ∀ b ∈ (bytes sql)[m.span.start - 1]?, isWordCode b.toNat = false
  digits : digitRun sql m.span.start code.stop ≠ []
  stop : m.span.stop = m.span.start + 1 + (digitRun sql m.span.start code.stop).length
  index : m.index = byteNumber (digitRun sql m.span.start code.stop)
  bound : m.index < indexBound

/-! ## Codes of characters and of their bytes -/

theorem isDigit_eq (c : Char) : c.isDigit = isDigitCode c.toNat := by
  simp [Char.isDigit, isDigitCode, UInt32.le_iff_toNat_le]

theorem isWordChar_eq (c : Char) : isWordChar c = isWordCode c.toNat := by
  have hupper : c.isUpper = true ↔ 65 ≤ c.toNat ∧ c.toNat ≤ 90 :=
    decide_eq_true_iff.trans (and_congr UInt32.le_iff_toNat_le UInt32.le_iff_toNat_le)
  have hlower : c.isLower = true ↔ 97 ≤ c.toNat ∧ c.toNat ≤ 122 := by
    show (decide (c.val ≥ 'a'.val) && decide (c.val ≤ 'z'.val)) = true ↔ _
    rw [Bool.and_eq_true, decide_eq_true_eq, decide_eq_true_eq]
    exact and_congr UInt32.le_iff_toNat_le UInt32.le_iff_toNat_le
  have hunderscore : c = '_' ↔ c.toNat = 95 := Char.toNat_inj.symm
  show (c.isUpper || c.isLower || c.isDigit || c == '_') = _
  rw [isDigit_eq, Bool.eq_iff_iff]
  simp only [isWordCode, Bool.or_eq_true, Bool.and_eq_true, decide_eq_true_eq, beq_iff_eq, hupper,
    hlower, hunderscore]
  refine or_congr_left ?_
  rw [or_comm, or_assoc]

theorem isDigitCode_of_le {n : Nat} (h : 128 ≤ n) : isDigitCode n = false := by
  simp only [isDigitCode, Bool.and_eq_false_iff, decide_eq_false_iff_not]
  omega

theorem isWordCode_of_le {n : Nat} (h : 128 ≤ n) : isWordCode n = false := by
  simp [isWordCode, isDigitCode_of_le h]
  omega

/-- A byte of a character is its code, or neither is an ASCII code. -/
theorem toNat_of_mem {c : Char} {b : UInt8} (h : b ∈ String.utf8EncodeChar c) :
    b.toNat = c.toNat ∨ (128 ≤ b.toNat ∧ 128 ≤ c.toNat) := by
  by_cases hc : c.toNat < 128
  · rw [utf8EncodeChar_of_lt hc, List.mem_singleton] at h
    rw [h]
    exact Or.inl (toNat_ofNat_of_lt hc)
  · exact Or.inr ⟨le_of_mem_utf8EncodeChar (by omega) h, by omega⟩

theorem isDigitCode_of_mem {c : Char} {b : UInt8} (h : b ∈ String.utf8EncodeChar c) :
    isDigitCode b.toNat = c.isDigit := by
  rw [isDigit_eq]
  rcases toNat_of_mem h with hsame | ⟨hb, hc⟩
  · rw [hsame]
  · rw [isDigitCode_of_le hb, isDigitCode_of_le hc]

theorem isWordCode_of_mem {c : Char} {b : UInt8} (h : b ∈ String.utf8EncodeChar c) :
    isWordCode b.toNat = isWordChar c := by
  rw [isWordChar_eq]
  rcases toNat_of_mem h with hsame | ⟨hb, hc⟩
  · rw [hsame]
  · rw [isWordCode_of_le hb, isWordCode_of_le hc]

/-! ## Bytes of texts -/

theorem encode_cons (c : Char) (cs : List Char) :
    encode (c :: cs) = String.utf8EncodeChar c ++ encode cs := rfl

theorem bytes_eq (sql : String) : bytes sql = encode sql.toList :=
  toList_data_toByteArray sql

/-- An ASCII byte is a character. -/
theorem exists_of_getElem?_encode {cs : List Char} {i : Nat} {b : UInt8}
    (h : (encode cs)[i]? = some b) (hb : b.toNat < 128) :
    ∃ front c back, cs = front ++ c :: back ∧ i = byteSize front ∧ c.toNat = b.toNat := by
  induction cs generalizing i with
  | nil => simp [encode] at h
  | cons c cs ih =>
      rw [encode_cons] at h
      by_cases hi : i < (String.utf8EncodeChar c).length
      · rw [List.getElem?_append_left hi] at h
        have hcode : c.toNat = b.toNat := by
          rcases toNat_of_mem (List.mem_of_getElem? h) with hsame | ⟨hlarge, -⟩
          · exact hsame.symm
          · omega
        rw [utf8EncodeChar_of_lt (by omega), List.length_singleton] at hi
        exact ⟨[], c, cs, rfl, by simpa [byteSize] using hi, hcode⟩
      · rw [List.getElem?_append_right (by omega)] at h
        obtain ⟨front, d, back, rfl, hfront, hcode⟩ := ih h
        refine ⟨c :: front, d, back, rfl, ?_, hcode⟩
        rw [String.length_utf8EncodeChar] at hi hfront
        rw [byteSize]
        omega

theorem isDigitCode_of_mem_encode {ds : List Char} (hdigits : ∀ c ∈ ds, c.isDigit = true)
    {b : UInt8} (h : b ∈ encode ds) : isDigitCode b.toNat = true := by
  obtain ⟨c, hc, hb⟩ := List.mem_flatMap.mp h
  rw [isDigitCode_of_mem hb]
  exact hdigits c hc

/-- Digits are one byte each. -/
theorem utf8EncodeChar_of_isDigit {c : Char} (h : c.isDigit = true) :
    String.utf8EncodeChar c = [UInt8.ofNat c.toNat] ∧ (UInt8.ofNat c.toNat).toNat = c.toNat := by
  have hlt : c.toNat < 128 := by
    by_contra hle
    rw [isDigit_eq, isDigitCode_of_le (by omega)] at h
    cases h
  exact ⟨utf8EncodeChar_of_lt hlt, toNat_ofNat_of_lt hlt⟩

/-- The bytes of digits spell their number. -/
theorem byteNumber_encode {ds : List Char} (hdigits : ∀ c ∈ ds, c.isDigit = true) :
    byteNumber (encode ds) = Text.natOfDigits ds := by
  rw [byteNumber, Text.natOfDigits]
  generalize 0 = n
  induction ds generalizing n with
  | nil => rfl
  | cons c ds ih =>
      obtain ⟨hbytes, hcode⟩ := utf8EncodeChar_of_isDigit (hdigits c (by simp))
      rw [encode_cons, hbytes, Nat.ofDigitChars_cons, ← ih fun d hd => hdigits d (by simp [hd])]
      show (encode ds).foldl _ (10 * n + ((UInt8.ofNat c.toNat).toNat - 48)) = _
      rw [hcode]
      rfl

/-- The byte before the end of a text belongs to a word just if its last character does. -/
theorem noWord_iff (front : List Glyph) (back : List Char) :
    (byteSize (front.map Glyph.char) ≠ 0 →
        ∀ b ∈ (encode (front.map Glyph.char ++ back))[byteSize (front.map Glyph.char) - 1]?,
          isWordCode b.toNat = false) ↔
      wordAfter false front = false := by
  rcases List.eq_nil_or_concat front with rfl | ⟨before, g, rfl⟩
  · simp [byteSize, wordAfter]
  · have hsize := g.size_pos
    have hlength : (String.utf8EncodeChar g.char).length = g.size :=
      String.length_utf8EncodeChar g.char
    have hbytes : encode ((before.concat g).map Glyph.char ++ back) =
        encode (before.map Glyph.char) ++ (String.utf8EncodeChar g.char ++ encode back) := by
      simp [encode_append, encode_cons]
    have htotal : byteSize ((before.concat g).map Glyph.char) =
        (encode (before.map Glyph.char)).length + g.size := by
      simp [byteSize_append, byteSize, length_encode, Glyph.size]
    have hword : wordAfter false (before.concat g) = isWordChar g.char := by
      simp [wordAfter]
    -- the byte is the last one of the last character
    have hlast : (encode ((before.concat g).map Glyph.char ++ back))[
        byteSize ((before.concat g).map Glyph.char) - 1]? =
        (String.utf8EncodeChar g.char)[g.size - 1]? := by
      rw [hbytes, htotal, List.getElem?_append_right (by omega),
        List.getElem?_append_left (by omega)]
      congr 1
      omega
    obtain ⟨b, hb⟩ : ∃ b, (String.utf8EncodeChar g.char)[g.size - 1]? = some b :=
      ⟨_, List.getElem?_eq_getElem (by omega)⟩
    rw [hlast, hb, hword, ← isWordCode_of_mem (List.mem_of_getElem? hb)]
    have hne : byteSize ((before.concat g).map Glyph.char) ≠ 0 := by omega
    constructor
    · intro h
      exact h hne b rfl
    · intro h _ d hd
      rw [← Option.some.inj hd]
      exact h

/-! ## Digits in a span of code -/

/-- Glyphs of code are code with all their bytes. -/
theorem verdicts_of_code {gs : List Glyph} (h : ∀ g ∈ gs, g.code = true) :
    verdicts gs = List.replicate (byteSize (gs.map Glyph.char)) true := by
  rw [List.eq_replicate_iff]
  refine ⟨length_verdicts gs, fun v hv => ?_⟩
  obtain ⟨g, hg, hmem⟩ := List.mem_flatMap.mp hv
  rw [List.eq_of_mem_replicate hmem]
  exact h g hg

theorem code_of_mem_dollarGlyphs {ds : List Char} {g : Glyph} (h : g ∈ dollarGlyphs ds) :
    g.code = true := by
  rcases List.mem_cons.mp h with rfl | hg
  · rfl
  · obtain ⟨c, -, rfl⟩ := List.mem_map.mp hg
    rfl

/-- Behind some glyphs the others decide. -/
theorem getElem?_verdicts_append (front gs : List Glyph) (k : Nat) :
    (verdicts (front ++ gs))[byteSize (front.map Glyph.char) + k]? = (verdicts gs)[k]? := by
  rw [verdicts_append, ← length_verdicts, List.getElem?_append_right (by omega),
    Nat.add_sub_cancel_left]

/-- What a span of code stops at is not code. -/
theorem not_code_at_stop {sql : String} {code : Span} (h : code ∈ codeSpans sql) :
    (verdicts (glyphs sql.toList))[code.stop]? ≠ some true := by
  intro hcode
  obtain ⟨other, hother, hstart, hstop⟩ := (exists_mem_codeSpans_iff sql code.stop).mpr hcode
  have hsince : ∀ s ∈ (none : Option Nat), s < 0 := by simp
  have hlt := (edges_of_mem_spansFrom hsince h).2.1
  have hapart : (codeSpans sql).Pairwise fun a b => a.stop < b.start := by
    refine (@pairwise_spansFrom [] none (glyphs sql.toList) hsince).imp fun hbetween => ?_
    obtain ⟨i, hi, hi', -⟩ := hbetween
    omega
  -- another span that holds the byte would touch this one
  obtain ⟨i, hi, rfl⟩ := List.mem_iff_getElem.mp h
  obtain ⟨j, hj, rfl⟩ := List.mem_iff_getElem.mp hother
  rw [List.pairwise_iff_getElem] at hapart
  rcases Nat.lt_trichotomy i j with hij | rfl | hij
  · have hbefore := hapart i j hi hj hij
    omega
  · omega
  · have hbehind := hapart j i hj hi hij
    omega

/-- No run of digits begins with what is no digit. -/
theorem takeWhile_take_encode {gs : List Glyph} {n : Nat}
    (h : 0 < n → ∀ g ∈ gs.head?, g.char.isDigit = false) :
    ((encode (gs.map Glyph.char)).take n).takeWhile (fun b => isDigitCode b.toNat) = [] := by
  cases gs with
  | nil => simp [encode]
  | cons g gs =>
      cases n with
      | zero => simp
      | succ n =>
          obtain ⟨b, bs, hbytes⟩ : ∃ b bs, String.utf8EncodeChar g.char = b :: bs :=
            List.exists_cons_of_ne_nil String.utf8EncodeChar_ne_nil
          have hb : isDigitCode b.toNat = g.char.isDigit :=
            isDigitCode_of_mem (by rw [hbytes]; exact List.mem_cons_self ..)
          have hno := h (Nat.zero_lt_succ n) g rfl
          rw [List.map_cons, encode_cons, hbytes, List.cons_append, List.take_succ_cons,
            List.takeWhile_cons_of_neg (by rw [hb, hno]; exact Bool.false_ne_true)]

section Run

variable {sql : String} {front back : List Glyph} {ds : List Char}
  (hglyphs : glyphs sql.toList = front ++ (dollarGlyphs ds ++ back))
include hglyphs

theorem toList_of_glyphs :
    sql.toList = front.map Glyph.char ++ ('$' :: ds ++ back.map Glyph.char) := by
  rw [← map_char_dollarGlyphs, ← List.map_append, ← List.map_append, ← hglyphs, map_char_glyphs]

theorem bytes_of_glyphs :
    bytes sql =
      encode (front.map Glyph.char) ++ (36 :: (encode ds ++ encode (back.map Glyph.char))) := by
  rw [bytes_eq, toList_of_glyphs hglyphs, encode_append, encode_append, encode_cons]
  rfl

/-- The dollar sign and the digits are code, and behind them the rest decides. -/
theorem getElem?_verdicts_dollar (k : Nat) :
    (verdicts (glyphs sql.toList))[byteSize (front.map Glyph.char) + k]? =
      if k < 1 + (encode ds).length then some true
      else (verdicts back)[k - (1 + (encode ds).length)]? := by
  have hlength : byteSize ('$' :: ds) = 1 + (encode ds).length := by
    rw [length_encode]
    rfl
  rw [hglyphs, getElem?_verdicts_append, verdicts_append,
    verdicts_of_code fun g hg => code_of_mem_dollarGlyphs hg, map_char_dollarGlyphs, hlength]
  split
  · rename_i hk
    rw [List.getElem?_append_left (by simpa using hk), List.getElem?_replicate, if_pos hk]
  · rw [List.getElem?_append_right (by simp; omega), List.length_replicate]

/-- In the span of its dollar sign a marker has all its digits and no others. -/
theorem digitRun_eq (hdigits : ∀ c ∈ ds, c.isDigit = true) (hstops : ¬ StartsInDigit back)
    {code : Span} (hcode : code ∈ codeSpans sql)
    (hcovered : code.Covers (byteSize (front.map Glyph.char))) :
    digitRun sql (byteSize (front.map Glyph.char)) code.stop = encode ds := by
  have hverdict := getElem?_verdicts_dollar hglyphs
  have hlength := length_encode (front.map Glyph.char)
  obtain ⟨hstart, hstop⟩ := hcovered
  -- the span holds the digits, since it does not stop at code
  have hholds : byteSize (front.map Glyph.char) + 1 + (encode ds).length ≤ code.stop := by
    by_contra hshort
    refine not_code_at_stop hcode ?_
    have hk := hverdict (code.stop - byteSize (front.map Glyph.char))
    rwa [Nat.add_sub_cancel' (by omega), if_pos (by omega)] at hk
  have hbehind : ((bytes sql).take code.stop).drop (byteSize (front.map Glyph.char) + 1) =
      encode ds ++ (encode (back.map Glyph.char)).take
        (code.stop - (byteSize (front.map Glyph.char) + 1) - (encode ds).length) := by
    rw [List.drop_take, bytes_of_glyphs hglyphs, ← hlength, List.drop_append,
      List.drop_of_length_le (by omega), List.nil_append, Nat.add_sub_cancel_left]
    rw [List.drop_one, List.tail_cons, List.take_append, List.take_of_length_le (by omega)]
  have hnone := @takeWhile_take_encode back
    (code.stop - (byteSize (front.map Glyph.char) + 1) - (encode ds).length) ?_
  · rw [digitRun, hbehind, List.takeWhile_append_of_pos fun b hb =>
      isDigitCode_of_mem_encode hdigits hb, hnone, List.append_nil]
  · intro hmore g hg
    rw [← Bool.not_eq_true]
    intro hdigit
    refine hstops ⟨g, hg, ?_, hdigit⟩
    -- the first byte behind the digits lies in the span
    have hnext : (verdicts back)[0]? = some true := by
      have hk := hverdict (1 + (encode ds).length)
      rw [if_neg (by omega), Nat.sub_self] at hk
      rw [← hk]
      exact (exists_mem_codeSpans_iff sql _).mp ⟨code, hcode, by omega, by omega⟩
    obtain ⟨rest, rfl⟩ := List.head?_eq_some_iff.mp hg
    have hsize := g.size_pos
    rw [verdicts_cons, List.getElem?_append_left (by simpa using hsize),
      List.getElem?_replicate, if_pos hsize] at hnext
    exact Option.some.inj hnext

/-- Where a dollar sign of code and the digits behind it are found, a marker stands just if
glyphs surround it. -/
theorem standsIn_iff (hdigits : ∀ c ∈ ds, c.isDigit = true) (hstops : ¬ StartsInDigit back)
    {code : Span} (hcode : code ∈ codeSpans sql)
    (hcovered : code.Covers (byteSize (front.map Glyph.char))) {m : Marker}
    (hstart : m.span.start = byteSize (front.map Glyph.char)) :
    m.StandsIn sql code ↔
      Surrounds false front ds back ∧ m = markerAt (byteSize (front.map Glyph.char)) ds := by
  have hrun := digitRun_eq hglyphs hdigits hstops hcode hcovered
  have hnumber := byteNumber_encode hdigits
  have hlength : byteSize ('$' :: ds) = 1 + (encode ds).length := by
    rw [length_encode]
    rfl
  have hword := noWord_iff front ('$' :: ds ++ back.map Glyph.char)
  rw [← toList_of_glyphs hglyphs, ← bytes_eq] at hword
  obtain ⟨⟨start, stop⟩, index⟩ := m
  obtain rfl : start = byteSize (front.map Glyph.char) := hstart
  constructor
  · intro h
    have hne : ds ≠ [] := by
      intro hnil
      exact h.digits (hrun.trans (congrArg encode hnil))
    have hindex : index = Text.natOfDigits ds := by
      rw [← hnumber, ← hrun]
      exact h.index
    have hstop : stop = byteSize (front.map Glyph.char) + byteSize ('$' :: ds) := by
      rw [hlength, ← Nat.add_assoc, ← hrun]
      exact h.stop
    refine ⟨⟨hword.mp h.noWord, ⟨hne, hdigits, ?_⟩, hstops⟩, ?_⟩
    · rw [← hindex]
      exact h.bound
    · rw [hindex, hstop]
      rfl
  · intro h
    obtain ⟨hsurrounds, hm⟩ := h
    rw [markerAt, Marker.mk.injEq, Span.mk.injEq] at hm
    obtain ⟨⟨-, rfl⟩, rfl⟩ := hm
    refine ⟨hcovered, ?_, hword.mpr hsurrounds.noWord, ?_, ?_, ?_, hsurrounds.numeral.bound⟩
    · rw [bytes_of_glyphs hglyphs, ← length_encode, List.getElem?_append_right (Nat.le_refl _),
        Nat.sub_self]
      rfl
    · rw [hrun]
      obtain ⟨c, cs, rfl⟩ := List.exists_cons_of_ne_nil hsurrounds.numeral.ne_nil
      rw [encode_cons, (utf8EncodeChar_of_isDigit (hdigits c (by simp))).1]
      exact List.cons_ne_nil _ _
    · rw [hrun, hlength, Nat.add_assoc]
    · rw [hrun, hnumber]

end Run

/-! ## The markers of a text -/

/-- A dollar sign of code and all the digits behind it among the glyphs of a text. -/
theorem exists_dollarGlyphs {front back : List Char}
    (h : (verdicts (glyphs (front ++ '$' :: back)))[byteSize front]? = some true) :
    ∃ gs ds rest, glyphs (front ++ '$' :: back) = gs ++ (dollarGlyphs ds ++ rest) ∧
      gs.map Glyph.char = front ∧ (∀ c ∈ ds, c.isDigit = true) ∧ ¬ StartsInDigit rest := by
  obtain ⟨rest, hback, hnone⟩ := exists_leadingDigits_append back
  have hdigits : ∀ c ∈ leadingDigits back, c.isDigit = true := fun c hc =>
    isDigit_of_mem_leadingDigits hc
  have hchars := map_char_glyphsBefore .code (some '$') front
  have hglyphs : glyphs (front ++ '$' :: back) = glyphsBefore .code (some '$') front ++
      glyphsFrom (regionAfter .code (some '$') front) ('$' :: back) :=
    glyphsFrom_append .code front ('$' :: back)
  have hregion : regionAfter .code (some '$') front = .code := by
    have hverdict := getElem?_verdicts_append (glyphsBefore .code (some '$') front)
      (glyphsFrom (regionAfter .code (some '$') front) ('$' :: back)) 0
    rw [hchars, Nat.add_zero, ← hglyphs, h, glyphsFrom_cons] at hverdict
    have hcode : ((regionAfter .code (some '$') front).step '$' back.head?).2 = true :=
      (Option.some.inj hverdict).symm
    -- a dollar sign is code in code only
    revert hcode
    cases regionAfter .code (some '$') front <;> simp [Region.step]
  refine ⟨glyphsBefore .code (some '$') front, leadingDigits back, glyphs rest, ?_, hchars,
    hdigits, (not_startsInDigit_iff rest).mpr hnone⟩
  rw [hglyphs, hregion]
  conv_lhs => rw [hback]
  rw [glyphsFrom_dollar hdigits]
  rfl

/-- At a byte of code that is a dollar sign the glyphs of a text are a dollar sign and all the
digits behind it. -/
theorem exists_of_dollar {sql : String} {code : Span} (hcode : code ∈ codeSpans sql) {i : Nat}
    (hcovered : code.Covers i) (hdollar : (bytes sql)[i]? = some 36) :
    ∃ front ds back, glyphs sql.toList = front ++ (dollarGlyphs ds ++ back) ∧
      i = byteSize (front.map Glyph.char) ∧ (∀ c ∈ ds, c.isDigit = true) ∧
      ¬ StartsInDigit back := by
  rw [bytes_eq] at hdollar
  obtain ⟨front, c, back, hchars, hi, hc⟩ := exists_of_getElem?_encode hdollar (by decide)
  obtain rfl : c = '$' := Char.toNat_inj.mp hc
  have hverdict := (exists_mem_codeSpans_iff sql i).mp ⟨code, hcode, hcovered⟩
  rw [hchars, hi] at hverdict
  obtain ⟨gs, ds, rest, hglyphs, rfl, hdigits, hstops⟩ := exists_dollarGlyphs hverdict
  rw [← hchars] at hglyphs
  exact ⟨gs, ds, rest, hglyphs, hi, hdigits, hstops⟩

/-- The markers of a text are those that stand in its bytes. -/
theorem mem_numberedMarkers_iff_standsIn (sql : String) (m : Marker) :
    m ∈ numberedMarkers sql ↔ ∃ code ∈ codeSpans sql, m.StandsIn sql code := by
  rw [mem_numberedMarkers_iff]
  constructor
  · intro h
    obtain ⟨front, ds, back, hglyphs, hsurrounds, rfl⟩ := h
    have hverdict := getElem?_verdicts_dollar hglyphs 0
    rw [if_pos (by omega), Nat.add_zero, ← exists_mem_codeSpans_iff] at hverdict
    obtain ⟨code, hcode, hcovered⟩ := hverdict
    exact ⟨code, hcode, (standsIn_iff hglyphs hsurrounds.numeral.digits hsurrounds.stops hcode
      hcovered rfl).mpr ⟨hsurrounds, rfl⟩⟩
  · intro h
    obtain ⟨code, hcode, hstands⟩ := h
    obtain ⟨front, ds, back, hglyphs, hstart, hdigits, hstops⟩ :=
      exists_of_dollar hcode hstands.covered hstands.dollar
    obtain ⟨hsurrounds, hm⟩ := (standsIn_iff hglyphs hdigits hstops hcode
      (hstart ▸ hstands.covered) hstart).mp hstands
    exact ⟨front, ds, back, hglyphs, hsurrounds, hm⟩

/-- The markers of a text stand one behind the other. -/
theorem pairwise_markersFrom (pos : Nat) (ls : List Lexeme) :
    (markersFrom pos ls).Pairwise fun a b => a.span.stop ≤ b.span.start := by
  induction ls generalizing pos with
  | nil => exact List.Pairwise.nil
  | cons l ls ih =>
      cases l with
      | glyph g => exact ih _
      | marker digits index =>
          exact List.Pairwise.cons (fun m hm => (start_of_mem_markersFrom hm).1) (ih _)

/-- So do its placeholders. -/
theorem pairwise_placeholdersFrom (pos : Nat) (gs : List Glyph) :
    (∀ offset ∈ placeholdersFrom pos gs, pos ≤ offset) ∧
      (placeholdersFrom pos gs).Pairwise (· < ·) := by
  induction gs generalizing pos with
  | nil => exact ⟨by simp [placeholdersFrom], List.Pairwise.nil⟩
  | cons g gs ih =>
      obtain ⟨hbehind, hpairwise⟩ := ih (pos + g.size)
      have hsize := g.size_pos
      rw [placeholdersFrom]
      split
      · refine ⟨?_, List.Pairwise.cons (fun offset hoffset => ?_) hpairwise⟩
        · intro offset hoffset
          rcases List.mem_cons.mp hoffset with rfl | hoffset
          · exact Nat.le_refl _
          · exact Nat.le_trans (Nat.le_add_right _ _) (hbehind offset hoffset)
        · have hle := hbehind offset hoffset
          omega
      · refine ⟨fun offset hoffset => ?_, hpairwise⟩
        exact Nat.le_trans (Nat.le_add_right _ _) (hbehind offset hoffset)

end BoundSql.Lexical
