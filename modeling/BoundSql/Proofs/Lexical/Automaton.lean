import BoundSql.Proofs.Lexical.Closed

/-!
# The spans of code by an automaton

`Mode.read` is a reader of SQL as one would write it down: an automaton with five
states over bytes. The spans of code are what this automaton finds
(`codeSpans_automaton`).

The automaton differs from the reader of characters in two ways. It takes the two
bytes of a doubled quote and of a comment mark together, where the other reader is
in a region of its own between them; `Region.read` says what the automaton reads
from there. And it sees bytes: a character beyond ASCII is several bytes none of
which is a mark (`byteSigns_eq`).
-/

namespace BoundSql.Lexical

/-! ## The automaton -/

/-- What a byte can be to a reader of SQL. -/
inductive Sign where
  | apostrophe
  | quote
  | hyphen
  | slash
  | star
  | newline
  | other
  deriving DecidableEq, Repr

/-- The sign with this ASCII code. -/
def Sign.ofCode : Nat → Sign
  | 0x27 => .apostrophe
  | 0x22 => .quote
  | 0x2d => .hyphen
  | 0x2f => .slash
  | 0x2a => .star
  | 0x0a => .newline
  | _ => .other

/-- The sign of a character. -/
def Sign.ofChar (c : Char) : Sign :=
  .ofCode c.toNat

/-- The bytes of a text as signs. -/
def byteSigns (sql : String) : List Sign :=
  sql.toByteArray.data.toList.map fun byte => Sign.ofCode byte.toNat

/-- The states of the automaton. -/
inductive Mode where
  | code
  | single
  | double
  | lineComment
  | blockComment
  deriving DecidableEq, Repr

/-- For every byte read from a state, whether it is code. Quotes and comment marks
are not, a doubled quote stays inside its string, the newline behind a line comment
is code, a block comment ends at the first end mark, and what is not ended goes on
to the end. -/
def Mode.read : Mode → List Sign → List Bool
  | _, [] => []
  | .code, .apostrophe :: rest => false :: read .single rest
  | .code, .quote :: rest => false :: read .double rest
  | .code, .hyphen :: .hyphen :: rest => false :: false :: read .lineComment rest
  | .code, .slash :: .star :: rest => false :: false :: read .blockComment rest
  | .code, _ :: rest => true :: read .code rest
  | .single, .apostrophe :: .apostrophe :: rest => false :: false :: read .single rest
  | .single, .apostrophe :: rest => false :: read .code rest
  | .single, _ :: rest => false :: read .single rest
  | .double, .quote :: .quote :: rest => false :: false :: read .double rest
  | .double, .quote :: rest => false :: read .code rest
  | .double, _ :: rest => false :: read .double rest
  | .lineComment, .newline :: rest => true :: read .code rest
  | .lineComment, _ :: rest => false :: read .lineComment rest
  | .blockComment, .star :: .slash :: rest => false :: false :: read .code rest
  | .blockComment, _ :: rest => false :: read .blockComment rest

/-- What the automaton finds of the bytes of a text, which it reads from the left. -/
def scan (sql : String) : List Bool :=
  Mode.code.read (byteSigns sql)

namespace Mode

/-! ## Bytes and pairs of bytes -/

/-- The characters that may lead out of a state. -/
def marks : Mode → List Char
  | .code => ['\'', '"', '-', '/']
  | .single => ['\'']
  | .double => ['"']
  | .lineComment => ['\n']
  | .blockComment => ['*']

/-- Any other byte leaves the automaton where it is. -/
theorem read_cons_of_notMem {m : Mode} {s : Sign} (h : s ∉ m.marks.map Sign.ofChar)
    (rest : List Sign) : m.read (s :: rest) = (m == .code) :: m.read rest := by
  have hmarks : m.marks.map Sign.ofChar = match m with
    | .code => [.apostrophe, .quote, .hyphen, .slash]
    | .single => [.apostrophe]
    | .double => [.quote]
    | .lineComment => [.newline]
    | .blockComment => [.star] := by cases m <;> rfl
  rw [hmarks] at h
  cases m <;> cases s <;> simp_all [read]

theorem other_notMem_marks (m : Mode) : Sign.other ∉ m.marks.map Sign.ofChar := by
  cases m <;> decide

theorem read_replicate_other (m : Mode) (n : Nat) (rest : List Sign) :
    m.read (List.replicate n .other ++ rest) =
      List.replicate n (m == .code) ++ m.read rest := by
  induction n with
  | zero => rfl
  | succ n ih =>
      rw [List.replicate_succ, List.cons_append, read_cons_of_notMem m.other_notMem_marks, ih]
      rfl

/-- A doubled quote closes its string and opens it again. -/
theorem read_single_apostrophe (rest : List Sign) :
    read .single (.apostrophe :: rest) = false :: read .code rest := by
  cases rest with
  | nil => rfl
  | cons s rest => cases s <;> rfl

theorem read_double_quote (rest : List Sign) :
    read .double (.quote :: rest) = false :: read .code rest := by
  cases rest with
  | nil => rfl
  | cons s rest => cases s <;> rfl

end Mode

/-- What the automaton reads from a region. Inside a comment mark its second byte is
still to come. -/
def Region.read : Region → List Sign → List Bool
  | .code, signs => Mode.read .code signs
  | .quoted q, signs => Mode.read (if q = '\'' then .single else .double) signs
  | .lineComment, signs => Mode.read .lineComment signs
  | .blockComment, signs => Mode.read .blockComment signs
  | .blockOpening, [] => []
  | .blockOpening, _ :: rest => false :: Mode.read .blockComment rest
  | .blockClosing, [] => []
  | .blockClosing, _ :: rest => false :: Mode.read .code rest

/-! ## Characters -/

/-- The signs of a text character by character: only the first byte of a character can
be a mark. -/
def charSigns (cs : List Char) : List Sign :=
  cs.flatMap fun c => Sign.ofChar c :: List.replicate (c.utf8Size - 1) .other

theorem charSigns_cons (c : Char) (cs : List Char) :
    charSigns (c :: cs) =
      Sign.ofChar c :: (List.replicate (c.utf8Size - 1) .other ++ charSigns cs) := rfl

/-- The sign of a mark is that of no other code. -/
theorem Sign.ofCode_eq_iff {m n : Nat} (hn : ofCode n ≠ .other) : ofCode m = ofCode n ↔ m = n := by
  refine ⟨fun h => ?_, fun h => by rw [h]⟩
  unfold ofCode at h hn
  split at h <;> split at h <;> simp_all

theorem Sign.ofChar_eq_iff {c d : Char} (hd : ofChar d ≠ .other) :
    ofChar c = ofChar d ↔ c = d :=
  (ofCode_eq_iff hd).trans Char.toNat_inj

theorem head?_charSigns_iff {d : Char} (hd : Sign.ofChar d ≠ .other) (cs : List Char) :
    (charSigns cs).head? = some (Sign.ofChar d) ↔ cs.head? = some d := by
  cases cs with
  | nil => simp [charSigns]
  | cons c cs => simp [charSigns_cons, Sign.ofChar_eq_iff hd]

theorem exists_utf8Size (c : Char) : ∃ n, c.utf8Size = n + 1 :=
  Nat.exists_eq_succ_of_ne_zero (Nat.ne_of_gt c.utf8Size_pos)

/-- A character that does not lead out of a state is read with all its bytes. -/
theorem Mode.read_charSigns {m : Mode} {c : Char} (h : c ∉ m.marks) (cs : List Char) :
    m.read (charSigns (c :: cs)) =
      List.replicate c.utf8Size (m == .code) ++ m.read (charSigns cs) := by
  have hsign : Sign.ofChar c ∉ m.marks.map Sign.ofChar := by
    intro hmem
    obtain ⟨d, hd, hcode⟩ := List.mem_map.mp hmem
    have hmark : Sign.ofChar d ≠ .other := by
      intro hother
      exact m.other_notMem_marks (hother ▸ List.mem_map_of_mem hd)
    rw [(Sign.ofChar_eq_iff hmark).mp hcode.symm] at h
    exact h hd
  obtain ⟨n, hsize⟩ := exists_utf8Size c
  rw [charSigns_cons, read_cons_of_notMem hsign, read_replicate_other, hsize, Nat.add_sub_cancel,
    List.replicate_succ]
  rfl

/-! ## The step and the run -/

/-- Whether a hyphen, a slash or an asterisk begins a comment mark or ends a comment is
seen at the character behind it. -/
theorem Mode.read_hyphen (cs : List Char) :
    Mode.code.read (charSigns ('-' :: cs)) =
      if cs.head? = some '-' then false :: Region.lineComment.read (charSigns cs)
      else true :: Region.code.read (charSigns cs) := by
  have hnext := head?_charSigns_iff (d := '-') (by decide) cs
  simp only [← hnext]
  show Mode.code.read (.hyphen :: charSigns cs) = _
  cases charSigns cs with
  | nil => rfl
  | cons s rest => cases s <;> simp [read, Region.read, Sign.ofChar, Sign.ofCode]

theorem Mode.read_slash (cs : List Char) :
    Mode.code.read (charSigns ('/' :: cs)) =
      if cs.head? = some '*' then false :: Region.blockOpening.read (charSigns cs)
      else true :: Region.code.read (charSigns cs) := by
  have hnext := head?_charSigns_iff (d := '*') (by decide) cs
  simp only [← hnext]
  show Mode.code.read (.slash :: charSigns cs) = _
  cases charSigns cs with
  | nil => rfl
  | cons s rest => cases s <;> rfl

theorem Mode.read_star (cs : List Char) :
    Mode.blockComment.read (charSigns ('*' :: cs)) =
      if cs.head? = some '/' then false :: Region.blockClosing.read (charSigns cs)
      else false :: Region.blockComment.read (charSigns cs) := by
  have hnext := head?_charSigns_iff (d := '/') (by decide) cs
  simp only [← hnext]
  show Mode.blockComment.read (.star :: charSigns cs) = _
  cases charSigns cs with
  | nil => rfl
  | cons s rest => cases s <;> rfl

/-- A character that leads out of neither the region nor its state. -/
theorem Region.read_of_notMem {r : Region} {m : Mode} {c : Char} {cs : List Char}
    (hr : r.read = m.read) (hc : c ∉ m.marks) (hstep : r.step c cs.head? = (r, m == .code)) :
    r.read (charSigns (c :: cs)) =
      List.replicate c.utf8Size (r.step c cs.head?).2 ++
        (r.step c cs.head?).1.read (charSigns cs) := by
  rw [hstep, hr]
  exact Mode.read_charSigns hc cs

/-- On one character the automaton does what the reader of characters does. -/
theorem Region.read_charSigns {r : Region} {c : Char} (h : r.Fits (some c)) (cs : List Char) :
    r.read (charSigns (c :: cs)) =
      List.replicate c.utf8Size (r.step c cs.head?).2 ++
        (r.step c cs.head?).1.read (charSigns cs) := by
  cases r with
  | code =>
      by_cases hmarks : c ∈ Mode.code.marks
      · simp only [Mode.marks, List.mem_cons, List.not_mem_nil, or_false] at hmarks
        rcases hmarks with rfl | rfl | rfl | rfl
        · rfl
        · rfl
        · refine (Mode.read_hyphen cs).trans ?_
          by_cases hnext : cs.head? = some '-' <;> simp [step, isQuote, hnext] <;> rfl
        · refine (Mode.read_slash cs).trans ?_
          by_cases hnext : cs.head? = some '*' <;> simp [step, isQuote, hnext] <;> rfl
      · have hstep : Region.code.step c cs.head? = (.code, true) := by
          simp_all [step, isQuote, Mode.marks]
        exact read_of_notMem rfl hmarks hstep
  | quoted q =>
      have hq : q = '\'' ∨ q = '"' := by
        have hquote : isQuote q = true := h
        rwa [isQuote, Bool.or_eq_true, beq_iff_eq, beq_iff_eq] at hquote
      by_cases hc : c = q
      · subst hc
        have hstep : (Region.quoted c).step c cs.head? = (.code, false) := by simp [step]
        rw [hstep]
        rcases hq with rfl | rfl
        · exact Mode.read_single_apostrophe (charSigns cs)
        · exact Mode.read_double_quote (charSigns cs)
      · have hstep : (Region.quoted q).step c cs.head? = (.quoted q, false) := by
          simp [step, hc]
        rcases hq with rfl | rfl
        · exact read_of_notMem (m := .single) rfl (by simpa [Mode.marks] using hc) hstep
        · exact read_of_notMem (m := .double) rfl (by simpa [Mode.marks] using hc) hstep
  | lineComment =>
      by_cases hc : c = '\n'
      · subst hc
        rfl
      · have hstep : Region.lineComment.step c cs.head? = (.lineComment, false) := by
          simp [step, hc]
        exact read_of_notMem (m := .lineComment) rfl (by simpa [Mode.marks] using hc) hstep
  | blockComment =>
      by_cases hc : c = '*'
      · subst hc
        refine (Mode.read_star cs).trans ?_
        by_cases hnext : cs.head? = some '/' <;> simp [step, hnext] <;> rfl
      · have hstep : Region.blockComment.step c cs.head? = (.blockComment, false) := by
          simp [step, hc]
        exact read_of_notMem (m := .blockComment) rfl (by simpa [Mode.marks] using hc) hstep
  | blockOpening =>
      obtain ⟨n, hsize⟩ := exists_utf8Size c
      rw [charSigns_cons, read, Mode.read_replicate_other, hsize]
      rfl
  | blockClosing =>
      -- the closing mark has its slash here
      obtain rfl : c = '/' := Option.some.inj h
      rfl

/-- The automaton reads a text as the reader of characters does, byte by byte. -/
theorem Region.read_eq_verdicts {r : Region} {cs : List Char} (h : r.Fits cs.head?) :
    r.read (charSigns cs) = verdicts (glyphsFrom r cs) := by
  induction cs generalizing r with
  | nil => cases r <;> simp [charSigns, read, Mode.read]
  | cons c cs ih =>
      rw [read_charSigns h, ih (Fits.step h cs.head?)]
      rfl

/-! ## Bytes of characters -/

theorem Sign.ofCode_of_le {n : Nat} (h : 128 ≤ n) : ofCode n = .other := by
  unfold ofCode
  split <;> first | omega | rfl

/-- A character beyond ASCII has no ASCII byte. -/
theorem le_of_mem_utf8EncodeChar {c : Char} (hc : 128 ≤ c.toNat) {byte : UInt8}
    (h : byte ∈ String.utf8EncodeChar c) : 128 ≤ byte.toNat := by
  have hlarge : ¬ c.val.toNat ≤ 0x7f := by
    rw [Char.toNat_val]
    omega
  unfold String.utf8EncodeChar at h
  simp only [hlarge, if_false] at h
  -- every byte of a longer character has its highest bit set
  split at h
  · simp only [List.mem_cons, List.not_mem_nil, or_false] at h
    rcases h with rfl | rfl <;> simp only [UInt8.toNat_ofNat'] <;> omega
  · split at h
    · simp only [List.mem_cons, List.not_mem_nil, or_false] at h
      rcases h with rfl | rfl | rfl <;> simp only [UInt8.toNat_ofNat'] <;> omega
    · simp only [List.mem_cons, List.not_mem_nil, or_false] at h
      rcases h with rfl | rfl | rfl | rfl <;> simp only [UInt8.toNat_ofNat'] <;> omega

theorem toNat_ofNat_of_lt {n : Nat} (h : n < 128) : (UInt8.ofNat n).toNat = n := by
  rw [UInt8.toNat_ofNat']
  omega

/-- An ASCII character is one byte. -/
theorem utf8EncodeChar_of_lt {c : Char} (h : c.toNat < 128) :
    String.utf8EncodeChar c = [UInt8.ofNat c.toNat] := by
  rw [← Char.toNat_val] at h ⊢
  rw [String.utf8EncodeChar, if_pos (by omega)]

/-- The bytes of a character as signs. -/
theorem map_utf8EncodeChar (c : Char) :
    (String.utf8EncodeChar c).map (fun byte => Sign.ofCode byte.toNat) =
      Sign.ofChar c :: List.replicate (c.utf8Size - 1) .other := by
  by_cases hc : 128 ≤ c.toNat
  · obtain ⟨n, hsize⟩ := exists_utf8Size c
    rw [Sign.ofChar, Sign.ofCode_of_le hc, hsize, Nat.add_sub_cancel, ← List.replicate_succ,
      List.eq_replicate_iff]
    refine ⟨by simp [hsize], fun s hs => ?_⟩
    obtain ⟨byte, hbyte, rfl⟩ := List.mem_map.mp hs
    exact Sign.ofCode_of_le (le_of_mem_utf8EncodeChar hc hbyte)
  · have hascii : c.toNat < 128 := by omega
    have hbyte : Sign.ofCode (UInt8.ofNat c.toNat).toNat = Sign.ofChar c := by
      rw [toNat_ofNat_of_lt hascii, Sign.ofChar]
    have hsize : c.utf8Size = 1 := by
      rw [← String.length_utf8EncodeChar, utf8EncodeChar_of_lt hascii, List.length_singleton]
    rw [utf8EncodeChar_of_lt hascii, List.map_singleton, hbyte, hsize]
    rfl

/-- The bytes of a text are those of its characters. -/
theorem toList_data_toByteArray (sql : String) :
    sql.toByteArray.data.toList = sql.toList.flatMap String.utf8EncodeChar := by
  rw [← String.utf8Encode_toList]
  exact List.toList_data_toByteArray

/-- Read by bytes or by characters, a text has the same signs. -/
theorem byteSigns_eq (sql : String) : byteSigns sql = charSigns sql.toList := by
  rw [byteSigns, toList_data_toByteArray, List.map_flatMap, charSigns]
  exact congrArg (List.flatMap · sql.toList) (funext map_utf8EncodeChar)

/-- Both readers find the same of a text. -/
theorem scan_eq_verdicts (sql : String) : scan sql = verdicts (glyphs sql.toList) := by
  have hfits : Region.code.Fits sql.toList.head? := trivial
  rw [glyphs, ← Region.read_eq_verdicts hfits, ← byteSigns_eq]
  rfl

/-! ## Spans -/

theorem utf8ByteSize_ofList (cs : List Char) : (String.ofList cs).utf8ByteSize = byteSize cs := by
  induction cs with
  | nil => rfl
  | cons c cs ih =>
      rw [String.ofList_cons, String.utf8ByteSize_append, String.utf8ByteSize_singleton, ih,
        byteSize]

/-- What stands before an edge of glyphs is some of them. -/
theorem exists_of_mem_edges {pos e : Nat} {gs : List Glyph} (h : e ∈ edges pos gs) :
    ∃ front back, gs = front ++ back ∧ e = pos + byteSize (front.map Glyph.char) := by
  induction gs generalizing pos with
  | nil => exact ⟨[], [], rfl, by simpa [edges, byteSize] using h⟩
  | cons g gs ih =>
      rcases List.mem_cons.mp h with rfl | h
      · exact ⟨[], g :: gs, rfl, by simp [byteSize]⟩
      · obtain ⟨front, back, rfl, rfl⟩ := ih h
        exact ⟨g :: front, back, rfl, by simp [byteSize, Glyph.size, Nat.add_assoc]⟩

/-- An edge of the glyphs of a text is a position in the text. -/
theorem isValid_of_mem_edges {sql : String} {e : Nat} (h : e ∈ edges 0 (glyphs sql.toList)) :
    (⟨e⟩ : String.Pos.Raw).IsValid sql := by
  obtain ⟨front, back, hglyphs, rfl⟩ := exists_of_mem_edges h
  have htext : sql =
      String.ofList (front.map Glyph.char) ++ String.ofList (back.map Glyph.char) := by
    rw [← String.ofList_append, ← List.map_append, ← hglyphs, map_char_glyphs,
      String.ofList_toList]
  have hend : (⟨0 + byteSize (front.map Glyph.char)⟩ : String.Pos.Raw) =
      (String.ofList (front.map Glyph.char)).rawEndPos := by
    rw [← utf8ByteSize_ofList, Nat.zero_add]
    rfl
  rw [htext, hend]
  exact String.Pos.Raw.isValid_rawEndPos.append_right _

/-- The spans of code are what the automaton finds to be code, on every text. It says
something of every byte; a byte lies in a span just if it is found to be code; no
span is empty, each begins and ends at a character, and between two of them an
opaque byte was found. -/
theorem codeSpans_automaton (sql : String) :
    (scan sql).length = sql.utf8ByteSize ∧
      (∀ i, (∃ span ∈ codeSpans sql, span.start ≤ i ∧ i < span.stop) ↔
        (scan sql)[i]? = some true) ∧
      (∀ span ∈ codeSpans sql, span.start < span.stop ∧
        (⟨span.start⟩ : String.Pos.Raw).IsValid sql ∧
        (⟨span.stop⟩ : String.Pos.Raw).IsValid sql) ∧
      (codeSpans sql).Pairwise fun a b =>
        ∃ i, a.stop ≤ i ∧ i < b.start ∧ (scan sql)[i]? = some false := by
  have hnone : ∀ s ∈ (none : Option Nat), s < 0 := by simp
  rw [scan_eq_verdicts, codeSpans]
  refine ⟨?_, fun i => ?_, fun span hspan => ?_, ?_⟩
  · rw [length_verdicts, map_char_glyphs, ← utf8ByteSize_ofList, String.ofList_toList]
  · have hcovers := @exists_mem_spansFrom_iff 0 none (glyphs sql.toList) (by simp) i
    simpa [Span.Covers] using hcovers
  · obtain ⟨-, hlt, hstart, hstop⟩ := edges_of_mem_spansFrom hnone hspan
    exact ⟨hlt, isValid_of_mem_edges hstart, isValid_of_mem_edges hstop⟩
  · exact @pairwise_spansFrom [] none (glyphs sql.toList) hnone

end BoundSql.Lexical
