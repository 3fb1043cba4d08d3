import BoundSql.Proofs.Lexical.Automaton

/-!
# The spans of code by an index

`codeSpansByIndex` finds the spans of code with an index that runs over the bytes of a text.
It looks one byte ahead for doubled quotes and for comment marks. Behind a block comment it
steps over the two bytes of the end mark whether there is one or not, and is put back to the
end of the text. It finds the spans that the reader of characters finds
(`codeSpansByIndex_eq`).

The automaton stands between the two. An inner loop passes the bytes of one quote or comment,
and ends where the automaton is back in code (`Mode.Passes`); the outer loop goes from one to
the next.
-/

namespace BoundSql.Lexical

/-! ## Inner loops -/

section Loops

variable (bs : Array UInt8)

/-- The end of a quote that byte `i` belongs to: behind the first quotation mark that is not
doubled. -/
def quoteEnd (mark : UInt8) (i : Nat) : Nat :=
  if h : i < bs.size then
    if bs[i] = mark then
      if bs[i + 1]? = some mark then quoteEnd mark (i + 2) else i + 1
    else quoteEnd mark (i + 1)
  else i
termination_by bs.size - i

/-- The end of a line comment that byte `i` belongs to: at the newline. -/
def lineEnd (i : Nat) : Nat :=
  if h : i < bs.size then
    if bs[i] = 0x0a then i else lineEnd (i + 1)
  else i
termination_by bs.size - i

/-- The first end mark of a block comment from byte `i` on. -/
def blockEndMark (i : Nat) : Nat :=
  if h : i < bs.size then
    if bs[i] = 0x2a ∧ bs[i + 1]? = some 0x2f then i else blockEndMark (i + 1)
  else i
termination_by bs.size - i

/-- The end of the quote or comment that begins at byte `i`. -/
def opaqueEnd? (i : Nat) (h : i < bs.size) : Option Nat :=
  if bs[i] = 0x27 ∨ bs[i] = 0x22 then some (quoteEnd bs bs[i] (i + 1))
  else if bs[i] = 0x2d ∧ bs[i + 1]? = some 0x2d then some (lineEnd bs i)
  else if bs[i] = 0x2f ∧ bs[i + 1]? = some 0x2a then
    some (min (blockEndMark bs (i + 2) + 2) bs.size)
  else none

end Loops

/-! ## Bytes as signs -/

/-- The signs of the bytes from byte `i` on. -/
def signsFrom (bs : Array UInt8) (i : Nat) : List Sign :=
  (bs.toList.drop i).map fun byte => Sign.ofCode byte.toNat

/-- The sign of a mark is that of no other byte. -/
theorem Sign.ofCode_toNat_eq_iff {a b : UInt8} (hb : ofCode b.toNat ≠ .other) :
    ofCode a.toNat = ofCode b.toNat ↔ a = b :=
  (ofCode_eq_iff hb).trans UInt8.toNat_inj

variable {bs : Array UInt8} {i j : Nat}

theorem signsFrom_of_lt (h : i < bs.size) :
    signsFrom bs i = Sign.ofCode bs[i].toNat :: signsFrom bs (i + 1) := by
  rw [signsFrom, List.drop_eq_getElem_cons (by simpa using h)]
  rfl

theorem signsFrom_of_le (h : bs.size ≤ i) : signsFrom bs i = [] := by
  rw [signsFrom, List.drop_of_length_le (by simpa using h)]
  rfl

/-- A mark at a byte is seen in the signs. -/
theorem head?_signsFrom_iff {b : UInt8} (hb : Sign.ofCode b.toNat ≠ .other) :
    (signsFrom bs i).head? = some (Sign.ofCode b.toNat) ↔ bs[i]? = some b := by
  by_cases h : i < bs.size
  · rw [signsFrom_of_lt h, List.head?_cons, Array.getElem?_eq_getElem h, Option.some.injEq,
      Option.some.injEq, Sign.ofCode_toNat_eq_iff hb]
  · rw [signsFrom_of_le (by omega), Array.getElem?_eq_none (by omega)]
    simp

/-! ## The automaton in the loops -/

namespace Mode

/-- The automaton finds nothing from byte `i` to byte `j` to be code, and is in code there. -/
structure Passes (bs : Array UInt8) (m : Mode) (i j : Nat) : Prop where
  le : i ≤ j
  le_size : j ≤ bs.size
  read_eq : m.read (signsFrom bs i) =
    List.replicate (j - i) false ++ Mode.code.read (signsFrom bs j)

/-- Bytes that are passed before others. -/
theorem Passes.behind {m m' : Mode} {n : Nat} (h : m'.Passes bs (i + n) j)
    (hread : m.read (signsFrom bs i) =
      List.replicate n false ++ m'.read (signsFrom bs (i + n))) : m.Passes bs i j where
  le := Nat.le_of_add_right_le h.le
  le_size := h.le_size
  read_eq := by
    have hle := h.le
    have hlength : j - i = n + (j - (i + n)) := by omega
    rw [hread, h.read_eq, hlength, ← List.replicate_append_replicate, List.append_assoc]

theorem Passes.cons {m m' : Mode} (h : m'.Passes bs (i + 1) j)
    (hread : m.read (signsFrom bs i) = false :: m'.read (signsFrom bs (i + 1))) :
    m.Passes bs i j :=
  h.behind hread

theorem Passes.refl (h : i ≤ bs.size) : Mode.code.Passes bs i i :=
  ⟨Nat.le_refl i, h, by simp⟩

/-- At the end of the text no state is left to leave. -/
theorem passes_size (m : Mode) : m.Passes bs bs.size bs.size where
  le := Nat.le_refl _
  le_size := Nat.le_refl _
  read_eq := by
    rw [signsFrom_of_le (Nat.le_refl _)]
    cases m <;> simp [read]

/-- Where one mark alone leads out of a state, any other byte stays in it. -/
theorem read_of_ne_mark {m : Mode} {mark byte : UInt8}
    (hmarks : m.marks.map Sign.ofChar = [Sign.ofCode mark.toNat])
    (hmark : Sign.ofCode mark.toNat ≠ .other) (hbyte : byte ≠ mark) (rest : List Sign) :
    m.read (Sign.ofCode byte.toNat :: rest) = (m == .code) :: m.read rest := by
  refine read_cons_of_notMem ?_ rest
  rw [hmarks, List.mem_singleton, Sign.ofCode_toNat_eq_iff hmark]
  exact hbyte

/-- The sign and the state of a quotation mark. -/
inductive OfQuote : UInt8 → Sign → Mode → Prop
  | apostrophe : OfQuote 0x27 .apostrophe .single
  | quote : OfQuote 0x22 .quote .double

variable {mark : UInt8} {s : Sign} {m : Mode}

theorem OfQuote.sign_eq (h : OfQuote mark s m) : Sign.ofCode mark.toNat = s := by
  cases h <;> rfl

/-- A quotation mark opens a quote in code, and closes it within. -/
theorem OfQuote.read (h : OfQuote mark s m) (rest : List Sign) :
    Mode.code.read (s :: rest) = false :: m.read rest ∧
      m.read (s :: rest) = false :: Mode.code.read rest := by
  cases h with
  | apostrophe => exact ⟨by cases rest <;> rfl, read_single_apostrophe rest⟩
  | quote => exact ⟨by cases rest <;> rfl, read_double_quote rest⟩

theorem OfQuote.read_of_ne (h : OfQuote mark s m) {byte : UInt8} (hbyte : byte ≠ mark)
    (rest : List Sign) :
    m.read (Sign.ofCode byte.toNat :: rest) = false :: m.read rest := by
  cases h with
  | apostrophe => exact read_of_ne_mark rfl (by decide) hbyte rest
  | quote => exact read_of_ne_mark rfl (by decide) hbyte rest

theorem passes_quoteEnd (hmark : OfQuote mark s m) (hi : i ≤ bs.size) :
    m.Passes bs i (quoteEnd bs mark i) := by
  fun_induction quoteEnd bs mark i with
  | case1 i h hquote hdouble ih =>
      obtain ⟨hnext, hbyte⟩ := Array.getElem?_eq_some_iff.mp hdouble
      have hrest : Mode.code.Passes bs (i + 1) (quoteEnd bs mark (i + 2)) := by
        refine (ih (by omega)).cons ?_
        rw [signsFrom_of_lt hnext, hbyte, hmark.sign_eq]
        exact (hmark.read _).1
      refine hrest.cons ?_
      rw [signsFrom_of_lt h, hquote, hmark.sign_eq]
      exact (hmark.read _).2
  | case2 i h hquote hsingle =>
      refine (Passes.refl (by omega)).cons ?_
      rw [signsFrom_of_lt h, hquote, hmark.sign_eq]
      exact (hmark.read _).2
  | case3 i h hother ih =>
      refine (ih (by omega)).cons ?_
      rw [signsFrom_of_lt h]
      exact hmark.read_of_ne hother _
  | case4 i h =>
      obtain rfl : i = bs.size := by omega
      exact m.passes_size

theorem passes_lineEnd (hi : i ≤ bs.size) : Mode.lineComment.Passes bs i (lineEnd bs i) := by
  fun_induction lineEnd bs i with
  | case1 i h hnewline =>
      -- the newline is code in both states
      refine ⟨Nat.le_refl i, hi, ?_⟩
      rw [signsFrom_of_lt h, hnewline, Nat.sub_self]
      rfl
  | case2 i h hother ih =>
      refine (ih (by omega)).cons ?_
      rw [signsFrom_of_lt h]
      exact read_of_ne_mark rfl (by decide) hother _
  | case3 i h =>
      obtain rfl : i = bs.size := by omega
      exact passes_size _

/-- An asterisk goes on with a block comment unless a slash comes next. -/
theorem read_blockComment {s : Sign} {rest : List Sign}
    (h : ¬ (s = .star ∧ rest.head? = some .slash)) :
    Mode.blockComment.read (s :: rest) = false :: Mode.blockComment.read rest := by
  cases s with
  | star =>
      cases rest with
      | nil => rfl
      | cons t rest => cases t <;> first | rfl | simp at h
  | _ => exact read_cons_of_notMem (by decide) rest

/-- Two bytes are passed with the end mark, and none at the end of the text. -/
theorem passes_blockEnd (hi : i ≤ bs.size) :
    Mode.blockComment.Passes bs i (min (blockEndMark bs i + 2) bs.size) := by
  fun_induction blockEndMark bs i with
  | case1 i h hmark =>
      obtain ⟨hstar, hslash⟩ := hmark
      obtain ⟨hnext, hbyte⟩ := Array.getElem?_eq_some_iff.mp hslash
      rw [Nat.min_eq_left (by omega)]
      refine ⟨by omega, by omega, ?_⟩
      rw [signsFrom_of_lt h, signsFrom_of_lt hnext, hstar, hbyte, Nat.add_sub_cancel_left]
      rfl
  | case2 i h hother ih =>
      refine (ih (by omega)).cons ?_
      rw [signsFrom_of_lt h]
      refine read_blockComment fun hmark => hother ?_
      exact ⟨(Sign.ofCode_toNat_eq_iff (b := 0x2a) (by decide)).mp hmark.1,
        (head?_signsFrom_iff (b := 0x2f) (by decide)).mp hmark.2⟩
  | case3 i h =>
      obtain rfl : i = bs.size := by omega
      rw [Nat.min_eq_right (by omega)]
      exact passes_size _

/-- What begins no quote and no comment is code. -/
theorem read_code {s : Sign} {rest : List Sign} (hquote : s ≠ .apostrophe ∧ s ≠ .quote)
    (hline : ¬ (s = .hyphen ∧ rest.head? = some .hyphen))
    (hblock : ¬ (s = .slash ∧ rest.head? = some .star)) :
    Mode.code.read (s :: rest) = true :: Mode.code.read rest := by
  cases s with
  | apostrophe => simp at hquote
  | quote => simp at hquote
  | hyphen =>
      cases rest with
      | nil => rfl
      | cons t rest => cases t <;> first | rfl | simp at hline
  | slash =>
      cases rest with
      | nil => rfl
      | cons t rest => cases t <;> first | rfl | simp at hblock
  | _ => exact read_cons_of_notMem (by decide) rest

/-- From its first byte on a quote or a comment is passed. -/
theorem passes_opaqueEnd {h : i < bs.size} (hend : opaqueEnd? bs i h = some j) :
    i < j ∧ Mode.code.Passes bs i j := by
  have hsigns := signsFrom_of_lt h
  unfold opaqueEnd? at hend
  split at hend
  · rename_i hmark
    obtain ⟨s, m, hquote⟩ : ∃ s m, OfQuote bs[i] s m := by
      rcases hmark with hbyte | hbyte <;> rw [hbyte]
      · exact ⟨_, _, .apostrophe⟩
      · exact ⟨_, _, .quote⟩
    obtain rfl := Option.some.inj hend
    have hpasses := passes_quoteEnd hquote (show i + 1 ≤ bs.size from h)
    refine ⟨hpasses.le, hpasses.cons ?_⟩
    rw [hsigns, hquote.sign_eq]
    exact (hquote.read _).1
  split at hend
  · rename_i hmark
    obtain ⟨hfirst, hsecond⟩ := hmark
    obtain ⟨hnext, hbyte⟩ := Array.getElem?_eq_some_iff.mp hsecond
    obtain rfl := Option.some.inj hend
    -- the loop begins at the mark, which holds no newline
    have hskip : lineEnd bs i = lineEnd bs (i + 2) := by
      rw [lineEnd, dif_pos h, if_neg (by simp [hfirst]), lineEnd, dif_pos hnext,
        if_neg (by simp [hbyte])]
    have hpasses := passes_lineEnd (show i + 2 ≤ bs.size from hnext)
    rw [hskip]
    refine ⟨Nat.lt_of_succ_le (Nat.le_of_succ_le hpasses.le), hpasses.behind ?_⟩
    rw [hsigns, signsFrom_of_lt hnext, hfirst, hbyte]
    rfl
  split at hend
  · rename_i hmark
    obtain ⟨hfirst, hsecond⟩ := hmark
    obtain ⟨hnext, hbyte⟩ := Array.getElem?_eq_some_iff.mp hsecond
    obtain rfl := Option.some.inj hend
    have hpasses := passes_blockEnd (show i + 2 ≤ bs.size from hnext)
    refine ⟨Nat.lt_of_succ_le (Nat.le_of_succ_le hpasses.le), hpasses.behind ?_⟩
    rw [hsigns, signsFrom_of_lt hnext, hfirst, hbyte]
    rfl
  · cases hend

/-- Where no quote and no comment begins, there is a byte of code. -/
theorem read_of_opaqueEnd_eq_none {h : i < bs.size} (hend : opaqueEnd? bs i h = none) :
    Mode.code.read (signsFrom bs i) = true :: Mode.code.read (signsFrom bs (i + 1)) := by
  unfold opaqueEnd? at hend
  split at hend
  · cases hend
  rename_i hquote
  split at hend
  · cases hend
  rename_i hline
  split at hend
  · cases hend
  rename_i hblock
  have hsign : ∀ mark : UInt8, Sign.ofCode mark.toNat ≠ .other →
      (Sign.ofCode bs[i].toNat = Sign.ofCode mark.toNat ↔ bs[i] = mark) :=
    fun mark hmark => Sign.ofCode_toNat_eq_iff hmark
  rw [not_or] at hquote
  rw [signsFrom_of_lt h]
  refine read_code ⟨?_, ?_⟩ ?_ ?_
  · exact mt (hsign 0x27 (by decide)).mp hquote.1
  · exact mt (hsign 0x22 (by decide)).mp hquote.2
  · exact fun hmark => hline ⟨(hsign 0x2d (by decide)).mp hmark.1,
      (head?_signsFrom_iff (b := 0x2d) (by decide)).mp hmark.2⟩
  · exact fun hmark => hblock ⟨(hsign 0x2f (by decide)).mp hmark.1,
      (head?_signsFrom_iff (b := 0x2a) (by decide)).mp hmark.2⟩

end Mode

/-! ## The outer loop -/

/-- The span from byte `start` as far as byte `stop`, if it holds anything. -/
def spanBetween (start stop : Nat) : List Span :=
  if start < stop then [⟨start, stop⟩] else []

/-- The spans of code from byte `i` on, behind code since byte `start`. -/
def spansByIndex (bs : Array UInt8) (start i : Nat) : List Span :=
  if h : i < bs.size then
    match hend : opaqueEnd? bs i h with
    | some j => spanBetween start i ++ spansByIndex bs j j
    | none => spansByIndex bs start (i + 1)
  else spanBetween start bs.size
termination_by bs.size - i
decreasing_by
  · have hlt := (Mode.passes_opaqueEnd hend).1
    omega
  · omega

/-- The spans of code of a text by an index into its bytes. -/
def codeSpansByIndex (sql : String) : List Span :=
  spansByIndex sql.toByteArray.data 0 0

/-! ## Runs of verdicts -/

/-- The runs of code in a list that says of every byte from byte `pos` on whether it is code,
where a run may have been open since byte `since`. -/
def runsFrom (pos : Nat) (since : Option Nat) : List Bool → List Span
  | [] => (since.map (⟨·, pos⟩)).toList
  | true :: verdicts => runsFrom (pos + 1) (some (since.getD pos)) verdicts
  | false :: verdicts => (since.map (⟨·, pos⟩)).toList ++ runsFrom (pos + 1) none verdicts

theorem runsFrom_replicate_true (pos n : Nat) (since : Option Nat) (vs : List Bool) :
    runsFrom pos since (List.replicate (n + 1) true ++ vs) =
      runsFrom (pos + (n + 1)) (some (since.getD pos)) vs := by
  induction n generalizing pos since with
  | zero => rfl
  | succ n ih =>
      rw [List.replicate_succ, List.cons_append, runsFrom, ih, Option.getD_some]
      congr 1
      omega

theorem runsFrom_replicate_false (pos n : Nat) (since : Option Nat) (vs : List Bool) :
    runsFrom pos since (List.replicate (n + 1) false ++ vs) =
      (since.map (⟨·, pos⟩)).toList ++ runsFrom (pos + (n + 1)) none vs := by
  induction n generalizing pos since with
  | zero => rfl
  | succ n ih =>
      rw [List.replicate_succ, List.cons_append, runsFrom, ih, Option.map_none, Option.toList_none,
        List.nil_append]
      congr 2
      omega

/-- The spans of code are the runs of what is found of the bytes. -/
theorem spansFrom_eq_runsFrom (pos : Nat) (since : Option Nat) (gs : List Glyph) :
    spansFrom pos since gs = runsFrom pos since (verdicts gs) := by
  induction gs generalizing pos since with
  | nil => rfl
  | cons g gs ih =>
      obtain ⟨n, hsize⟩ := Nat.exists_eq_succ_of_ne_zero (Nat.ne_of_gt g.size_pos)
      rw [verdicts_cons, hsize]
      cases hcode : g.code with
      | true => rw [spansFrom_of_code hcode, runsFrom_replicate_true, ih, hsize]
      | false => rw [spansFrom_of_not_code hcode, runsFrom_replicate_false, ih, hsize]

/-! ## The loop and the automaton -/

/-- The run that is open at byte `i`, behind code since byte `start`. -/
def openSince (start i : Nat) : Option Nat :=
  if start < i then some start else none

theorem toList_openSince (start i : Nat) :
    ((openSince start i).map (⟨·, i⟩)).toList = spanBetween start i := by
  unfold openSince spanBetween
  split <;> rfl

theorem openSince_succ {start : Nat} (h : start ≤ i) :
    some ((openSince start i).getD i) = openSince start (i + 1) := by
  unfold openSince
  rw [if_pos (show start < i + 1 by omega)]
  split
  · rfl
  · exact congrArg some (show i = start by omega)

/-- From any byte on the outer loop finds the runs of what the automaton finds. -/
theorem spansByIndex_eq_runsFrom {start : Nat} (hstart : start ≤ i) (hi : i ≤ bs.size) :
    spansByIndex bs start i =
      runsFrom i (openSince start i) (Mode.code.read (signsFrom bs i)) := by
  fun_induction spansByIndex bs start i with
  | case1 start i h j hend ih =>
      obtain ⟨hlt, hpasses⟩ := Mode.passes_opaqueEnd hend
      obtain ⟨n, hn⟩ : ∃ n, j - i = n + 1 := ⟨j - i - 1, by omega⟩
      have hnone : openSince j j = none := if_neg (Nat.lt_irrefl j)
      rw [ih (Nat.le_refl j) hpasses.le_size, hnone, hpasses.read_eq, hn, runsFrom_replicate_false,
        toList_openSince, ← hn, Nat.add_sub_cancel' (Nat.le_of_lt hlt)]
  | case2 start i h hend ih =>
      rw [ih (by omega) (by omega), Mode.read_of_opaqueEnd_eq_none hend, runsFrom,
        openSince_succ hstart]
  | case3 start i h =>
      obtain rfl : i = bs.size := by omega
      rw [signsFrom_of_le (Nat.le_refl _), Mode.read, runsFrom, toList_openSince]

/-- The index finds the spans of code, on every text. -/
theorem codeSpansByIndex_eq (sql : String) : codeSpansByIndex sql = codeSpans sql := by
  have hsigns : signsFrom sql.toByteArray.data 0 = byteSigns sql := by
    rw [signsFrom, List.drop_zero]
    rfl
  rw [codeSpansByIndex, spansByIndex_eq_runsFrom (Nat.le_refl 0) (Nat.zero_le _), hsigns, codeSpans,
    spansFrom_eq_runsFrom, ← scan_eq_verdicts]
  rfl

end BoundSql.Lexical
