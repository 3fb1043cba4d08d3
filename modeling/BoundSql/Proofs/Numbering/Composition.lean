import BoundSql.Proofs.Numbering.Gate
import BoundSql.Proofs.Splicing.Moved

/-!
# Counting markers in combinations

A combination of two conditions holds the text of the first one, a keyword and the text of
the second one, numbered from where the first one ends. Its markers are those of its parts
if two things hold: the first text leaves no quote and no comment open, so that the second
one is read like a text of its own; and digits of the second one do not run on behind a
written number, which could become too large to be read.

Nothing else is asked of the parts, so this goes further than counting in clean statements
does: raw SQL may swallow its own markers, fields may be forged, and the second part may be
left open. `Renumberable` follows the pieces of the second condition, and says that they
write renumbered texts behind different numbers of binds.
-/

namespace BoundSql

open Lexical

/-! ## Behind an open text -/

namespace Lexical

/-- Reading up to a closing parenthesis is reading up to the end. -/
theorem glyphsBefore_parenthesis (r : Region) (cs : List Char) :
    glyphsBefore r (some ')') cs = glyphsFrom r cs := by
  induction cs generalizing r with
  | nil => rfl
  | cons c cs ih =>
      have hstep : r.step c (cs.head?.or (some ')')) = r.step c cs.head? := by
        cases cs with
        | nil => cases r <;> simp [Region.step]
        | cons d ds => rfl
      simp only [glyphsBefore, glyphsFrom_cons, hstep, ih]

/-- A closing parenthesis shows no marker, not even behind a text that is left open. -/
theorem marks_append_parenthesis (style : MarkerStyle) (cs : List Char) :
    style.marks (cs ++ [')']) = style.marks cs := by
  have hopen : ∀ code, ¬ StartsInDigit [⟨')', code⟩] := by
    rintro code ⟨g, hg, -, hdigit⟩
    obtain rfl := Option.some.inj hg
    simp [Char.isDigit] at hdigit
  rw [MarkerStyle.marks, lexemes, glyphs, glyphsFrom_append, List.head?_cons,
    glyphsBefore_parenthesis, glyphsFrom_cons, glyphsFrom_nil,
    lexemesFrom_append fun h => absurd h (hopen _), List.filterMap_append]
  refine List.append_right_eq_self.mpr ?_
  cases style <;> simp [lexemesFrom, MarkerStyle.mark?, Glyph.isPlaceholder]

/-- Renumbered texts have equally many numbered marks. -/
theorem Renumbered.length_marks {cs es : List Char} (h : Renumbered cs es) :
    (MarkerStyle.numbered.marks cs).length = (MarkerStyle.numbered.marks es).length := by
  have hmarks : ∀ cs, MarkerStyle.numbered.marks cs = (numbersFrom .code false cs).map some := by
    intro cs
    have hcs := MarkerStyle.marks_numbered (String.ofList cs)
    rwa [markerIndices_eq_numbersFrom, String.toList_ofList] at hcs
  rw [hmarks, hmarks, List.length_map, List.length_map]
  have hfits : Region.code.Fits cs.head? := by
    cases cs <;> trivial
  exact h.length_numbersFrom hfits false

end Lexical

/-! ## Pieces behind other binds -/

namespace Piece

/-- Pieces whose text behind `offset` more binds is a renumbered one. -/
def Renumbers (b : Backend) (offset : Nat) (ps : List Piece) : Prop :=
  ∀ count, Renumbered (written b count ps) (written b (count + offset) ps)

variable {b : Backend} {offset : Nat} {ps qs : List Piece}

theorem renumbers_nil : Renumbers b offset [] :=
  fun _ => .nil

/-- Pieces whose text does not depend on the binds before them. -/
theorem renumbers_of_eq (h : ∀ i j, written b i ps = written b j ps) :
    Renumbers b offset ps := by
  intro count
  rw [h count (count + offset)]
  exact .refl _

theorem renumbers_text (s : String) : Renumbers b offset [.text s] :=
  renumbers_of_eq fun _ _ => rfl

theorem renumbers_fail (error : Error) : Renumbers b offset [.fail error] :=
  renumbers_of_eq fun _ _ => rfl

/-- Numbers end where pieces that start with no digit come next. -/
theorem Renumbers.append (hp : Renumbers b offset ps) (hq : Renumbers b offset qs)
    (hstop : ∀ count, leadingDigits (written b count qs) = []) :
    Renumbers b offset (ps ++ qs) := by
  intro count
  have hbehind := hq (count + (binds ps).length)
  rw [Nat.add_right_comm] at hbehind
  rw [written_append, written_append]
  exact (hp count).append hbehind (hstop _)

/-- Words can stand before anything. -/
theorem Renumbers.glue (hq : Renumbers b offset qs) (s : String) :
    Renumbers b offset (.text s :: qs) := by
  intro count
  exact (hq count).append_left s.toList

theorem leadingDigits_of_leads {s : String} (h : Leads s) (cs : List Char) :
    leadingDigits (s.toList ++ cs) = [] := by
  obtain ⟨c, hc, hsep⟩ := h
  rw [leadingDigits_eq_nil_iff, List.head?_append, Option.mem_def.mp hc]
  rintro d ⟨⟩
  exact not_isDigit_of_isSeparator hsep

theorem Renumbers.join {s : String} (hp : Renumbers b offset ps)
    (hq : Renumbers b offset qs) (hlead : Leads s := by decide) :
    Renumbers b offset (ps ++ .text s :: qs) :=
  hp.append (hq.glue s) fun _ => leadingDigits_of_leads hlead _

theorem Renumbers.shut {s : String} (hp : Renumbers b offset ps)
    (hlead : Leads s := by decide) : Renumbers b offset (ps ++ [.text s]) :=
  hp.join renumbers_nil hlead

/-- Mentioned identifiers are not written. -/
theorem Renumbers.mentions {ms : List Piece} (hms : ∀ p ∈ ms, ∃ ident, p = .mention ident)
    (hq : Renumbers b offset qs) : Renumbers b offset (ms ++ qs) := by
  induction ms with
  | nil => exact hq
  | cons p ms ih =>
      obtain ⟨ident, rfl⟩ := hms p (by simp)
      exact ih fun q hq => hms q (by simp [hq])

theorem Renumbers.commaSeparated {lists : List (List Piece)}
    (h : ∀ ps ∈ lists, Renumbers b offset ps) :
    Renumbers b offset (commaSeparated lists) := by
  fun_induction Piece.commaSeparated lists with
  | case1 => exact renumbers_nil
  | case2 ps => exact h ps (by simp)
  | case3 ps rest hrest ih => exact (h ps (by simp)).join (ih fun qs hqs => h qs (by simp [hqs]))

variable (hstyle : b.markerStyle = .numbered)

include hstyle

theorem renumbers_bind (value : Bind) : Renumbers b offset [.bind value] := by
  intro count
  have hnumeral : ∀ index, Numeral (Text.digits (wrapIndex index)) :=
    fun index => numeral_digits (wrapIndex_lt index)
  have h := Renumbered.numeral (hnumeral (count + 1)) (hnumeral (count + offset + 1))
    leadingDigits_nil .nil
  simpa [ownText, Backend.marker, hstyle, MarkerStyle.marker] using h

/-- What has been moved behind other binds can be moved on. -/
theorem renumbers_fragment {q : Compiled} (hbackend : q.backend = b) :
    Renumbers b offset [.fragment q] := by
  intro count
  obtain rfl := hbackend
  have h := renumbered_rebase (rebase q.sql count) offset
  rw [rebase_rebase] at h
  simpa [ownText, Compiled.rebasedSql, hstyle] using h

end Piece

/-! ## Renumberable conditions -/

open Piece

/-- Raw SQL with no placeholder directly before a digit. -/
def RawSql.Unfollowed (raw : RawSql) : Prop :=
  (glyphs raw.sql.toList).IsChain fun g h => g.isPlaceholder = true → h.char.isDigit = false

instance (raw : RawSql) : Decidable raw.Unfollowed :=
  inferInstanceAs (Decidable ((glyphs raw.sql.toList).IsChain fun g h =>
    g.isPlaceholder = true → h.char.isDigit = false))

/-- A condition whose numbers can be raised: in raw SQL no digits run on behind a number.
Nothing is asked where markers are placeholders. -/
def Expr.Renumberable (b : Backend) (e : Expr) : Prop :=
  b.markerStyle = .numbered → ∀ raw ∈ e.raws, raw.Unfollowed

section Numbered

variable {b : Backend} {offset : Nat}

theorem Field.renumbers_pieces (f : Field) : Renumbers b offset (f.pieces b) := by
  unfold Field.pieces
  split
  · exact renumbers_text _
  · split <;> exact renumbers_of_eq fun _ _ => rfl

variable {field : List Piece}

theorem renumbers_nullTest (hfield : Renumbers b offset field) (negated : Bool) :
    Renumbers b offset (nullTest negated field) := by
  cases negated <;> exact hfield.shut

variable (hstyle : b.markerStyle = .numbered)

include hstyle

theorem Compiled.renumbers_pieces (q : Compiled) : Renumbers b offset (q.pieces b) := by
  unfold Compiled.pieces
  split
  · rename_i hbackend
    exact renumbers_fragment hstyle hbackend
  · exact renumbers_fail _

theorem Membership.renumbers_pieces (m : Membership) : Renumbers b offset (m.pieces b) := by
  have hquery : Renumbers b offset (m.query.pieces b) := m.query.renumbers_pieces hstyle
  have hfield : Renumbers b offset (m.field.pieces b) := m.field.renumbers_pieces
  unfold Membership.pieces
  refine Renumbers.shut ?_
  cases m.negated <;> exact hfield.join hquery

theorem renumbers_comparison (hfield : Renumbers b offset field) (token : String)
    (value : Bind) : Renumbers b offset (comparison field token value) := by
  have hspace : Leads " " := by decide
  exact hfield.join (renumbers_bind hstyle value) ((hspace.append token).append " ")

theorem renumbers_valueList (hfield : Renumbers b offset field) (negated : Bool)
    (values : List Bind) : Renumbers b offset (valueList negated field values) := by
  have hvalues : Renumbers b offset
      (commaSeparated (values.map fun value => [.bind value])) := by
    refine Renumbers.commaSeparated fun ps hps => ?_
    obtain ⟨value, -, rfl⟩ := List.mem_map.mp hps
    exact renumbers_bind hstyle value
  unfold valueList
  refine Renumbers.shut ?_
  cases negated <;> exact hfield.join hvalues

theorem renumbers_listTest (hfield : Renumbers b offset field) (negated : Bool)
    (binds : List Bind) : Renumbers b offset (listTest negated field binds) := by
  unfold listTest
  simp only []
  split
  · exact Renumbers.mentions mem_mentions (renumbers_text _)
  · split
    · exact renumbers_nullTest hfield negated
    · have hvalues := renumbers_valueList hstyle hfield negated (binds.filter (!·.isNull))
      split
      · have hnull := renumbers_nullTest hfield negated
        refine Renumbers.shut ?_
        cases negated <;> exact (hvalues.glue _).join hnull
      · exact hvalues

theorem renumbers_caseInsensitiveLike (hfield : Renumbers b offset field) (value : Bind) :
    Renumbers b offset (b.caseInsensitiveLike field [.bind value]) := by
  have hbind : Renumbers b offset [.bind value] := renumbers_bind hstyle value
  unfold Backend.caseInsensitiveLike
  split
  · exact hfield.join hbind
  · exact ((hfield.glue _).join hbind).shut

theorem Predicate.renumbers_pieces (p : Predicate) : Renumbers b offset (p.pieces b) := by
  have hfield : Renumbers b offset (p.field.pieces b) := p.field.renumbers_pieces
  have hbind : ∀ value, Renumbers b offset [.bind value] := renumbers_bind hstyle
  have hcomparison := renumbers_comparison hstyle hfield
  unfold Predicate.pieces
  simp only []
  split
  · split
    · exact renumbers_nullTest hfield false
    · exact hcomparison _ _
  · split
    · exact renumbers_nullTest hfield true
    · exact hcomparison _ _
  · exact hcomparison _ _
  · exact hcomparison _ _
  · exact hcomparison _ _
  · exact hcomparison _ _
  · exact hcomparison _ _
  · exact renumbers_caseInsensitiveLike hstyle hfield _
  · exact hfield.join ((hbind _).join (hbind _))
  · exact renumbers_nullTest hfield false
  · exact renumbers_nullTest hfield true
  · exact renumbers_listTest hstyle hfield false _
  · exact renumbers_listTest hstyle hfield true _
  · exact renumbers_fail _

theorem Lexical.Woven.renumbers_weave {cs : List Char} {texts : List (List Char)}
    (h : Woven cs texts) {values : List Bind} (hlength : texts.length = values.length + 1)
    (hfree : (glyphs cs).IsChain fun g h => g.isPlaceholder = true → h.char.isDigit = false) :
    Renumbers b offset (weave texts values) := by
  induction h generalizing values with
  | @last text hno =>
      obtain rfl : values = [] := List.length_eq_zero_iff.mp (by simpa using hlength.symm)
      exact renumbers_text _
  | @cons text rest texts hends hno htail ih =>
      obtain ⟨value, values, rfl, hlen⟩ := htail.exists_cons hlength
      rw [glyphs_placeholder hends, List.isChain_append, List.isChain_cons] at hfree
      obtain ⟨-, ⟨hnext, hrest⟩, -⟩ := hfree
      have hstop : ∀ count, leadingDigits (written b count (weave texts values)) = [] :=
        fun count => (htail.leadingDigits_written hstyle hlen count).mpr
          fun g hg => hnext g hg rfl
      exact ((renumbers_bind hstyle value).append (ih hlen hrest) hstop).glue _

/-- The pieces of a renumberable condition write renumbered texts. -/
theorem Expr.renumbers_pieces {e : Expr} (h : ∀ raw ∈ e.raws, raw.Unfollowed) :
    Renumbers b offset (e.pieces b) := by
  induction e with
  | predicate p => exact p.renumbers_pieces hstyle
  | and left right ihleft ihright =>
      have hleft := ihleft fun raw hraw => h raw (List.mem_append_left _ hraw)
      have hright := ihright fun raw hraw => h raw (List.mem_append_right _ hraw)
      exact ((hleft.glue _).join hright).shut
  | or left right ihleft ihright =>
      have hleft := ihleft fun raw hraw => h raw (List.mem_append_left _ hraw)
      have hright := ihright fun raw hraw => h raw (List.mem_append_right _ hraw)
      exact ((hleft.glue _).join hright).shut
  | not inner ih => exact ((ih h).glue _).shut
  | raw r =>
      exact r.woven_texts.renumbers_weave hstyle r.length_texts (h r (by simp [raws]))
  | subquery m => exact m.renumbers_pieces hstyle

end Numbered

/-! ## Combinations -/

variable {b : Backend}

/-- A condition has as many markers behind other binds as it has alone. -/
theorem Expr.length_marks_written {e : Expr} {offset : Nat}
    (hfailure : failure? (e.pieces b) = none)
    (hnumbers : e.Renumberable b) :
    (b.markerStyle.marks (written b offset (e.pieces b))).length =
      (b.markerStyle.marks (written b 0 (e.pieces b))).length := by
  cases hstyle : b.markerStyle with
  | numbered =>
      have hpieces : Renumbers b offset (e.pieces b) :=
        Expr.renumbers_pieces hstyle (hnumbers hstyle)
      have h := hpieces 0
      rw [Nat.zero_add] at h
      exact h.length_marks.symm
  | positional =>
      rw [Piece.written_of_positional hstyle
        (fun q hq => (Expr.fragment_of_mem_pieces hfailure hq).2) offset 0]

/-- The marks of two texts with a keyword between them and parentheses around them. The
second text may be left open. -/
theorem MarkerStyle.marks_combination (style : MarkerStyle) {keyword : String} {cs es : List Char}
    (hends : EndsInCode cs) (hkeyword : Glue keyword) (hlead : Leads keyword) :
    style.marks ("(".toList ++ (cs ++ (keyword.toList ++ (es ++ ")".toList)))) =
      style.marks cs ++ style.marks es := by
  have hparenthesis : Glue "(" := by decide
  have hopening : style.Silent "(".toList := style.silent_of_plain hparenthesis.1
  have hword : style.Silent keyword.toList := style.silent_of_plain hkeyword.1
  have hspace : Apart cs (keyword.toList ++ (es ++ ")".toList)) := by
    obtain ⟨c, hc, hsep⟩ := hlead
    refine Or.inr fun d hd => ?_
    rw [List.head?_append, Option.mem_def.mp hc] at hd
    rwa [← Option.some.inj hd]
  rw [marks_append_of_apart style hopening.ends (Or.inl hparenthesis.2), hopening.marks,
    marks_append_of_apart style hends hspace,
    marks_append_of_apart style hword.ends (Or.inl hkeyword.2), hword.marks]
  exact congrArg (style.marks cs ++ ·) (marks_append_parenthesis style es)

/-- The markers of two conditions add up in a combination. -/
theorem Expr.markerCount_combination {keyword : String} {a e c : Expr} {p q : Compiled}
    (hpieces : c.pieces b =
      .text "(" :: a.pieces b ++ .text keyword :: e.pieces b ++ [.text ")"])
    (ha : a.compile b = .ok p) (he : e.compile b = .ok q) (hclosed : Closed p.sql)
    (hnumbers : e.Renumberable b) (hkeyword : Glue keyword := by decide)
    (hlead : Leads keyword := by decide) :
    ∃ r, c.compile b = .ok r ∧ r.binds = p.binds ++ q.binds ∧
      r.markerCount = p.markerCount + q.markerCount := by
  obtain ⟨hfa, rfl⟩ := Statement.compile_eq_ok ha
  obtain ⟨hfe, rfl⟩ := Statement.compile_eq_ok he
  simp only [Statement.pieces] at hfa hfe hclosed ⊢
  have hfailure : failure? (c.pieces b) = none := by
    simp [hpieces, Piece.error?, hfa, hfe]
  have hends := (closed_iff _).mp hclosed
  rw [String.toList_ofList] at hends
  refine ⟨_, Expr.compile_of_failure?_eq_none hfailure, by simp [hpieces, Piece.ownBinds], ?_⟩
  have htext : written b 0 (c.pieces b) = "(".toList ++ (written b 0 (a.pieces b) ++
      (keyword.toList ++ (written b (binds (a.pieces b)).length (e.pieces b) ++ ")".toList))) := by
    simp [hpieces, written_append, Piece.ownText, Piece.ownBinds]
  rw [Compiled.markerCount_eq, Compiled.markerCount_eq, Compiled.markerCount_eq, Compiled.marks,
    Compiled.marks, Compiled.marks, String.toList_ofList, String.toList_ofList,
    String.toList_ofList, htext, b.markerStyle.marks_combination hends hkeyword hlead,
    List.length_append, Expr.length_marks_written hfe hnumbers]

/-- Two conditions each with as many markers as binds make combinations with as many markers
as binds, if the text of the first one is closed and the numbers of the second one can be
raised. -/
theorem Expr.parity_combination {a e : Expr} {p q : Compiled} (ha : a.compile b = .ok p)
    (he : e.compile b = .ok q) (hp : p.markerCount = p.binds.length)
    (hq : q.markerCount = q.binds.length) (hclosed : Closed p.sql)
    (hnumbers : e.Renumberable b) :
    (∃ r, (Expr.and a e).compile b = .ok r ∧ r.markerCount = r.binds.length) ∧
      ∃ r, (Expr.or a e).compile b = .ok r ∧ r.markerCount = r.binds.length := by
  have hparity : ∀ r : Compiled, r.binds = p.binds ++ q.binds →
      r.markerCount = p.markerCount + q.markerCount → r.markerCount = r.binds.length := by
    intro r hbinds hcount
    rw [hcount, hp, hq, hbinds, List.length_append]
  constructor
  · obtain ⟨r, hr, hbinds, hcount⟩ :=
      Expr.markerCount_combination (c := .and a e) rfl ha he hclosed hnumbers
    exact ⟨r, hr, hparity r hbinds hcount⟩
  · obtain ⟨r, hr, hbinds, hcount⟩ :=
      Expr.markerCount_combination (c := .or a e) rfl ha he hclosed hnumbers
    exact ⟨r, hr, hparity r hbinds hcount⟩

theorem Expr.parity_combination_open :
    let fragment : Compiled := ⟨"SELECT $2, $1", [.int 2, .int 3], .postgresql⟩
    let a : Expr := .raw ⟨"x = ?", [.int 1], by decide, by decide⟩
    let e : Expr := .and (.subquery ⟨.named "b", false, fragment⟩)
      (.raw ⟨"y > ? -- ?", [.int 4], by decide, by decide⟩)
    let p : Compiled := ⟨"x = $1", [.int 1], .postgresql⟩
    let q : Compiled := ⟨"(\"b\" IN (SELECT $2, $1) AND y > $3 -- ?)", [.int 2, .int 3, .int 4],
      .postgresql⟩
    a.compile .postgresql = .ok p ∧ e.compile .postgresql = .ok q ∧ ¬ Closed q.sql ∧
      e.Renumberable .postgresql ∧
      ∃ r, (Expr.and a e).compile .postgresql = .ok r ∧ r.markerCount = r.binds.length := by
  intro fragment a e p q
  have ha : a.compile .postgresql = .ok p :=
    Statement.compile_of_pieces (by decide +kernel) (by decide +kernel) rfl rfl
  have he : e.compile .postgresql = .ok q :=
    Statement.compile_of_pieces (by decide +kernel) (by decide +kernel) rfl rfl
  have hnumbers : e.Renumberable .postgresql := fun _ => by decide +kernel
  have h := Expr.parity_combination ha he (by decide +kernel) (by decide +kernel)
    (by decide +kernel) hnumbers
  exact ⟨ha, he, by decide +kernel, hnumbers, h.1⟩

/-- A comment that the first condition leaves open hides the marker of the second one. -/
theorem Expr.comment_hides_marker :
    let a : Expr := .raw ⟨"a = ? -- c", [.int 1], by decide, by decide⟩
    let e : Expr := Field.eq (.named "b") (.int 2)
    let p : Compiled := ⟨"a = $1 -- c", [.int 1], .postgresql⟩
    let q : Compiled := ⟨"\"b\" = $1", [.int 2], .postgresql⟩
    let r : Compiled := ⟨"(a = $1 -- c AND \"b\" = $2)", [.int 1, .int 2], .postgresql⟩
    a.compile .postgresql = .ok p ∧ p.markerCount = p.binds.length ∧
      e.compile .postgresql = .ok q ∧ q.markerCount = q.binds.length ∧
      (Expr.and a e).compile .postgresql = .ok r ∧ r.markerCount ≠ r.binds.length := by
  intro a e p q r
  have ha : a.compile .postgresql = .ok p :=
    Statement.compile_of_pieces (by decide +kernel) (by decide +kernel) rfl rfl
  have he : e.compile .postgresql = .ok q :=
    Statement.compile_of_pieces (by decide +kernel) (by decide +kernel) rfl rfl
  have hr : (Expr.and a e).compile .postgresql = .ok r :=
    Statement.compile_of_pieces (by decide +kernel) (by decide +kernel) rfl rfl
  exact ⟨ha, by decide +kernel, he, by decide +kernel, hr, by decide +kernel⟩

end BoundSql
