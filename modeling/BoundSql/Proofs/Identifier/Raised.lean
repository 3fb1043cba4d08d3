import BoundSql.Proofs.Identifier.Token
import BoundSql.Proofs.Numbering.Silent

/-!
# Raising markers between names

The reader that renumbers a text knows apostrophes, double quotes and comments; the reader
of names knows one quote character. Both see the same names in a text whose tokens are
separable, so raising the markers of the text raises them between the names, one stretch
after the other, and leaves the names where they are (`Separable.shiftedChars_render`).

Nothing is asked of the numbers in the text: what is no marker because its number is too
large is no marker with other names around it either.
-/

namespace BoundSql.Identifier

open Lexical

/-- Tokens with the markers between their names raised. The stretch that the reader stands
in is collected in `run`. -/
def raiseFrom (offset : Nat) (run : List Char) : List Token → List Token
  | [] => (shiftedChars offset (lexemes run)).map .outside
  | .outside c :: ts => raiseFrom offset (run ++ [c]) ts
  | .quoted name :: ts =>
      (shiftedChars offset (lexemes run)).map .outside ++ .quoted name :: raiseFrom offset [] ts

theorem namesOf_raiseFrom (offset : Nat) (run : List Char) (ts : List Token) :
    namesOf (raiseFrom offset run ts) = namesOf ts := by
  induction ts generalizing run with
  | nil => rw [raiseFrom, namesOf_outside]; rfl
  | cons t ts ih =>
      cases t with
      | outside c => exact ih _
      | quoted name =>
          rw [raiseFrom, namesOf_append, namesOf_outside, List.nil_append]
          exact congrArg (name :: ·) (ih [])

/-- What names there are makes no difference to the markers between them. -/
theorem raiseFrom_erase (offset : Nat) (run : List Char) (ts : List Token) :
    raiseFrom offset run (ts.map Token.erase) = (raiseFrom offset run ts).map Token.erase := by
  induction ts generalizing run with
  | nil => exact (map_erase_outside _).symm
  | cons t ts ih =>
      cases t with
      | outside c => exact ih _
      | quoted name =>
          simp only [List.map_cons, Token.erase, raiseFrom, List.map_append, map_erase_outside, ih]

/-! ## Stretches between names -/

variable {b : Backend}

/-- Raising writes digits in the place of digits. -/
theorem isSteady_of_mem_shiftedChars {offset : Nat} {ls : List Lexeme} {c : Char}
    (h : ∀ c ∈ ls.flatMap Lexeme.chars, isSteady b c = true)
    (hc : c ∈ shiftedChars offset ls) : isSteady b c = true := by
  obtain ⟨l, hl, hc⟩ := List.mem_flatMap.mp hc
  have hkept : ∀ d ∈ l.chars, isSteady b d = true :=
    fun d hd => h d (List.mem_flatMap.mpr ⟨l, hl, hd⟩)
  cases l with
  | glyph g => exact hkept c hc
  | marker digits index =>
      rcases List.mem_cons.mp hc with rfl | hdigit
      · exact hkept _ (List.mem_cons_self ..)
      · exact isSteady_of_isDigit (Text.isDigit_of_mem_digits hdigit) b

theorem separable_shiftedChars {offset : Nat} {run : List Char}
    (h : ∀ c ∈ run, isSteady b c = true) :
    Separable b ((shiftedChars offset (lexemes run)).map .outside) :=
  separable_outside fun _ => isSteady_of_mem_shiftedChars (by rwa [chars_lexemes])

section Numbered

variable (hstyle : b.markerStyle = .numbered)

include hstyle

/-- A stretch between names is code throughout. -/
theorem endsInCode_of_isSteady {run : List Char} (h : ∀ c ∈ run, isSteady b c = true) :
    EndsInCode run := by
  have hsteady : ∀ c ∈ run, isQuote c = false ∧ c ≠ '-' ∧ c ≠ '/' := by
    intro c hc
    have hc := h c hc
    simp only [isSteady, hstyle, Bool.and_eq_true, Bool.or_eq_true, Bool.not_eq_true',
      Bool.or_eq_false_iff, beq_eq_false_iff_ne] at hc
    rcases hc.2 with hpositional | ⟨⟨hquote, hhyphen⟩, hslash⟩
    · cases hpositional
    · exact ⟨hquote, hhyphen, hslash⟩
  refine (MarkerStyle.glyphs_of_run (fun c hc => (hsteady c hc).1) ?_).2
  refine (List.isChain_isInfix run).imp fun c d hcd => ?_
  have hc := hsteady c (hcd.subset (by simp))
  exact ⟨fun h => hc.2.1 h.1, fun h => hc.2.2 h.1⟩

/-! ## Whole texts -/

/-- The text of a name shows no markers. -/
theorem shiftedChars_quoted (offset : Nat) (name : String) :
    shiftedChars offset (lexemes (quoted b name).toList) = (quoted b name).toList := by
  have hsilent : b.markerStyle.Silent (quoted b name).toList :=
    silent_quoted fun hmysql => by subst hmysql; cases hstyle
  rw [shiftedChars_of_noMarker (MarkerStyle.index?_of_marks_eq_nil (hstyle ▸ hsilent.marks)),
    chars_lexemes]

theorem endsInCode_quoted (name : String) : EndsInCode (quoted b name).toList :=
  (silent_quoted fun hmysql => by subst hmysql; cases hstyle).ends

/-- Raising the markers of a text raises those between its names. -/
theorem Separable.shiftedChars_render {ts : List Token} (h : Separable b ts) (offset : Nat)
    {run : List Char} (hrun : ∀ c ∈ run, isSteady b c = true) :
    shiftedChars offset (lexemes (run ++ render b.quoteChar ts)) =
      render b.quoteChar (raiseFrom offset run ts) := by
  induction ts generalizing run with
  | nil => rw [render_nil, List.append_nil, raiseFrom, render_outside]
  | cons t ts ih =>
      cases t with
      | outside c =>
          have hsteady : ∀ d ∈ run ++ [c], isSteady b d = true := by
            intro d hd
            rcases List.mem_append.mp hd with hd | hd
            · exact hrun d hd
            · rw [List.mem_singleton.mp hd]
              exact h.steady c (by simp)
          rw [raiseFrom, ← ih h.tail hsteady, render_cons, Token.chars, List.append_assoc]
      | quoted name =>
          -- the name begins and ends in a separator, so it is cut off on both sides
          have hbefore : Apart run ((quoted b name).toList ++ render b.quoteChar ts) := by
            refine Or.inr fun c hc => ?_
            rw [quoted, toList_quoteWith, List.cons_append, List.cons_append] at hc
            rw [← Option.some.inj hc]
            exact isSeparator_quoteChar b
          have hbehind : Apart (quoted b name).toList (render b.quoteChar ts) := by
            refine Or.inl fun c hc => ?_
            rw [getLast?_quoted] at hc
            rw [← Option.some.inj hc]
            exact isSeparator_quoteChar b
          have hrest : shiftedChars offset (lexemes (render b.quoteChar ts)) =
              render b.quoteChar (raiseFrom offset [] ts) := ih h.tail (List.forall_mem_nil _)
          show shiftedChars offset
            (lexemes (run ++ ((quoted b name).toList ++ render b.quoteChar ts))) = _
          rw [lexemes_append_of_apart (endsInCode_of_isSteady hstyle hrun) hbefore,
            lexemes_append_of_apart (endsInCode_quoted hstyle name) hbehind,
            shiftedChars_append, shiftedChars_append, shiftedChars_quoted hstyle, hrest,
            raiseFrom, render_append, render_outside, render_cons]
          rfl

/-- A name comes first after raising just if it came first before. -/
theorem Separable.head?_raiseFrom {ts : List Token} (h : Separable b ts) (offset : Nat)
    {run : List Char} (hrun : ∀ c ∈ run, isSteady b c = true) :
    (render b.quoteChar (raiseFrom offset run ts)).head? =
      (run ++ render b.quoteChar ts).head? := by
  rw [← h.shiftedChars_render hstyle offset hrun]
  exact (cut_lexemes _).head?_shiftedChars offset

theorem Separable.raised {ts : List Token} (h : Separable b ts) (offset : Nat)
    {run : List Char} (hrun : ∀ c ∈ run, isSteady b c = true) :
    Separable b (raiseFrom offset run ts) := by
  induction ts generalizing run with
  | nil => exact separable_shiftedChars hrun
  | cons t ts ih =>
      cases t with
      | outside c =>
          refine ih h.tail fun d hd => ?_
          rcases List.mem_append.mp hd with hd | hd
          · exact hrun d hd
          · rw [List.mem_singleton.mp hd]
            exact h.steady c (by simp)
      | quoted name =>
          have hrest : Separable b (raiseFrom offset [] ts) := ih h.tail (List.forall_mem_nil _)
          -- no name follows the name, so none does after raising
          have hnext : (render b.quoteChar (raiseFrom offset [] ts)).head? ≠
              some b.quoteChar := by
            rw [h.tail.head?_raiseFrom hstyle offset (List.forall_mem_nil _), List.nil_append]
            exact h.head?_render_tail
          have hname : Separable b (.quoted name :: raiseFrom offset [] ts) :=
            (separable_quoted b name).append hrest (Or.inr hnext)
          refine (separable_shiftedChars hrun).append hname (Or.inl ?_)
          rw [render_outside]
          intro hlast
          have hsteady := isSteady_of_mem_shiftedChars (by rwa [chars_lexemes])
            (List.mem_of_getLast? hlast)
          exact ne_quoteChar_of_isSteady hsteady rfl

end Numbered

/-! ## Compiled queries -/

/-- The text of a query that is moved behind other binds has the names of its text, and the
same characters between them whatever the names are. -/
theorem Separable.rebasedSql {q : Compiled} {ts : List Token} (h : Separable q.backend ts)
    (htext : q.sql.toList = render q.backend.quoteChar ts) (offset : Nat) :
    ∃ us, Separable q.backend us ∧ namesOf us = namesOf ts ∧
      (q.rebasedSql offset).toList = render q.backend.quoteChar us ∧
      ∀ q' : Compiled, q'.backend = q.backend →
        q'.sql.toList = render q.backend.quoteChar (ts.map Token.erase) →
          (q'.rebasedSql offset).toList = render q.backend.quoteChar (us.map Token.erase) := by
  by_cases hmoved : q.backend.markerStyle = .numbered ∧ offset ≠ 0
  · obtain ⟨hstyle, hoffset⟩ := hmoved
    have hrebase : ∀ (sql : String) (us : List Token), Separable q.backend us →
        sql.toList = render q.backend.quoteChar us →
          (rebase sql offset).toList = render q.backend.quoteChar (raiseFrom offset [] us) := by
      intro sql us hus hsql
      rw [toList_rebase hoffset, hsql]
      exact hus.shiftedChars_render hstyle offset (List.forall_mem_nil _)
    refine ⟨raiseFrom offset [] ts, h.raised hstyle offset (List.forall_mem_nil _),
      namesOf_raiseFrom offset [] ts, ?_, fun q' hbackend hsql => ?_⟩
    · rw [Compiled.rebasedSql, hstyle]
      exact hrebase _ _ h htext
    · rw [Compiled.rebasedSql, hbackend, hstyle, ← raiseFrom_erase]
      exact hrebase _ _ (separable_map_erase_iff.mpr h) hsql
  · have hkept : ∀ q' : Compiled, q'.backend = q.backend → q'.rebasedSql offset = q'.sql := by
      intro q' hbackend
      rw [Compiled.rebasedSql, hbackend]
      cases hstyle : q.backend.markerStyle with
      | positional => rfl
      | numbered =>
          have hoffset : offset = 0 := by
            by_contra hoffset
            exact hmoved ⟨hstyle, hoffset⟩
          rw [hoffset]
          exact rebase_zero q'.sql
    refine ⟨ts, h, rfl, ?_, fun q' hbackend hsql => ?_⟩
    · rw [hkept q rfl, htext]
    · rw [hkept q' hbackend, hsql]

end BoundSql.Identifier
