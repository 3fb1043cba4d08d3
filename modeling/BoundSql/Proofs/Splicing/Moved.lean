import BoundSql.Proofs.Numbering.Parity

/-!
# Moving finished text

The compiler numbers the binds of a condition from a running count. A condition that was
compiled alone is numbered from one, and `Compiled.rebasedSql` raises its numbers when it
is used behind other binds. Both ways give the same text (`Expr.toList_rebasedSql`).

Where markers are placeholders, there is nothing to raise, and pieces write the same text
behind any number of binds. Where markers are numbered, the text is scanned again, so it
has to be tidy: then the scanner finds the markers of the binds and of the fragments and
nothing else, and the markers of a fragment that has been moved before are moved on.
-/

namespace BoundSql

open Lexical

namespace Piece

variable {b : Backend} {ps : List Piece}

/-! ## Numbered markers -/

/-- The text of a sound piece is moved by raising its markers. -/
theorem Sound.shiftedChars_ownText {p : Piece} (h : p.Sound b) (hstyle : b.markerStyle = .numbered)
    {offset : Nat} (hoffset : offset ≠ 0) (count : Nat) :
    shiftedChars offset (Lexical.lexemes (p.ownText (Identifier.quoted b) b count)) =
      p.ownText (Identifier.quoted b) b (count + offset) := by
  -- words and identifiers show no markers, so nothing in them is raised
  have hsilent : ∀ cs, b.markerStyle.Silent cs → shiftedChars offset (Lexical.lexemes cs) = cs := by
    intro cs hcs
    rw [shiftedChars_of_noMarker (MarkerStyle.index?_of_marks_eq_nil (hstyle ▸ hcs.marks)) offset,
      chars_lexemes]
  cases p with
  | text s => exact hsilent _ h
  | name ident => exact hsilent _ (Identifier.silent_quoted h)
  | mention ident => rfl
  | bind value =>
      rw [ownText, ownText, Backend.marker, Backend.marker, hstyle,
        MarkerStyle.lexemes_numbered_marker, Nat.add_right_comm]
      simp [shiftedChars, Lexeme.shift, Lexeme.chars, MarkerStyle.marker, wrapIndex_add]
  | fragment q =>
      obtain ⟨rfl, -⟩ := h
      rw [ownText, ownText, Compiled.rebasedSql, Compiled.rebasedSql, hstyle]
      simp only []
      rw [← toList_rebase hoffset, rebase_rebase]
  | fail error => rfl

/-- Raising the markers in the text of a tidy list moves the list behind other binds. -/
theorem Tidy.rebase_written (h : Tidy b ps) (hstyle : b.markerStyle = .numbered) (offset : Nat) :
    rebase (String.ofList (written b 0 ps)) offset = String.ofList (written b offset ps) := by
  by_cases hoffset : offset = 0
  · rw [hoffset, rebase_zero]
  -- the lexemes of the whole text are those of the pieces, so they can be raised one by one
  have hpieces : ∀ count,
      shiftedChars offset (Piece.lexemes b count ps) = written b (count + offset) ps := by
    have hsound := h.sound
    clear h
    induction ps with
    | nil => exact fun _ => rfl
    | cons p ps ih =>
        intro count
        have hown := (hsound p (by simp)).shiftedChars_ownText hstyle hoffset count
        have hrest := ih (fun q hq => hsound q (by simp [hq])) (count + p.ownBinds.length)
        rw [Piece.lexemes, shiftedChars_append, hown, hrest, written_cons, Nat.add_right_comm]
  rw [← String.toList_inj, toList_rebase hoffset, String.toList_ofList, String.toList_ofList,
    h.lexemes, hpieces 0, Nat.zero_add]

/-! ## Placeholders -/

/-- Where markers are placeholders, a text does not depend on the binds before it. -/
theorem written_of_positional (hstyle : b.markerStyle = .positional)
    (hbackend : ∀ q, .fragment q ∈ ps → q.backend = b) (count count' : Nat) :
    written b count ps = written b count' ps := by
  induction ps generalizing count count' with
  | nil => rfl
  | cons p ps ih =>
      have hown : p.ownText (Identifier.quoted b) b count =
          p.ownText (Identifier.quoted b) b count' := by
        cases p with
        | bind value => simp only [ownText, Backend.marker, hstyle, MarkerStyle.marker]
        | fragment q =>
            obtain rfl := hbackend q (by simp)
            simp only [ownText, Compiled.rebasedSql, hstyle]
        | text s => rfl
        | name ident => rfl
        | mention ident => rfl
        | fail error => rfl
      rw [written_cons, written_cons, hown,
        ih (fun q hq => hbackend q (by simp [hq])) _ (count' + p.ownBinds.length)]

end Piece

/-! ## Conditions -/

namespace Expr

open Piece (failure? written)

variable {b : Backend}

/-- A condition whose markers can be raised once it is compiled. Nothing is asked where
markers are placeholders. -/
def Movable (b : Backend) (e : Expr) : Prop :=
  b.markerStyle = .numbered → e.Clean b ∧ ∀ p ∈ e.fragments, p.Built True

/-- The fragments of a condition that compiles are made for the same backend. -/
theorem backend_of_mem_fragments {e : Expr} (h : failure? (e.pieces b) = none) {q : Compiled}
    (hq : q ∈ e.fragments) : q.backend = b := by
  induction e with
  | predicate p => cases hq
  | and left right ihleft ihright =>
      simp only [pieces, Piece.failure?_append, Piece.failure?_cons, Piece.error?, Option.none_or,
        Option.or_eq_none_iff] at h
      exact (List.mem_append.mp hq).elim (ihleft h.1.1) (ihright h.1.2)
  | or left right ihleft ihright =>
      simp only [pieces, Piece.failure?_append, Piece.failure?_cons, Piece.error?, Option.none_or,
        Option.or_eq_none_iff] at h
      exact (List.mem_append.mp hq).elim (ihleft h.1.1) (ihright h.1.2)
  | not inner ih =>
      simp only [pieces, Piece.failure?_append, Piece.failure?_cons, Piece.error?, Option.none_or,
        Option.or_eq_none_iff] at h
      exact ih h.1 hq
  | raw r => cases hq
  | subquery m =>
      obtain rfl : q = m.query := List.mem_singleton.mp hq
      simp only [pieces, Membership.pieces, Piece.failure?_append, Piece.failure?_cons,
        Piece.error?, Option.none_or, Option.or_eq_none_iff] at h
      obtain ⟨⟨-, hquery⟩, -⟩ := h
      unfold Compiled.pieces at hquery
      split at hquery
      · assumption
      · simp [Piece.error?] at hquery

theorem fragment_of_mem_pieces {e : Expr} (h : failure? (e.pieces b) = none) {q : Compiled}
    (hq : .fragment q ∈ e.pieces b) : q ∈ e.fragments ∧ q.backend = b := by
  have hmem : q ∈ (Statement.condition e).fragments :=
    Statement.mem_fragments (s := .condition e) h hq
  have hmem : q ∈ e.fragments := by
    simpa [Statement.fragments, Statement.query?, Statement.conditions] using hmem
  exact ⟨hmem, backend_of_mem_fragments h hmem⟩

/-- A condition that was compiled alone and moved has the text that it has in place. -/
theorem toList_rebasedSql {e : Expr} {q : Compiled} (hcompile : e.compile b = .ok q)
    (hmove : e.Movable b) (offset : Nat) :
    (q.rebasedSql offset).toList = written b offset (e.pieces b) := by
  obtain ⟨hfailure, rfl⟩ := Statement.compile_eq_ok hcompile
  unfold Compiled.rebasedSql
  cases hstyle : b.markerStyle with
  | numbered =>
      obtain ⟨hclean, hbuilt⟩ := hmove hstyle
      have htidy := Expr.tidy_pieces hclean fun p hp => (hbuilt p hp).endsInCode
      simp only []
      rw [← String.toList_ofList (l := written b offset (e.pieces b)),
        ← htidy.rebase_written hstyle offset]
      rfl
  | positional =>
      simp only [String.toList_ofList]
      exact Piece.written_of_positional hstyle
        (fun p hp => (fragment_of_mem_pieces hfailure hp).2) 0 offset

end Expr

end BoundSql
