import BoundSql.Proofs.Sql.Pieces
import BoundSql.Proofs.Numbering.Silent

/-!
# Tidy pieces

The text of a list of pieces is scanned as a whole when markers are counted, while
the compiler numbers each piece on its own. A list of pieces is **tidy** when the
two agree: the scanner finds in the whole text the lexemes of the texts of the
pieces, one behind the other, and is back in code at the end.

Tidy lists are put together from tidy lists that meet at a separator. `Opens` and
`Shuts` say that a list shows a separator at its start or at its end; the words
between the parts of a statement do, and so do identifiers. What the markers of a
tidy list are is read off the pieces (`Tidy.marks_written`).
-/

namespace BoundSql

open Lexical

namespace Piece

/-! ## Lexemes of pieces -/

/-- The lexemes of the texts of pieces, each text read on its own. -/
def lexemes (b : Backend) (count : Nat) : List Piece → List Lexeme
  | [] => []
  | p :: ps =>
      Lexical.lexemes (p.ownText (Identifier.quoted b) b count) ++
        lexemes b (count + p.ownBinds.length) ps

theorem lexemes_append (b : Backend) (count : Nat) (ps qs : List Piece) :
    lexemes b count (ps ++ qs) =
      lexemes b count ps ++ lexemes b (count + (binds ps).length) qs := by
  induction ps generalizing count with
  | nil => simp [lexemes]
  | cons p ps ih => simp [lexemes, ih, Nat.add_assoc]

/-! ## Tidy lists -/

/-- A piece whose own text is closed and shows no marks but those of its binds. -/
def Sound (b : Backend) : Piece → Prop
  | .text s => b.markerStyle.Silent s.toList
  | .name ident => Identifier.SafeFor b ident
  | .fragment q => q.backend = b ∧ EndsInCode q.sql.toList
  | _ => True

/-- Pieces whose whole text reads like the texts of the pieces. -/
structure Tidy (b : Backend) (ps : List Piece) : Prop where
  sound : ∀ p ∈ ps, p.Sound b
  ends : ∀ count, EndsInCode (written b count ps)
  lexemes : ∀ count, Lexical.lexemes (written b count ps) = Piece.lexemes b count ps

/-- Pieces whose text starts with a separator, if it is not empty. -/
def Opens (b : Backend) (ps : List Piece) : Prop :=
  ∀ count, ∀ c ∈ (written b count ps).head?, isSeparator c = true

/-- Pieces whose text ends in a separator, if it is not empty. -/
def Shuts (b : Backend) (ps : List Piece) : Prop :=
  ∀ count, ∀ c ∈ (written b count ps).getLast?, isSeparator c = true

variable {b : Backend} {ps qs : List Piece}

theorem tidy_nil (b : Backend) : Tidy b [] :=
  ⟨by simp, fun _ => endsInCode_nil, fun _ => rfl⟩

/-- The text of a sound piece is closed. -/
theorem Sound.ends {p : Piece} (h : p.Sound b) (count : Nat) :
    EndsInCode (p.ownText (Identifier.quoted b) b count) := by
  cases p with
  | text s => exact MarkerStyle.Silent.ends h
  | name ident => exact (Identifier.silent_quoted h).ends
  | mention ident => exact endsInCode_nil
  | bind value => exact MarkerStyle.endsInCode_marker b.markerStyle (count + 1)
  | fragment q => exact Compiled.endsInCode_rebasedSql h.2 count
  | fail error => exact endsInCode_nil

theorem tidy_singleton {p : Piece} (h : p.Sound b) : Tidy b [p] := by
  refine ⟨by simpa using h, fun count => ?_, fun count => ?_⟩
  · simpa using h.ends count
  · simp [Piece.lexemes]

/-- Tidy lists that meet at a separator make a tidy list. -/
theorem Tidy.append (hp : Tidy b ps) (hq : Tidy b qs)
    (h : ∀ i j, Apart (written b i ps) (written b j qs)) : Tidy b (ps ++ qs) := by
  refine ⟨?_, fun count => ?_, fun count => ?_⟩
  · intro p hmem
    rcases List.mem_append.mp hmem with hmem | hmem
    · exact hp.sound p hmem
    · exact hq.sound p hmem
  · rw [written_append]
    exact (hp.ends _).append_of_apart (hq.ends _) (h _ _)
  · rw [written_append, lexemes_append_of_apart (hp.ends _) (h _ _), hp.lexemes, hq.lexemes,
      Piece.lexemes_append]

theorem Tidy.append_of_shuts (hp : Tidy b ps) (hq : Tidy b qs) (h : Shuts b ps) :
    Tidy b (ps ++ qs) :=
  hp.append hq fun i _ => Or.inl (h i)

/-! ## Clauses -/

/-- A tidy list that can stand behind any tidy list. -/
structure Clause (b : Backend) (ps : List Piece) : Prop where
  tidy : Tidy b ps
  opens : Opens b ps

theorem Tidy.append_clause (hp : Tidy b ps) (hq : Clause b qs) : Tidy b (ps ++ qs) :=
  hp.append hq.tidy fun _ j => Or.inr (hq.opens j)

theorem clause_nil (b : Backend) : Clause b [] :=
  ⟨tidy_nil b, fun count c hc => by simp at hc⟩

theorem Opens.append (hp : Opens b ps) (hq : Opens b qs) : Opens b (ps ++ qs) := by
  intro count c hc
  rw [written_append, List.head?_append] at hc
  cases hhead : (written b count ps).head? with
  | none =>
      rw [hhead, Option.none_or] at hc
      exact hq _ c hc
  | some d =>
      rw [hhead, Option.some_or] at hc
      exact hp count c (hhead.trans hc)

theorem Shuts.append (hp : Shuts b ps) (hq : Shuts b qs) : Shuts b (ps ++ qs) := by
  intro count c hc
  rw [written_append, List.getLast?_append] at hc
  cases hlast : (written b (count + (binds ps).length) qs).getLast? with
  | none =>
      rw [hlast, Option.none_or] at hc
      exact hp _ c hc
  | some d =>
      rw [hlast, Option.some_or] at hc
      exact hq _ c (hlast.trans hc)

theorem Clause.append (hp : Clause b ps) (hq : Clause b qs) : Clause b (ps ++ qs) :=
  ⟨hp.tidy.append_clause hq, hp.opens.append hq.opens⟩

theorem clause_flatMap {α : Type} {f : α → List Piece} {xs : List α}
    (h : ∀ x ∈ xs, Clause b (f x)) : Clause b (xs.flatMap f) := by
  induction xs with
  | nil => exact clause_nil b
  | cons x xs ih => exact (h x (by simp)).append (ih fun y hy => h y (by simp [hy]))

/-! ## Fixed words

What is asked of the fixed words of a statement is decided where they are written.
-/

/-- Words without a part in quotes, comments and markers. -/
def Plain (s : String) : Prop :=
  ∀ c ∈ s.toList, MarkerStyle.isPlain c = true

instance (s : String) : Decidable (Plain s) :=
  List.decidableBAll _ s.toList

/-- Words that end in a separator, if there are any. -/
def Trails (s : String) : Prop :=
  ∀ c ∈ s.toList.getLast?, isSeparator c = true

instance (s : String) : Decidable (Trails s) :=
  Option.decidableForallMem s.toList.getLast?

/-- Plain words that any tidy list can stand behind. -/
def Glue (s : String) : Prop :=
  Plain s ∧ Trails s

instance (s : String) : Decidable (Glue s) :=
  inferInstanceAs (Decidable (Plain s ∧ Trails s))

/-- Words that start with a separator. -/
def Leads (s : String) : Prop :=
  ∃ c ∈ s.toList.head?, isSeparator c = true

instance (s : String) : Decidable (Leads s) :=
  Option.decidableExistsMem s.toList.head?

theorem Plain.sound {s : String} (h : Plain s) (b : Backend) : (Piece.text s).Sound b :=
  MarkerStyle.silent_of_plain b.markerStyle h

theorem Plain.append {s t : String} (hs : Plain s) (ht : Plain t) : Plain (s ++ t) := by
  intro c hc
  rw [String.toList_append] at hc
  rcases List.mem_append.mp hc with hc | hc
  · exact hs c hc
  · exact ht c hc

theorem Leads.append {s : String} (hs : Leads s) (t : String) : Leads (s ++ t) := by
  obtain ⟨c, hc, hsep⟩ := hs
  refine ⟨c, ?_, hsep⟩
  rw [String.toList_append, List.head?_append, Option.mem_def.mp hc]
  rfl

theorem shuts_text {s : String} (h : Trails s := by decide) : Shuts b [.text s] := by
  intro count c hc
  rw [written_cons, written_nil, List.append_nil] at hc
  exact h c hc

/-- The first piece decides whether a list opens, if its text is not empty. -/
theorem opens_cons {p : Piece}
    (h : ∀ count, ∃ c ∈ (p.ownText (Identifier.quoted b) b count).head?,
      isSeparator c = true) : Opens b (p :: ps) := by
  intro count c hc
  obtain ⟨d, hd, hsep⟩ := h count
  rw [written_cons, List.head?_append, Option.mem_def.mp hd, Option.some_or] at hc
  rwa [← Option.some.inj hc]

theorem tidy_words {s : String} (h : Plain s := by decide) : Tidy b [.text s] :=
  tidy_singleton (h.sound b)

theorem Tidy.glue {s : String} (h : Tidy b ps) (hs : Glue s := by decide) :
    Tidy b (.text s :: ps) :=
  (tidy_words hs.1).append_of_shuts h (shuts_text hs.2)

theorem Tidy.clause {s : String} (h : Tidy b ps) (hs : Glue s := by decide)
    (hlead : Leads s := by decide) : Clause b (.text s :: ps) :=
  ⟨h.glue hs, opens_cons fun _ => hlead⟩

theorem clause_text {s : String} (hs : b.markerStyle.Silent s.toList) (hlead : Leads s) :
    Clause b [.text s] :=
  ⟨tidy_singleton (p := .text s) hs, opens_cons fun _ => hlead⟩

theorem clause_words {s : String} (hs : Plain s := by decide) (hlead : Leads s := by decide) :
    Clause b [.text s] :=
  clause_text (hs.sound b) hlead

/-- A list with words before and behind it. -/
theorem Tidy.enclose {s t : String} (h : Tidy b ps) (hs : Glue s := by decide)
    (ht : Plain t := by decide) (hlead : Leads t := by decide) :
    Tidy b (.text s :: ps ++ [.text t]) :=
  (h.glue hs).append_clause (clause_words ht hlead)

/-- Two lists with words between them. -/
theorem Tidy.join {s : String} (hp : Tidy b ps) (hq : Tidy b qs) (hs : Glue s := by decide)
    (hlead : Leads s := by decide) : Tidy b (ps ++ .text s :: qs) :=
  hp.append_clause (hq.clause hs hlead)

/-! ## Identifiers, binds and mentions -/

theorem shuts_name (ident : String) : Shuts b [.name ident] := by
  intro count c hc
  rw [written_cons, written_nil, List.append_nil, ownText, Identifier.getLast?_quoted] at hc
  rw [← Option.some.inj hc]
  exact Identifier.isSeparator_quoteChar b

theorem Tidy.name {ident : String} (hident : Identifier.SafeFor b ident) (h : Tidy b ps) :
    Tidy b (.name ident :: ps) :=
  (tidy_singleton (p := .name ident) hident).append_of_shuts h (shuts_name ident)

theorem tidy_bind (value : Bind) : Tidy b [.bind value] :=
  tidy_singleton (p := .bind value) trivial

theorem tidy_fail (error : Error) : Tidy b [.fail error] :=
  tidy_singleton (p := .fail error) trivial

theorem Tidy.mentions {ms : List Piece} (hms : ∀ p ∈ ms, ∃ ident, p = .mention ident)
    (h : Tidy b ps) : Tidy b (ms ++ ps) := by
  induction ms with
  | nil => exact h
  | cons p ms ih =>
      obtain ⟨ident, rfl⟩ := hms p (by simp)
      have hrest := ih fun q hq => hms q (by simp [hq])
      refine (tidy_singleton (p := .mention ident) trivial).append_of_shuts hrest ?_
      intro count c hc
      simp [ownText] at hc

/-- Tidy lists with commas between them are tidy. -/
theorem tidy_commaSeparated {lists : List (List Piece)} (h : ∀ ps ∈ lists, Tidy b ps) :
    Tidy b (commaSeparated lists) := by
  fun_induction commaSeparated lists with
  | case1 => exact tidy_nil b
  | case2 ps => exact h ps (by simp)
  | case3 ps rest hrest ih =>
      exact (h ps (by simp)).join (ih fun qs hqs => h qs (by simp [hqs]))

/-! ## The marks of a tidy list -/

/-- The marks of a piece behind `count` binds. -/
def ownMarks (b : Backend) (count : Nat) : Piece → List (Option Nat)
  | .bind _ => [b.markerStyle.markOf (count + 1)]
  | .fragment q => shiftMarks count q.marks
  | _ => []

/-- The marks of pieces behind `count` binds. -/
def marks (b : Backend) (count : Nat) : List Piece → List (Option Nat)
  | [] => []
  | p :: ps => p.ownMarks b count ++ marks b (count + p.ownBinds.length) ps

/-- The text of a sound piece shows the marks of the piece. -/
theorem Sound.marks_ownText {p : Piece} (h : p.Sound b) {count : Nat}
    (hreadable : b.markerStyle.Readable (count + p.ownBinds.length))
    (hshift : ∀ q, p = .fragment q → q.ShiftableBy count) :
    b.markerStyle.marks (p.ownText (Identifier.quoted b) b count) = p.ownMarks b count := by
  cases p with
  | text s => exact MarkerStyle.Silent.marks h
  | name ident => exact (Identifier.silent_quoted h).marks
  | mention ident => rfl
  | bind value => exact b.markerStyle.marks_marker hreadable
  | fragment q =>
      obtain ⟨rfl, -⟩ := h
      exact Compiled.marks_rebasedSql (hshift q rfl)
  | fail error => rfl

/-- The text of a tidy list shows the marks of its pieces, as long as all numbers
can be read. -/
theorem Tidy.marks_written (h : Tidy b ps) (count : Nat)
    (hreadable : b.markerStyle.Readable (count + (binds ps).length))
    (hshift : ∀ q, .fragment q ∈ ps → ∀ offset,
      b.markerStyle.Readable (offset + q.binds.length) → q.ShiftableBy offset) :
    b.markerStyle.marks (written b count ps) = marks b count ps := by
  have hsound := h.sound
  rw [MarkerStyle.marks, h.lexemes]
  clear h
  induction ps generalizing count with
  | nil => rfl
  | cons p ps ih =>
      rw [binds_cons, List.length_append, ← Nat.add_assoc] at hreadable
      -- all numbers of the first piece are at most the number of binds behind it
      have hfirst := hreadable.mono (Nat.le_add_right _ _)
      have hown := (hsound p (by simp)).marks_ownText hfirst (by
        rintro q rfl
        exact hshift q (by simp) count hfirst)
      have hrest := ih _ hreadable (fun q hq => hshift q (by simp [hq])) fun q hq =>
        hsound q (by simp [hq])
      rw [MarkerStyle.marks] at hown
      rw [Piece.lexemes, List.filterMap_append, hown, hrest, marks]

end Piece

end BoundSql
