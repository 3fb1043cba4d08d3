import BoundSql.Proofs.Identifier.Erasure
import BoundSql.Proofs.Identifier.Raised

/-!
# Pieces read in tokens

`Piece.Reads` relates pieces to pieces with other names: both are written in the same
tokens, but for the names in them, behind any number of binds. The relation is
closed under putting pieces together, as long as no two names meet. `ReadsBehind` says of
pieces that they do not start with a name, so that they can stand behind any others; the
words between the parts of a statement do not.

A compiled query takes part with its own tokens, raised by the number of binds before it
(`reads_fragment`).
-/

namespace BoundSql

open Identifier (Token Separable render namesOf tokens? isSteady separable_nil separable_outside
  separable_quoted ne_quoteChar_of_isSteady)
open Piece (failure? written commaSeparated binds)

namespace Piece

/-- Pieces `ps` that are written in tokens with the names `ns`, and pieces `qs` that are
written in the same tokens but for the names. Failures are in both or in none. -/
structure Reads (b : Backend) (ps qs : List Piece) (ns : List String) : Prop where
  failure : (failure? qs).isSome = (failure? ps).isSome
  binds : Piece.binds qs = Piece.binds ps
  text : failure? ps = none → ∀ count, ∃ ts us, Separable b ts ∧ namesOf ts = ns ∧
    us.map Token.erase = ts.map Token.erase ∧ written b count ps = render b.quoteChar ts ∧
    written b count qs = render b.quoteChar us

/-- Pieces whose text does not start with a name. -/
def Leading (b : Backend) (ps : List Piece) : Prop :=
  ∀ count, (written b count ps).head? ≠ some b.quoteChar

/-- Pieces whose text does not end in a name. -/
def Trailing (b : Backend) (ps : List Piece) : Prop :=
  ∀ count, (written b count ps).getLast? ≠ some b.quoteChar

variable {b : Backend} {ps qs ps' qs' : List Piece} {ns ns' : List String}

/-! ## Single pieces -/

theorem reads_nil (b : Backend) : Reads b [] [] [] :=
  ⟨rfl, rfl, fun _ _ => ⟨[], [], separable_nil b, rfl, rfl, rfl, rfl⟩⟩

/-- Pieces of one text that is the same with and without names. -/
theorem reads_of_steady {p : Piece}
    (h : ∀ count, ∀ c ∈ p.ownText (Identifier.quoted b) b count, isSteady b c = true) :
    Reads b [p] [p] [] := by
  refine ⟨rfl, rfl, fun _ count => ?_⟩
  have hwritten : written b count [p] =
      render b.quoteChar ((p.ownText (Identifier.quoted b) b count).map .outside) := by
    rw [Identifier.render_outside, Piece.written_cons, Piece.written_nil, List.append_nil]
  exact ⟨_, _, separable_outside (h count), Identifier.namesOf_outside _, rfl, hwritten, hwritten⟩

theorem reads_text {s : String} (h : ∀ c ∈ s.toList, isSteady b c = true) :
    Reads b [.text s] [.text s] [] :=
  reads_of_steady fun _ => h

theorem reads_name (ident other : String) : Reads b [.name ident] [.name other] [ident] := by
  refine ⟨rfl, rfl, fun _ count => ?_⟩
  refine ⟨[.quoted ident], [.quoted other], separable_quoted b ident, rfl, rfl, ?_, ?_⟩ <;>
    simp [ownText, Token.chars, Identifier.quoted]

/-- Pieces with the text, the binds and the failure of others are read like these. -/
theorem Reads.of_written (hp : Reads b ps qs ns) (hfailure : failure? ps' = failure? ps)
    (hbinds : Piece.binds ps' = Piece.binds ps)
    (hwritten : ∀ count, written b count ps' = written b count ps) : Reads b ps' qs ns := by
  refine ⟨by rw [hfailure, hp.failure], by rw [hbinds, hp.binds], fun hnone count => ?_⟩
  rw [hwritten]
  exact hp.text (hfailure ▸ hnone) count

theorem reads_fail (e e' : Error) (ns : List String) : Reads b [.fail e] [.fail e'] ns :=
  ⟨rfl, rfl, fun h => by cases h⟩

theorem reads_bind (value : Bind) : Reads b [.bind value] [.bind value] [] := by
  refine reads_of_steady fun count c hc => ?_
  have hmarker : c = '?' ∨ c = '$' ∨ c.isDigit = true := by
    cases hstyle : b.markerStyle with
    | numbered =>
        simp only [ownText, Backend.marker, hstyle, MarkerStyle.marker, String.toList_ofList,
          List.mem_cons] at hc
        exact Or.inr (hc.imp_right Text.isDigit_of_mem_digits)
    | positional =>
        simp only [ownText, Backend.marker, hstyle, MarkerStyle.marker] at hc
        exact Or.inl (by simpa using hc)
  rcases hmarker with rfl | rfl | hdigit
  · cases b <;> decide
  · cases b <;> decide
  · exact Identifier.isSteady_of_isDigit hdigit b

/-- A compiled query whose text is in tokens takes part with its own names. -/
theorem reads_fragment {q : Compiled} {ts : List Token} (h : Separable q.backend ts)
    (htext : q.sql.toList = render q.backend.quoteChar ts) :
    Reads q.backend [.fragment q] [.fragment q.erase] q.writtenNames := by
  have htokens : q.tokens = ts := by
    rw [Compiled.tokens, htext, h.tokens?_render]
    rfl
  refine ⟨rfl, rfl, fun _ count => ?_⟩
  obtain ⟨us, hus, hnames, hwritten, herased⟩ := h.rebasedSql htext count
  refine ⟨us, us.map Token.erase, hus, by rw [hnames, Compiled.writtenNames, htokens], ?_, ?_, ?_⟩
  · simp
  · simpa [ownText] using hwritten
  · simpa [ownText] using herased q.erase rfl (by simp [Compiled.erase, htokens])

/-! ## Pieces put together -/

theorem Reads.append (hp : Reads b ps qs ns) (hq : Reads b ps' qs' ns')
    (h : Trailing b ps ∨ Leading b ps') : Reads b (ps ++ ps') (qs ++ qs') (ns ++ ns') := by
  refine ⟨?_, ?_, fun hfailure count => ?_⟩
  · rw [failure?_append, failure?_append, Option.isSome_or, Option.isSome_or, hp.failure,
      hq.failure]
  · rw [binds_append, binds_append, hp.binds, hq.binds]
  · rw [failure?_append, Option.or_eq_none_iff] at hfailure
    obtain ⟨ts, us, hts, hnames, herase, hwritten, hother⟩ := hp.text hfailure.1 count
    obtain ⟨ts', us', hts', hnames', herase', hwritten', hother'⟩ :=
      hq.text hfailure.2 (count + (Piece.binds ps).length)
    refine ⟨ts ++ ts', us ++ us', hts.append hts' ?_, ?_, ?_, ?_, ?_⟩
    · rw [← hwritten, ← hwritten']
      exact h.imp (· count) (· _)
    · rw [Identifier.namesOf_append, hnames, hnames']
    · rw [List.map_append, List.map_append, herase, herase']
    · rw [written_append, hwritten, hwritten', Identifier.render_append]
    · rw [written_append, hp.binds, hother, hother', Identifier.render_append]

/-- Words that stand between names. -/
def Words (s : String) : Prop :=
  s.toList ≠ [] ∧ ∀ c ∈ s.toList, Identifier.isInert c = true

instance (s : String) : Decidable (Words s) :=
  @instDecidableAnd _ _ inferInstance (List.decidableBAll _ s.toList)

theorem leading_text {s : String} (hne : s.toList ≠ [])
    (h : ∀ c ∈ s.toList, isSteady b c = true) (ps : List Piece) : Leading b (.text s :: ps) := by
  intro count hhead
  obtain ⟨c, cs, hs⟩ := List.exists_cons_of_ne_nil hne
  simp only [written_cons, ownText, hs, List.cons_append, List.head?_cons, Option.some.injEq]
    at hhead
  exact ne_quoteChar_of_isSteady (h c (by simp [hs])) hhead

theorem leading_singleton {s : String} (h : ∀ c ∈ s.toList, isSteady b c = true) :
    Leading b [.text s] := by
  intro count hhead
  simp only [written_cons, written_nil, ownText, List.append_nil] at hhead
  exact ne_quoteChar_of_isSteady (h _ (List.mem_of_mem_head? hhead)) rfl

theorem trailing_text {s : String} (h : ∀ c ∈ s.toList, isSteady b c = true) :
    Trailing b [.text s] := by
  intro count hlast
  simp only [written_cons, written_nil, ownText, List.append_nil] at hlast
  exact ne_quoteChar_of_isSteady (h _ (List.mem_of_getLast? hlast)) rfl

theorem Words.steady {s : String} (h : Words s) (b : Backend) :
    ∀ c ∈ s.toList, isSteady b c = true :=
  fun c hc => Identifier.isSteady_of_isInert (h.2 c hc) b

theorem Words.append {s t : String} (hs : Words s)
    (ht : ∀ c ∈ t.toList, Identifier.isInert c = true) : Words (s ++ t) := by
  refine ⟨by simp [hs.1], fun c hc => ?_⟩
  rw [String.toList_append] at hc
  exact (List.mem_append.mp hc).elim (hs.2 c) (ht c)

theorem reads_words {s : String} (h : Words s := by decide) : Reads b [.text s] [.text s] [] :=
  reads_text (h.steady b)

/-- Words in front of a list. -/
theorem Reads.glue {s : String} (hp : Reads b ps qs ns) (hs : Words s := by decide) :
    Reads b (.text s :: ps) (.text s :: qs) ns :=
  (reads_words hs).append hp (Or.inl (trailing_text (hs.steady b)))

/-- Two lists with words between them. -/
theorem Reads.join {s : String} (hp : Reads b ps qs ns) (hq : Reads b ps' qs' ns')
    (hs : Words s := by decide) :
    Reads b (ps ++ .text s :: ps') (qs ++ .text s :: qs') (ns ++ ns') :=
  hp.append (hq.glue hs) (Or.inr (leading_text hs.1 (hs.steady b) ps'))

/-- A list with words behind it. -/
theorem Reads.shut {s : String} (hp : Reads b ps qs ns) (hs : Words s := by decide) :
    Reads b (ps ++ [.text s]) (qs ++ [.text s]) ns := by
  simpa using hp.append (reads_words hs) (Or.inr (leading_text hs.1 (hs.steady b) []))

/-- A name in front of words and a list. -/
theorem Reads.name {s : String} (ident : String) (hp : Reads b ps qs ns)
    (hs : Words s := by decide) :
    Reads b (.name ident :: .text s :: ps) (.name "" :: .text s :: qs) (ident :: ns) :=
  (reads_name ident "").join hp hs

/-- What is only mentioned leaves no trace in the text. -/
theorem views_of_mentions {ms : List Piece} (h : ∀ p ∈ ms, ∃ ident, p = .mention ident) :
    failure? ms = none ∧ Piece.binds ms = [] ∧ ∀ count, written b count ms = [] := by
  induction ms with
  | nil => exact ⟨rfl, rfl, fun _ => rfl⟩
  | cons p ms ih =>
      obtain ⟨ident, rfl⟩ := h p (by simp)
      obtain ⟨hfailure, hbinds, hwritten⟩ := ih fun q hq => h q (by simp [hq])
      refine ⟨by simp [hfailure, error?], by simp [hbinds, ownBinds], fun count => ?_⟩
      simp [hwritten, ownText]

/-- Mentions in front of a list, which need not be as many without the names. -/
theorem Reads.mentions {ms ms' : List Piece} (hp : Reads b ps qs ns)
    (hms : ∀ p ∈ ms, ∃ ident, p = .mention ident)
    (hms' : ∀ p ∈ ms', ∃ ident, p = .mention ident) : Reads b (ms ++ ps) (ms' ++ qs) ns := by
  obtain ⟨hfailure, hbinds, hwritten⟩ := views_of_mentions (b := b) hms
  obtain ⟨hfailure', hbinds', hwritten'⟩ := views_of_mentions (b := b) hms'
  have hmentions : Reads b ms ms' [] := by
    refine ⟨by rw [hfailure, hfailure'], by rw [hbinds, hbinds'], fun _ count => ?_⟩
    exact ⟨[], [], separable_nil b, rfl, rfl, hwritten count, hwritten' count⟩
  exact hmentions.append hp (Or.inl fun count => by simp [hwritten])

theorem reads_commaSeparated {α : Type} {f g : α → List Piece} {names : α → List String}
    {xs : List α} (h : ∀ x ∈ xs, Reads b (f x) (g x) (names x)) :
    Reads b (commaSeparated (xs.map f)) (commaSeparated (xs.map g)) (xs.flatMap names) := by
  induction xs with
  | nil => exact reads_nil b
  | cons x xs ih =>
      have hx := h x (by simp)
      have hrest := ih fun y hy => h y (by simp [hy])
      cases xs with
      | nil => simpa [commaSeparated] using hx
      | cons y ys => exact hx.join hrest

theorem reads_binds {α : Type} (f : α → Bind) (xs : List α) :
    Reads b (commaSeparated (xs.map fun x => [.bind (f x)]))
      (commaSeparated (xs.map fun x => [.bind (f x)])) [] := by
  have hnone : xs.flatMap (fun _ => ([] : List String)) = [] :=
    List.flatMap_eq_nil_iff.mpr fun _ _ => rfl
  rw [← hnone]
  exact reads_commaSeparated fun x _ => reads_bind (f x)

/-! ## Pieces behind others -/

/-- Pieces that can stand behind any pieces. -/
structure ReadsBehind (b : Backend) (ps qs : List Piece) (ns : List String) : Prop where
  reads : Reads b ps qs ns
  leading : Leading b ps

theorem readsBehind_nil (b : Backend) : ReadsBehind b [] [] [] :=
  ⟨reads_nil b, fun _ => by simp⟩

theorem Reads.behind {s : String} (hp : Reads b ps qs ns) (hs : Words s := by decide) :
    ReadsBehind b (.text s :: ps) (.text s :: qs) ns :=
  ⟨hp.glue hs, leading_text hs.1 (hs.steady b) ps⟩

theorem Reads.append_behind (hp : Reads b ps qs ns) (hq : ReadsBehind b ps' qs' ns') :
    Reads b (ps ++ ps') (qs ++ qs') (ns ++ ns') :=
  hp.append hq.reads (Or.inr hq.leading)

theorem ReadsBehind.append (hp : ReadsBehind b ps qs ns) (hq : ReadsBehind b ps' qs' ns') :
    ReadsBehind b (ps ++ ps') (qs ++ qs') (ns ++ ns') := by
  refine ⟨hp.reads.append_behind hq, fun count hhead => ?_⟩
  rw [written_append, List.head?_append] at hhead
  cases hfirst : (written b count ps).head? with
  | none => exact hq.leading _ (by simpa [hfirst] using hhead)
  | some c => exact hp.leading count (by rw [hfirst, ← hhead, hfirst]; rfl)

theorem readsBehind_flatMap {α : Type} {f g : α → List Piece} {names : α → List String}
    {xs : List α} (h : ∀ x ∈ xs, ReadsBehind b (f x) (g x) (names x)) :
    ReadsBehind b (xs.flatMap f) (xs.flatMap g) (xs.flatMap names) := by
  induction xs with
  | nil => exact readsBehind_nil b
  | cons x xs ih => exact (h x (by simp)).append (ih fun y hy => h y (by simp [hy]))

end Piece

end BoundSql
