import BoundSql.Lexical.Glyph
import BoundSql.Proofs.Identifier.Delimited
import Mathlib.Data.List.Chain

/-!
# Texts in tokens

A reader who knows nothing of SQL but the quote character of a backend sees a text as
quoted names and characters outside them. `tokens?` is that reader: a doubled quote
character is one character of a name, and a text with a name that does not end cannot be
read.

Different lists of tokens can have the same text: two names that stand side by side read
as one. `Separable` says that this does not happen, and then the tokens are read back from
their text (`Separable.tokens?_render`).
-/

namespace BoundSql.Identifier

/-- A quoted name, or one character outside the quoted names. -/
inductive Token where
  | outside (c : Char)
  | quoted (name : String)
  deriving DecidableEq, Repr

namespace Token

/-- The text of a token. -/
def chars (quote : Char) : Token → List Char
  | .outside c => [c]
  | .quoted name => (quoteWith quote name).toList

/-- The name of a token. -/
def name? : Token → Option String
  | .outside _ => none
  | .quoted name => some name

/-- The token without its name. What is left of a quoted name is its place. -/
def erase : Token → Token
  | .outside c => .outside c
  | .quoted _ => .quoted ""

@[simp] theorem erase_erase (t : Token) : t.erase.erase = t.erase := by
  cases t <;> rfl

theorem name?_erase (t : Token) : t.erase.name? = t.name?.map fun _ => "" := by
  cases t <;> rfl

end Token

/-- The text of tokens. -/
def render (quote : Char) (ts : List Token) : List Char :=
  ts.flatMap (Token.chars quote)

/-- The names of tokens in their order. -/
def namesOf (ts : List Token) : List String :=
  ts.filterMap Token.name?

@[simp] theorem render_nil (quote : Char) : render quote [] = [] := rfl

@[simp] theorem render_cons (quote : Char) (t : Token) (ts : List Token) :
    render quote (t :: ts) = t.chars quote ++ render quote ts := rfl

@[simp] theorem render_append (quote : Char) (ts us : List Token) :
    render quote (ts ++ us) = render quote ts ++ render quote us :=
  List.flatMap_append

@[simp] theorem render_outside (quote : Char) (cs : List Char) :
    render quote (cs.map .outside) = cs := by
  induction cs with
  | nil => rfl
  | cons c cs ih => simp [Token.chars, ih]

@[simp] theorem namesOf_append (ts us : List Token) :
    namesOf (ts ++ us) = namesOf ts ++ namesOf us :=
  List.filterMap_append

@[simp] theorem namesOf_outside (cs : List Char) : namesOf (cs.map .outside) = [] := by
  simp [namesOf, Token.name?]

@[simp] theorem map_erase_outside (cs : List Char) :
    (cs.map Token.outside).map Token.erase = cs.map .outside := by
  simp [Token.erase]

/-! ## Reading -/

/-- Reading a name takes at least its closing quote character. -/
theorem length_readBody? {quote : Char} {cs name rest : List Char}
    (h : readBody? quote cs = some (name, rest)) : rest.length < cs.length := by
  obtain ⟨rfl, -⟩ := eq_of_readBody? h
  simp only [List.length_append, List.length_cons]
  omega

/-- The tokens of a text, if each of its quoted names ends. -/
def tokens? (quote : Char) : List Char → Option (List Token)
  | [] => some []
  | c :: cs =>
      if c = quote then
        match _h : readBody? quote cs with
        | some (name, rest) => (tokens? quote rest).map (.quoted (String.ofList name) :: ·)
        | none => none
      else (tokens? quote cs).map (.outside c :: ·)
termination_by cs => cs.length
decreasing_by
  · have := length_readBody? _h
    simp only [List.length_cons]
    omega
  · simp

theorem tokens?_cons_of_ne {quote c : Char} (hc : c ≠ quote) (cs : List Char) :
    tokens? quote (c :: cs) = (tokens? quote cs).map (.outside c :: ·) := by
  rw [tokens?, if_neg hc]

theorem tokens?_quoteWith {quote : Char} (name : String) {rest : List Char}
    (h : rest.head? ≠ some quote) :
    tokens? quote ((quoteWith quote name).toList ++ rest) =
      (tokens? quote rest).map (.quoted name :: ·) := by
  have hbody := readBody?_double name.toList rest h
  rw [toList_quoteWith, List.append_assoc, List.cons_append, tokens?, if_pos rfl]
  simp only [List.singleton_append]
  split
  · rename_i body tail heq
    obtain ⟨rfl, rfl⟩ := Prod.mk.inj (Option.some.inj (heq.symm.trans hbody))
    rw [String.ofList_toList]
  · rename_i heq
    cases heq.symm.trans hbody

/-! ## Separable tokens -/

/-- A character outside names that leaves names alone. Where markers have numbers, texts
are renumbered by a reader who knows quotes and comments, so that these may not start
outside names. -/
def isSteady (b : Backend) (c : Char) : Bool :=
  c != b.quoteChar &&
    (b.markerStyle == .positional || !(Lexical.isQuote c || c == '-' || c == '/'))

/-- Tokens that can be told apart in their text. -/
structure Separable (b : Backend) (ts : List Token) : Prop where
  steady : ∀ c, .outside c ∈ ts → isSteady b c = true
  apart : ts.IsChain fun t u => t.name? = none ∨ u.name? = none

/-- A character that neither quotes nor starts a comment for any reader. -/
def isInert (c : Char) : Bool :=
  !(['"', '\'', '\x60', '-', '/'].contains c)

theorem isSteady_of_isInert {c : Char} (h : isInert c = true) (b : Backend) :
    isSteady b c = true := by
  have hc : c ≠ '"' ∧ c ≠ '\'' ∧ c ≠ '\x60' ∧ c ≠ '-' ∧ c ≠ '/' := by simpa [isInert] using h
  cases b <;> simp [isSteady, Backend.quoteChar, Backend.markerStyle, Lexical.isQuote, hc]

theorem isInert_of_isDigit {c : Char} (h : c.isDigit = true) : isInert c = true := by
  simp only [isInert, Bool.not_eq_true', List.contains_eq_mem, decide_eq_false_iff_not,
    List.mem_cons, List.not_mem_nil, or_false, not_or]
  refine ⟨?_, ?_, ?_, ?_, ?_⟩ <;> rintro rfl <;> exact absurd h (by decide)

theorem isSteady_of_isDigit {c : Char} (h : c.isDigit = true) (b : Backend) :
    isSteady b c = true :=
  isSteady_of_isInert (isInert_of_isDigit h) b

theorem ne_quoteChar_of_isSteady {b : Backend} {c : Char} (h : isSteady b c = true) :
    c ≠ b.quoteChar := by
  simp only [isSteady, Bool.and_eq_true, bne_iff_ne] at h
  exact h.1

section Separable

variable {b : Backend} {t : Token} {ts us : List Token}

theorem separable_nil (b : Backend) : Separable b [] :=
  ⟨by simp, List.isChain_nil⟩

theorem separable_quoted (b : Backend) (name : String) : Separable b [.quoted name] :=
  ⟨by simp, List.isChain_singleton _⟩

theorem separable_outside {cs : List Char} (h : ∀ c ∈ cs, isSteady b c = true) :
    Separable b (cs.map .outside) := by
  refine ⟨by simpa using h, ?_⟩
  rw [List.isChain_map]
  exact (List.isChain_isInfix cs).imp fun _ _ _ => Or.inl rfl

theorem Separable.tail (h : Separable b (t :: ts)) : Separable b ts :=
  ⟨fun c hc => h.steady c (by simp [hc]), (List.isChain_cons.mp h.apart).2⟩

/-- Names have no say in whether tokens can be told apart. -/
theorem separable_map_erase_iff : Separable b (ts.map Token.erase) ↔ Separable b ts := by
  have hsteady : ∀ c, .outside c ∈ ts.map Token.erase ↔ .outside c ∈ ts := by
    intro c
    rw [List.mem_map]
    constructor
    · rintro ⟨t, ht, herase⟩
      cases t with
      | outside d => rwa [← herase]
      | quoted name => cases herase
    · exact fun hc => ⟨_, hc, rfl⟩
  have hapart : (ts.map Token.erase).IsChain (fun t u => t.name? = none ∨ u.name? = none) ↔
      ts.IsChain fun t u => t.name? = none ∨ u.name? = none := by
    simp only [List.isChain_map, Token.name?_erase, Option.map_eq_none_iff]
  constructor
  · exact fun h => ⟨fun c hc => h.steady c ((hsteady c).mpr hc), hapart.mp h.apart⟩
  · exact fun h => ⟨fun c hc => h.steady c ((hsteady c).mp hc), hapart.mpr h.apart⟩

theorem Separable.of_erase (h : Separable b ts) (herase : us.map Token.erase = ts.map Token.erase) :
    Separable b us := by
  rw [← separable_map_erase_iff, herase, separable_map_erase_iff]
  exact h

/-- A name is next to a text that starts with the quote character just if the text starts
with a name. -/
theorem Separable.head?_render (h : Separable b ts) :
    (render b.quoteChar ts).head? = some b.quoteChar ↔
      ∃ t ∈ ts.head?, t.name? ≠ none := by
  cases ts with
  | nil => simp
  | cons t ts =>
      cases t with
      | outside c =>
          have hc := ne_quoteChar_of_isSteady (h.steady c (by simp))
          simpa [Token.chars, Token.name?] using hc
      | quoted name => simp [Token.chars, Token.name?]

/-- No name follows a name. -/
theorem Separable.head?_render_tail {name : String} (h : Separable b (.quoted name :: ts)) :
    (render b.quoteChar ts).head? ≠ some b.quoteChar := by
  rw [ne_eq, h.tail.head?_render]
  rintro ⟨u, hu, hname⟩
  rcases (List.isChain_cons.mp h.apart).1 u hu with hquoted | houtside
  · cases hquoted
  · exact hname houtside

theorem getLast?_render_quoted (quote : Char) (ts : List Token) (name : String) :
    (render quote (ts ++ [.quoted name])).getLast? = some quote := by
  simp [Token.chars, List.getLast?_append, List.getLast?_cons]

/-- Tokens of two texts of which one shows the other no quote character. -/
theorem Separable.append (ht : Separable b ts) (hu : Separable b us)
    (h : (render b.quoteChar ts).getLast? ≠ some b.quoteChar ∨
      (render b.quoteChar us).head? ≠ some b.quoteChar) : Separable b (ts ++ us) := by
  refine ⟨fun c hc => ?_, List.isChain_append.mpr ⟨ht.apart, hu.apart, ?_⟩⟩
  · exact (List.mem_append.mp hc).elim (ht.steady c) (hu.steady c)
  · intro t hlast u hhead
    rcases h with h | h
    · cases t with
      | outside c => exact Or.inl rfl
      | quoted name =>
          obtain ⟨before, rfl⟩ := List.getLast?_eq_some_iff.mp hlast
          exact absurd (getLast?_render_quoted _ before name) h
    · right
      by_contra hname
      exact h (hu.head?_render.mpr ⟨u, hhead, hname⟩)

/-- Separable tokens are read back from their text. In particular every name ends. -/
theorem Separable.tokens?_render (h : Separable b ts) :
    tokens? b.quoteChar (render b.quoteChar ts) = some ts := by
  induction ts with
  | nil => rw [render_nil, tokens?]
  | cons t ts ih =>
      have hrest := ih h.tail
      cases t with
      | outside c =>
          have hc := ne_quoteChar_of_isSteady (h.steady c (by simp))
          rw [render_cons, Token.chars, List.singleton_append, tokens?_cons_of_ne hc, hrest]
          rfl
      | quoted name =>
          rw [render_cons, Token.chars, tokens?_quoteWith name h.head?_render_tail, hrest]
          rfl

end Separable

end BoundSql.Identifier
