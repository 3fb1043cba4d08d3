import BoundSql.Proofs.Identifier.Delimited
import BoundSql.Proofs.Lexical.Joined
import BoundSql.Proofs.Numbering.Silent
import BoundSql.Proofs.Sql.History

/-!
# Quoted names in their surroundings

A quoted name is one thing to every reader, whatever it holds
(`quoteWith_delimits_and_hides`). A reader of names finds where it ends, so names and
columns can be told apart by how they are written, also through a dialect that remembers
forms. A reader of code finds nothing in it: the code of the whole is that of the text
before and that of the text behind, each read on its own.

For the reader of code it is enough that the text before the name is closed. A quote
character next to the name makes a longer name of it for a reader of names; but what was
between quotes stays there, because a doubled quote leaves and enters quoted text at once.
-/

namespace BoundSql.Identifier

open Lexical

/-! ## Code around a quoted name -/

theorem isSeparator_of_isQuote {c : Char} (h : isQuote c = true) : isSeparator c = true := by
  simp only [isQuote, Bool.or_eq_true, beq_iff_eq] at h
  rcases h with rfl | rfl <;> decide

section Quote

variable {quote : Char} (hquote : isQuote quote = true)

include hquote

/-- Behind a closed text a quoted name is read on its own, and so is what follows it. -/
theorem glyphs_around_quoteWith {a : List Char} (ha : EndsInCode a) (name : String)
    (t : List Char) :
    glyphs (a ++ (quoteWith quote name).toList ++ t) =
      glyphs a ++ (glyphs (quoteWith quote name).toList ++ glyphs t) := by
  have hname : EndsInCode (quoteWith quote name).toList := endsInCode_quoteWith hquote name
  -- the quote characters at both ends keep comment marks from forming across them
  have hfirst : Apart a ((quoteWith quote name).toList ++ t) := by
    right
    intro c hc
    rw [toList_quoteWith] at hc
    obtain rfl : quote = c := Option.some.inj hc
    exact isSeparator_of_isQuote hquote
  have hlast : Apart (quoteWith quote name).toList t := by
    left
    intro c hc
    rw [toList_quoteWith, List.getLast?_concat] at hc
    obtain rfl : quote = c := Option.some.inj hc
    exact isSeparator_of_isQuote hquote
  rw [List.append_assoc, glyphs_append ha hfirst.calm, glyphs_append hname hlast.calm]

/-- The spans of code around a quoted name are those of the text before it and those of the
text behind it. -/
theorem codeSpans_around_quoteWith {a : String} (ha : Closed a) (name t : String) :
    codeSpans (a ++ quoteWith quote name ++ t) =
      codeSpans a ++ (codeSpans t).map (Span.moved (a ++ quoteWith quote name).utf8ByteSize) := by
  have hglyphs := glyphs_around_quoteWith hquote ((closed_iff a).mp ha) name t.toList
  refine codeSpans_around ?_ (by simp) (glyphs_quoteWith hquote name)
  rw [String.toList_append, String.toList_append, hglyphs]

/-- No byte of a quoted name is code. -/
theorem not_covers_quoteWith {a : String} (ha : Closed a) (name t : String) {i : Nat}
    (hstart : a.utf8ByteSize ≤ i) (hstop : i < (a ++ quoteWith quote name).utf8ByteSize) :
    ¬∃ span ∈ codeSpans (a ++ quoteWith quote name ++ t), span.Covers i := by
  intro hcode
  obtain ⟨span, hspan, hi⟩ := hcode
  rw [codeSpans_around_quoteWith hquote ha, List.mem_append] at hspan
  rcases hspan with hbefore | hbehind
  · have hlt := lt_of_mem_codeSpans hbefore hi
    omega
  · obtain ⟨moved, -, rfl⟩ := List.mem_map.mp hbehind
    have hle := hi.1
    simp only [Span.moved] at hle
    omega

end Quote

/-! ## Names and columns of a dialect -/

section Dialects

variable (b : Backend) (history history' : List Dialect.Action)

theorem quote_after (name : String) :
    ((Dialect.after b history).quote name).1 =
      (Field.named name).formWith (quoteWith b.quoteChar) := by
  rw [Dialect.quote, Dialect.form_after]
  rfl

theorem qualify_after (table column : String) :
    ((Dialect.after b history).qualify table column).1 =
      (Field.onTable table column).formWith (quoteWith b.quoteChar) := by
  rw [Dialect.qualify, Dialect.form_after]
  rfl

theorem quote_after_inj (m n : String) :
    ((Dialect.after b history).quote m).1 = ((Dialect.after b history').quote n).1 ↔ m = n := by
  rw [quote_after, quote_after, formWith_quoteWith_inj (quoteChar_ne_point b)]
  simp [Field.named]

theorem qualify_after_inj (s c t d : String) :
    ((Dialect.after b history).qualify s c).1 = ((Dialect.after b history').qualify t d).1 ↔
      s = t ∧ c = d := by
  rw [qualify_after, qualify_after, formWith_quoteWith_inj (quoteChar_ne_point b)]
  simp [Field.onTable]

theorem quote_after_ne_qualify (name table column : String) :
    ((Dialect.after b history).quote name).1 ≠
      ((Dialect.after b history').qualify table column).1 := by
  rw [quote_after, qualify_after, ne_eq, formWith_quoteWith_inj (quoteChar_ne_point b)]
  simp [Field.named, Field.onTable]

end Dialects

/-! ## Main statement -/

/-- A name is read from a text, and a rest behind it, just if the text is the quoted name with
this rest and the rest does not start with the quote character. So no two names are quoted
alike, and a column of a table is never written as one without. No two columns of tables are
written alike either, unless the quote character is the point that stands between the two
names. In particular the dialects of a backend write each name and each column of a table in a
way of its own, whatever names they have written before. Behind a closed text, a name between
quotes that the reader of code knows adds no code and hides none. -/
theorem quoteWith_delimits_and_hides (quote : Char) :
    (∀ (name : String) (text rest : List Char),
        readQuoted? quote text = some (name.toList, rest) ↔
          text = (quoteWith quote name).toList ++ rest ∧ rest.head? ≠ some quote) ∧
      Function.Injective (quoteWith quote) ∧
      (∀ f g : Field, f.formWith (quoteWith quote) = g.formWith (quoteWith quote) →
        (f.table = none ↔ g.table = none)) ∧
      (quote ≠ '.' → ∀ f g : Field,
        f.formWith (quoteWith quote) = g.formWith (quoteWith quote) ↔
          f.table = g.table ∧ f.column = g.column) ∧
      (∀ (b : Backend) (history history' : List Dialect.Action),
        let d := Dialect.after b history
        let d' := Dialect.after b history'
        (∀ m n, (d.quote m).1 = (d'.quote n).1 ↔ m = n) ∧
          (∀ s c t e, (d.qualify s c).1 = (d'.qualify t e).1 ↔ s = t ∧ c = e) ∧
          ∀ name table column, (d.quote name).1 ≠ (d'.qualify table column).1) ∧
      (isQuote quote = true → ∀ a name t : String, Closed a →
        let sql := a ++ quoteWith quote name ++ t
        let stop := (a ++ quoteWith quote name).utf8ByteSize
        codeSpans sql = codeSpans a ++ (codeSpans t).map (Span.moved stop) ∧
          ∀ i, a.utf8ByteSize ≤ i → i < stop → ¬∃ span ∈ codeSpans sql, span.Covers i) := by
  refine ⟨fun name text rest => readQuoted?_eq_some_iff, quoteWith_injective quote,
    fun f g h => ⟨table_eq_none_of_formWith_eq h, table_eq_none_of_formWith_eq h.symm⟩,
    formWith_quoteWith_inj, ?_, ?_⟩
  · intro b history history'
    exact ⟨quote_after_inj b history history', qualify_after_inj b history history',
      quote_after_ne_qualify b history history'⟩
  · intro hquote a name t ha
    exact ⟨codeSpans_around_quoteWith hquote ha name t,
      fun i hstart hstop => not_covers_quoteWith hquote ha name t hstart hstop⟩

/-- A name with quotes, a marker and a comment mark behind quoted text, and a name that looks
like a column of a table. -/
theorem quoteWith_delimits_and_hides_lookalikes :
    let a := "x = '?' AND "
    let name := "\"$1\" --"
    let t := " = $2"
    isQuote '"' = true ∧ Closed a ∧ t.toList.head? ≠ some '"' ∧
      readQuoted? '"' ((quoteWith '"' name).toList ++ t.toList) = some (name.toList, t.toList) ∧
      (Field.named "u\".\"id").formWith (quoteWith '"') ≠
        (Field.onTable "u" "id").formWith (quoteWith '"') ∧
      codeSpans (a ++ quoteWith '"' name ++ t) = [⟨0, 4⟩, ⟨7, 12⟩, ⟨23, 28⟩] := by
  intro a name t
  obtain ⟨hread, -, -, hcolumns, -, hcode⟩ := quoteWith_delimits_and_hides '"'
  have hclosed : Closed a := by decide +kernel
  have hrest : t.toList.head? ≠ some '"' := by decide
  refine ⟨rfl, hclosed, hrest, (hread name _ _).mpr ⟨rfl, hrest⟩, ?_, ?_⟩
  · intro h
    exact absurd ((hcolumns (by decide) _ _).mp h).1 (by decide)
  · rw [(hcode rfl a name t hclosed).1]
    decide +kernel

/-- Between points, two columns of different tables are written alike, and so are two columns
of one table if a dialect has the form of one of them recorded for the other. -/
theorem formWith_quoteWith_clashes :
    let recorded := (Dialect.fresh .postgresql).record "a" "\"b\""
    let first := recorded.2.qualify "t" "a"
    let second := first.2.qualify "t" "b"
    (Field.onTable "a." "b").formWith (quoteWith '.') =
        (Field.onTable "a" ".b").formWith (quoteWith '.') ∧
      first.1 = second.1 := by
  decide +kernel

end BoundSql.Identifier
