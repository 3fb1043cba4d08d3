import BoundSql.Sql.Field

/-!
# Written identifiers can be read back

`readQuoted?` reads one identifier from the front of a text, taking a doubled quote
character for one. It reads each written identifier back together with what follows,
as long as no further quote character follows (`readQuoted?_quoteWith`), and it reads
nothing else (`readQuoted?_eq_some_iff`). So a written identifier shows where it ends,
whatever characters it holds, and two texts that start with identifiers are equal only
if the identifiers and the rests are (`quoteWith_append_inj`). The same goes for
columns, and those of tables are told from the others (`formWith_append_inj`).

Between points, the two parts of a column of a table cannot be told apart, because the
point between them is no different from a doubled one. That there are two can be told even
then: written identifiers hold an even number of quote characters, and the point between
two of them is one more (`table_eq_none_of_formWith_eq`).
-/

namespace BoundSql.Identifier

/-- The identifier up to its closing quote character, and the text behind it. -/
def readBody? (quote : Char) : List Char → Option (List Char × List Char)
  | [] => none
  | [c] => if c = quote then some ([], []) else none
  | c :: d :: cs =>
      if c = quote then
        if d = quote then (readBody? quote cs).map fun r => (quote :: r.1, r.2)
        else some ([], d :: cs)
      else (readBody? quote (d :: cs)).map fun r => (c :: r.1, r.2)

/-- The identifier that a text starts with, and the text behind it. -/
def readQuoted? (quote : Char) : List Char → Option (List Char × List Char)
  | [] => none
  | c :: cs => if c = quote then readBody? quote cs else none

theorem readBody?_cons_of_ne {quote c : Char} (hc : c ≠ quote) {cs : List Char}
    (hcs : cs ≠ []) :
    readBody? quote (c :: cs) = (readBody? quote cs).map fun r => (c :: r.1, r.2) := by
  obtain ⟨d, cs, rfl⟩ := List.exists_cons_of_ne_nil hcs
  rw [readBody?, if_neg hc]

/-- A closing quote character is read as such unless it is doubled. -/
theorem readBody?_close {quote : Char} {rest : List Char} (h : rest.head? ≠ some quote) :
    readBody? quote (quote :: rest) = some ([], rest) := by
  cases rest with
  | nil => simp [readBody?]
  | cons d ds =>
      have hd : d ≠ quote := by simpa using h
      simp [readBody?, hd]

theorem readBody?_double {quote : Char} (name rest : List Char)
    (h : rest.head? ≠ some quote) :
    readBody? quote (double quote name ++ quote :: rest) = some (name, rest) := by
  induction name with
  | nil => exact readBody?_close h
  | cons c cs ih =>
      by_cases hc : c = quote
      · simp [double, hc, readBody?, ih]
      · rw [double, if_neg hc, List.cons_append, readBody?_cons_of_ne hc (by simp), ih]
        rfl

/-- A body that was read is the doubled identifier with its closing quote character in
front of the rest. -/
theorem eq_of_readBody? {quote : Char} {cs name rest : List Char}
    (h : readBody? quote cs = some (name, rest)) :
    cs = double quote name ++ quote :: rest ∧ rest.head? ≠ some quote := by
  induction cs using readBody?.induct quote generalizing name with
  | case1 => cases h
  | case2 =>
      simp only [readBody?, if_true, Option.some.injEq, Prod.mk.injEq] at h
      obtain ⟨rfl, rfl⟩ := h
      simp
  | case3 c hc => simp [readBody?, hc] at h
  | case4 cs ih =>
      simp only [readBody?, if_true, Option.map_eq_some_iff, Prod.mk.injEq] at h
      obtain ⟨r, hr, rfl, rfl⟩ := h
      obtain ⟨hcs, hrest⟩ := ih hr
      exact ⟨by simp [double, ← hcs], hrest⟩
  | case5 d cs hd =>
      simp only [readBody?, if_true, if_neg hd, Option.some.injEq, Prod.mk.injEq] at h
      obtain ⟨rfl, rfl⟩ := h
      simp [hd]
  | case6 c d cs hc ih =>
      simp only [readBody?, if_neg hc, Option.map_eq_some_iff, Prod.mk.injEq] at h
      obtain ⟨r, hr, rfl, rfl⟩ := h
      obtain ⟨hcs, hrest⟩ := ih hr
      exact ⟨by simp [double, hc, ← hcs], hrest⟩

theorem readQuoted?_quoteWith {quote : Char} (name : String) {rest : List Char}
    (h : rest.head? ≠ some quote) :
    readQuoted? quote ((quoteWith quote name).toList ++ rest) = some (name.toList, rest) := by
  rw [toList_quoteWith, List.append_assoc, List.cons_append, readQuoted?, if_pos rfl]
  exact readBody?_double name.toList rest h

/-- What is read is the identifier that the text was written with, and nothing but written
identifiers is read. -/
theorem readQuoted?_eq_some_iff {quote : Char} {name : String} {text rest : List Char} :
    readQuoted? quote text = some (name.toList, rest) ↔
      text = (quoteWith quote name).toList ++ rest ∧ rest.head? ≠ some quote := by
  constructor
  · intro h
    cases text with
    | nil => cases h
    | cons c cs =>
        by_cases hc : c = quote
        · rw [readQuoted?, if_pos hc] at h
          obtain ⟨rfl, hrest⟩ := eq_of_readBody? h
          exact ⟨by simp [hc], hrest⟩
        · rw [readQuoted?, if_neg hc] at h
          cases h
  · intro h
    obtain ⟨rfl, hrest⟩ := h
    exact readQuoted?_quoteWith name hrest

/-- Two texts that start with written identifiers are equal only if both the
identifiers and the rests are. -/
theorem quoteWith_append_inj {quote : Char} {m n : String} {x y : List Char}
    (hx : x.head? ≠ some quote) (hy : y.head? ≠ some quote)
    (h : (quoteWith quote m).toList ++ x = (quoteWith quote n).toList ++ y) : m = n ∧ x = y := by
  have hread := readQuoted?_quoteWith m hx
  rw [h, readQuoted?_quoteWith n hy] at hread
  obtain ⟨hname, hrest⟩ := Prod.mk.inj (Option.some.inj hread)
  exact ⟨(String.toList_inj.mp hname).symm, hrest.symm⟩

theorem quoteWith_injective (quote : Char) : Function.Injective (quoteWith quote) := by
  intro m n h
  have happend : (quoteWith quote m).toList ++ [] = (quoteWith quote n).toList ++ [] := by rw [h]
  exact (quoteWith_append_inj (by simp) (by simp) happend).1

/-! ## Columns -/

/-- What may follow a column: neither a quote character nor the point behind a table. -/
def EndsColumn (quote : Char) (rest : List Char) : Prop :=
  rest.head? ≠ some quote ∧ rest.head? ≠ some '.'

theorem quoteChar_ne_point (b : Backend) : b.quoteChar ≠ '.' := by
  cases b <;> decide

theorem toList_formWith_some {f : Field} {table : String} (h : f.table = some table)
    (form : String → String) :
    (f.formWith form).toList = (form table).toList ++ '.' :: (form f.column).toList := by
  simp [Field.formWith, h]

theorem toList_formWith_none {f : Field} (h : f.table = none) (form : String → String) :
    (f.formWith form).toList = (form f.column).toList := by
  rw [Field.formWith, h]

/-- Two texts that start with written columns are equal only if the columns, with their
tables if they have any, and the rests are. -/
theorem formWith_append_inj {quote : Char} (hquote : quote ≠ '.') {f g : Field}
    {x y : List Char} (hx : EndsColumn quote x) (hy : EndsColumn quote y)
    (h : (f.formWith (quoteWith quote)).toList ++ x = (g.formWith (quoteWith quote)).toList ++ y) :
    f.table = g.table ∧ f.column = g.column ∧ x = y := by
  have hpoint : ∀ z : List Char, ('.' :: z).head? ≠ some quote := by
    intro z hz
    exact hquote (Option.some.inj hz).symm
  cases hf : f.table with
  | none =>
      rw [toList_formWith_none hf] at h
      cases hg : g.table with
      | none =>
          rw [toList_formWith_none hg] at h
          exact ⟨rfl, quoteWith_append_inj hx.1 hy.1 h⟩
      | some t =>
          -- the first identifiers agree, and then a point would have to end the column
          rw [toList_formWith_some hg, List.append_assoc] at h
          obtain ⟨-, rfl⟩ := quoteWith_append_inj hx.1 (hpoint _) h
          exact absurd rfl hx.2
  | some s =>
      rw [toList_formWith_some hf, List.append_assoc] at h
      cases hg : g.table with
      | none =>
          rw [toList_formWith_none hg] at h
          obtain ⟨-, rfl⟩ := quoteWith_append_inj (hpoint _) hy.1 h
          exact absurd rfl hy.2
      | some t =>
          rw [toList_formWith_some hg, List.append_assoc] at h
          obtain ⟨rfl, hcolumn⟩ := quoteWith_append_inj (hpoint _) (hpoint _) h
          exact ⟨rfl, quoteWith_append_inj hx.1 hy.1 (List.cons.inj hcolumn).2⟩

/-- A column is written as no other is, and one of a table not as one without. -/
theorem formWith_quoteWith_inj {quote : Char} (hquote : quote ≠ '.') (f g : Field) :
    f.formWith (quoteWith quote) = g.formWith (quoteWith quote) ↔
      f.table = g.table ∧ f.column = g.column := by
  constructor
  · intro h
    have hends : EndsColumn quote [] := ⟨by simp, by simp⟩
    obtain ⟨htable, hcolumn, -⟩ :=
      formWith_append_inj hquote hends hends (congrArg (·.toList ++ []) h)
    exact ⟨htable, hcolumn⟩
  · intro h
    rw [Field.formWith, Field.formWith, h.1, h.2]

theorem count_double (quote : Char) (cs : List Char) :
    (double quote cs).count quote = 2 * cs.count quote := by
  induction cs with
  | nil => rfl
  | cons c cs ih =>
      by_cases hc : c = quote
      · simp only [double, hc, if_true, List.count_cons_self, ih]
        omega
      · rw [double, if_neg hc, List.count_cons_of_ne hc, List.count_cons_of_ne hc, ih]

/-- A written identifier holds an even number of quote characters. -/
theorem count_quoteWith (quote : Char) (name : String) :
    (quoteWith quote name).toList.count quote = 2 * (name.toList.count quote + 1) := by
  rw [toList_quoteWith, List.count_append, List.count_cons_self, List.count_singleton_self,
    count_double]
  omega

/-- Whatever the quote character, a column of a table is not written as one without. -/
theorem table_eq_none_of_formWith_eq {quote : Char} {f g : Field}
    (h : f.formWith (quoteWith quote) = g.formWith (quoteWith quote)) (hf : f.table = none) :
    g.table = none := by
  by_cases hquote : quote = '.'
  · cases hg : g.table with
    | none => rfl
    | some t =>
        have hcount := congrArg (fun s : String => s.toList.count quote) h
        simp only [toList_formWith_none hf, toList_formWith_some hg, List.count_append, hquote,
          List.count_cons_self, count_quoteWith] at hcount
        omega
  · rw [← ((formWith_quoteWith_inj hquote f g).mp h).1, hf]

end BoundSql.Identifier
