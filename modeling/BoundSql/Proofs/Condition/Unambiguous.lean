import BoundSql.Proofs.Condition.Reading
import BoundSql.Proofs.Sql.Faithful

/-!
# Conditions are unambiguous

A normal form **describes** pieces if the pieces write the shape of the normal form,
behind whatever number of binds, and hold its binds. The normal form of a condition
describes the pieces of the condition (`Expr.describes`): here comparisons with null
and the kinds of list membership are sorted out, and tests with a wrong number of
binds are gone, since they fail.

Written shapes can be read back, so text and binds of a compiled condition determine
its normal form, and are determined by it (`Expr.compile_eq_iff_normalForm`).
The fields have to be faithful, which all fields are that were made and prepared with
honest dialects.
-/

namespace BoundSql

/-- Pieces that write and hold what a normal form says. -/
structure NormalForm.Describes (n : NormalForm (List Bind)) (b : Backend) (ps : List Piece) :
    Prop where
  written : ∀ count, Piece.written b count ps = n.shape.chars b count
  binds : Piece.binds ps = n.binds
  valid : n.shape.Valid

/-- A faithful field writes its column. -/
theorem Field.Faithful.columnChars_pieces {f : Field} (h : f.Faithful) (b : Backend)
    (count : Nat) : Piece.written b count (f.pieces b) = columnChars b f.table f.column := by
  rw [h.written_pieces, toList_formWith]

namespace NormalForm.Describes

variable {b : Backend} {m n : NormalForm (List Bind)} {ps qs : List Piece}

/-! ## Operations -/

protected theorem and (hm : m.Describes b ps) (hn : n.Describes b qs) :
    (m.and n).Describes b (.text "(" :: ps ++ .text " AND " :: qs ++ [.text ")"]) where
  written count := by
    have hsize : m.shape.size = (Piece.binds ps).length := by rw [size_shape, hm.binds]
    simp [Piece.written_append, Piece.ownText, Piece.ownBinds, hm.written, hn.written, shape, map,
      chars, ← hsize]
  binds := by simp [Piece.ownBinds, hm.binds, hn.binds, NormalForm.binds]
  valid := ⟨hm.valid, hn.valid⟩

protected theorem or (hm : m.Describes b ps) (hn : n.Describes b qs) :
    (m.or n).Describes b (.text "(" :: ps ++ .text " OR " :: qs ++ [.text ")"]) where
  written count := by
    have hsize : m.shape.size = (Piece.binds ps).length := by rw [size_shape, hm.binds]
    simp [Piece.written_append, Piece.ownText, Piece.ownBinds, hm.written, hn.written, shape, map,
      chars, ← hsize]
  binds := by simp [Piece.ownBinds, hm.binds, hn.binds, NormalForm.binds]
  valid := ⟨hm.valid, hn.valid⟩

protected theorem not (hn : n.Describes b ps) :
    n.not.Describes b (.text "NOT (" :: ps ++ [.text ")"]) where
  written count := by
    simp [Piece.written_append, Piece.ownText, Piece.ownBinds, hn.written, shape, map, chars]
  binds := by simp [Piece.ownBinds, hn.binds, NormalForm.binds]
  valid := hn.valid

end NormalForm.Describes

/-! ## Tests -/

/-- Binds with commas between them write a list of markers. -/
theorem written_values (b : Backend) (count : Nat) (values : List Bind) :
    Piece.written b count (Piece.commaSeparated (values.map fun value => [.bind value])) =
      markerList b count values.length := by
  induction values generalizing count with
  | nil => rfl
  | cons value values ih =>
      cases values with
      | nil => simp [Piece.commaSeparated, markerList, Piece.ownText]
      | cons next values =>
          have hrest := ih (count + 1)
          simp only [List.map_cons] at hrest
          simp [Piece.commaSeparated, markerList, Piece.ownText, Piece.ownBinds, hrest]

theorem binds_values (values : List Bind) :
    Piece.binds (Piece.commaSeparated (values.map fun value => [.bind value])) = values := by
  induction values with
  | nil => rfl
  | cons value values ih =>
      cases values with
      | nil => rfl
      | cons next values => simpa [Piece.commaSeparated, Piece.ownBinds] using ih

/-- The constant of an empty list looks its field up and does not write it. -/
theorem describes_constant (f : Field) (b : Backend) (value : Bool) :
    (NormalForm.constant value).Describes b
      ((f.pieces b).filterMap Piece.mentioned? ++ [.text (if value then "1 = 1" else "1 = 0")])
      where
  written count := by
    unfold Field.pieces
    split
    · cases value <;> rfl
    · cases f.table <;> cases value <;> rfl
  binds := by
    unfold Field.pieces
    split
    · rfl
    · cases f.table <;> rfl
  valid := trivial

section Tests

variable {b : Backend} {f : Field} (hf : f.Faithful)

include hf

/-- An operator in front of binds, with its phrase behind the column. -/
theorem describes_test {op : Operator} {values : List Bind} {ps : List Piece}
    (hfolds : b.folds op = false) (htakes : op.takes values.length = true)
    (hps : ∀ count, Piece.written b count ps =
      op.phrase.toList ++ op.argumentChars b count values.length)
    (hbinds : Piece.binds ps = values) :
    (NormalForm.test f.table f.column op values).Describes b (f.pieces b ++ ps) where
  written count := by
    rw [Piece.written_append, hf.columnChars_pieces, f.binds_pieces, hps]
    simp [NormalForm.shape, NormalForm.map, NormalForm.chars, testChars, hfolds]
  binds := by rw [Piece.binds_append, f.binds_pieces, hbinds]; rfl
  valid := htakes

theorem describes_nullTest (negated : Bool) :
    (NormalForm.test f.table f.column (if negated then .isNotNull else .isNull) []).Describes b
      (nullTest negated (f.pieces b)) := by
  cases negated with
  | false => exact describes_test hf (by simp [Backend.folds]) rfl (fun count => rfl) rfl
  | true => exact describes_test hf (by simp [Backend.folds]) rfl (fun count => rfl) rfl

theorem describes_comparison {op : Operator} {token : String} (value : Bind)
    (hfolds : b.folds op = false) (htakes : op.takes 1 = true)
    (hphrase : op.phrase = " " ++ token ++ " ")
    (hargument : ∀ count, op.argumentChars b count 1 = (b.marker (count + 1)).toList) :
    (NormalForm.test f.table f.column op [value]).Describes b
      (comparison (f.pieces b) token value) := by
  refine describes_test hf hfolds htakes (fun count => ?_) rfl
  rw [hphrase, List.length_singleton, hargument]
  simp [Piece.ownText, Piece.ownBinds]

theorem describes_valueList (negated : Bool) (values : List Bind) :
    (NormalForm.test f.table f.column (if negated then .notInList else .inList) values).Describes
      b (valueList negated (f.pieces b) values) := by
  have hwritten : ∀ (words : String) (count : Nat),
      Piece.written b count (.text words ::
        (Piece.commaSeparated (values.map fun value => [.bind value]) ++ [.text ")"])) =
        words.toList ++ (markerList b count values.length ++ [')']) := by
    intro words count
    simp [Piece.written_append, Piece.ownText, Piece.ownBinds, written_values]
  have hbinds : ∀ words : String,
      Piece.binds (.text words ::
        (Piece.commaSeparated (values.map fun value => [.bind value]) ++ [.text ")"])) =
        values := by
    intro words
    simp [Piece.ownBinds, binds_values]
  unfold valueList
  rw [List.append_assoc]
  cases negated with
  | false => exact describes_test hf (by simp [Backend.folds]) rfl (hwritten _) (hbinds _)
  | true => exact describes_test hf (by simp [Backend.folds]) rfl (hwritten _) (hbinds _)

/-- A list membership is one of four things, as its list holds values, nulls, both or
nothing. -/
theorem describes_listTest (negated : Bool) (binds : List Bind) :
    (NormalForm.ofList f.table f.column negated binds).Describes b
      (listTest negated (f.pieces b) binds) := by
  unfold NormalForm.ofList listTest
  simp only []
  split
  · exact describes_constant f b negated
  · split
    · exact describes_nullTest hf negated
    · split
      · cases negated with
        | false => exact .or (describes_valueList hf false _) (describes_nullTest hf false)
        | true => exact .and (describes_valueList hf true _) (describes_nullTest hf true)
      · rename_i hnull
        rw [Bind.filter_not_isNull (Bool.eq_false_iff.mpr hnull)]
        exact describes_valueList hf negated binds

/-- A comparison with a null is a null test; any other is a test of its own. -/
theorem describes_equality {op : Operator} {token : String} (negated : Bool) (value : Bind)
    (hfolds : b.folds op = false) (htakes : op.takes 1 = true)
    (hphrase : op.phrase = " " ++ token ++ " ")
    (hargument : ∀ count, op.argumentChars b count 1 = (b.marker (count + 1)).toList) :
    (if value.isNull then
        NormalForm.test f.table f.column (if negated then .isNotNull else .isNull) []
      else .test f.table f.column op [value]).Describes b
      (if value.isNull then nullTest negated (f.pieces b)
        else comparison (f.pieces b) token value) := by
  split
  · exact describes_nullTest hf negated
  · exact describes_comparison hf value hfolds htakes hphrase hargument

/-- Where a backend has no word for matching in any case, both sides are folded. -/
theorem describes_ilike (value : Bind) :
    (NormalForm.test f.table f.column .ilike [value]).Describes b
      (b.caseInsensitiveLike (f.pieces b) [.bind value]) := by
  unfold Backend.caseInsensitiveLike
  split
  · rename_i hword
    refine describes_test hf (by simp [Backend.folds, hword]) rfl (fun count => ?_) rfl
    simp [Piece.ownText, Piece.ownBinds, Operator.phrase, Operator.argumentChars]
  · rename_i hword
    have hfolds : b.folds .ilike = true := by simp [Backend.folds, hword]
    constructor
    · intro count
      simp [Piece.written_append, Piece.ownText, Piece.ownBinds, hf.columnChars_pieces,
        f.binds_pieces, NormalForm.shape, NormalForm.map, NormalForm.chars, testChars, hfolds]
    · simp [Piece.ownBinds, f.binds_pieces, NormalForm.binds]
    · rfl

theorem describes_between (low high : Bind) :
    (NormalForm.test f.table f.column .between [low, high]).Describes b
      (f.pieces b ++ [.text " BETWEEN ", .bind low, .text " AND ", .bind high]) := by
  refine describes_test hf (by simp [Backend.folds]) rfl (fun count => ?_) rfl
  simp [Piece.ownText, Piece.ownBinds, Operator.phrase, Operator.argumentChars]

end Tests

/-! ## Conditions -/

/-- The normal form of a predicate that its operator allows. -/
theorem Predicate.describes {p : Predicate} (hf : p.field.Faithful) {b : Backend}
    (h : Piece.failure? (p.pieces b) = none) : p.normalForm.Describes b (p.pieces b) := by
  -- a wrong number of binds would be a failure
  have htakes : p.op.takes p.binds.length = true := by
    by_contra hnot
    rw [pieces_of_not_takes (Bool.eq_false_iff.mpr hnot)] at h
    exact absurd h (by simp [Piece.error?])
  obtain ⟨field, op, binds⟩ := p
  have harity := fun n => Operator.length_of_takes (n := n) htakes
  cases op with
  | eq =>
      obtain ⟨value, rfl⟩ := List.length_eq_one_iff.mp (harity 1 rfl)
      exact describes_equality hf false value rfl rfl rfl (fun _ => rfl)
  | neq =>
      obtain ⟨value, rfl⟩ := List.length_eq_one_iff.mp (harity 1 rfl)
      exact describes_equality hf true value rfl rfl rfl (fun _ => rfl)
  | gt | gte | lt | lte | like =>
      obtain ⟨value, rfl⟩ := List.length_eq_one_iff.mp (harity 1 rfl)
      exact describes_comparison hf value rfl rfl rfl (fun _ => rfl)
  | ilike =>
      obtain ⟨value, rfl⟩ := List.length_eq_one_iff.mp (harity 1 rfl)
      exact describes_ilike hf value
  | between =>
      obtain ⟨low, high, rfl⟩ := List.length_eq_two.mp (harity 2 rfl)
      exact describes_between hf low high
  | isNull =>
      obtain rfl := List.length_eq_zero_iff.mp (harity 0 rfl)
      exact describes_nullTest hf false
  | isNotNull =>
      obtain rfl := List.length_eq_zero_iff.mp (harity 0 rfl)
      exact describes_nullTest hf true
  | inList => exact describes_listTest hf false binds
  | notInList => exact describes_listTest hf true binds

/-- A normal form describes the pieces of its condition. -/
theorem Expr.describes {e : Expr} {n : NormalForm (List Bind)} (hn : e.normalForm? = some n)
    (hf : ∀ f ∈ e.fields, f.Faithful) {b : Backend} (h : Piece.failure? (e.pieces b) = none) :
    n.Describes b (e.pieces b) := by
  induction e generalizing n with
  | predicate p =>
      obtain rfl := Option.some.inj hn
      exact Predicate.describes (hf _ (List.mem_singleton.mpr rfl)) h
  | and left right ihleft ihright =>
      obtain ⟨m, hm, k, hk, rfl⟩ : ∃ m, left.normalForm? = some m ∧
          ∃ k, right.normalForm? = some k ∧ m.and k = n := by
        simpa [normalForm?, Option.bind_eq_some_iff] using hn
      simp only [pieces, Piece.failure?_append, Piece.failure?_cons, Piece.error?, Option.none_or,
        Option.or_eq_none_iff] at h
      exact .and (ihleft hm (fun f hfield => hf f (List.mem_append_left _ hfield)) h.1.1)
        (ihright hk (fun f hfield => hf f (List.mem_append_right _ hfield)) h.1.2)
  | or left right ihleft ihright =>
      obtain ⟨m, hm, k, hk, rfl⟩ : ∃ m, left.normalForm? = some m ∧
          ∃ k, right.normalForm? = some k ∧ m.or k = n := by
        simpa [normalForm?, Option.bind_eq_some_iff] using hn
      simp only [pieces, Piece.failure?_append, Piece.failure?_cons, Piece.error?, Option.none_or,
        Option.or_eq_none_iff] at h
      exact .or (ihleft hm (fun f hfield => hf f (List.mem_append_left _ hfield)) h.1.1)
        (ihright hk (fun f hfield => hf f (List.mem_append_right _ hfield)) h.1.2)
  | not inner ih =>
      obtain ⟨m, hm, rfl⟩ : ∃ m, inner.normalForm? = some m ∧ m.not = n := by
        simpa [normalForm?, Option.bind_eq_some_iff] using hn
      simp only [pieces, Piece.failure?_append, Piece.failure?_cons, Piece.error?, Option.none_or,
        Option.or_eq_none_iff] at h
      exact .not (ih hm hf h.1)
  | raw r => cases hn
  | subquery m => cases hn

/-- A compiled condition holds what its normal form says. -/
theorem Expr.compile_normalForm {e : Expr} {n : NormalForm (List Bind)}
    (hn : e.normalForm? = some n) (hf : ∀ f ∈ e.fields, f.Faithful) {b : Backend} {q : Compiled}
    (hq : e.compile b = .ok q) :
    q.sql.toList = n.shape.chars b 0 ∧ q.binds = n.binds ∧ n.shape.Valid := by
  obtain ⟨hfailure, rfl⟩ := Statement.compile_eq_ok hq
  have hdescribes := Expr.describes hn hf hfailure
  refine ⟨?_, hdescribes.binds, hdescribes.valid⟩
  rw [String.toList_ofList]
  exact hdescribes.written 0

/-- Two conditions have the same text and the same binds just if they have the same
normal form. What counts as the same bind does not matter: with binds related in any
way, the normal forms are related in that way. -/
theorem Expr.compile_eq_iff_normalForm {b : Backend} {e e' : Expr}
    {n n' : NormalForm (List Bind)} {q q' : Compiled} (hn : e.normalForm? = some n)
    (hn' : e'.normalForm? = some n') (hf : ∀ f ∈ e.fields, f.Faithful)
    (hf' : ∀ f ∈ e'.fields, f.Faithful) (hq : e.compile b = .ok q) (hq' : e'.compile b = .ok q') :
    (q.sql = q'.sql ∧ q.binds = q'.binds ↔ n = n') ∧
      ∀ R : Bind → Bind → Prop,
        (q.sql = q'.sql ∧ List.Forall₂ R q.binds q'.binds ↔ n.Related R n') := by
  obtain ⟨hsql, hbinds, hvalid⟩ := Expr.compile_normalForm hn hf hq
  obtain ⟨hsql', hbinds', hvalid'⟩ := Expr.compile_normalForm hn' hf' hq'
  have hshape : q.sql = q'.sql ↔ n.shape = n'.shape := by
    rw [← String.toList_inj, hsql, hsql']
    constructor
    · intro h
      -- the shapes are read back with nothing behind them
      have happend : n.shape.chars b 0 ++ [] = n'.shape.chars b 0 ++ [] := by rw [h]
      exact (NormalForm.chars_append_inj hvalid hvalid' happend).1
    · intro h
      rw [h]
  have hrelated : ∀ R : Bind → Bind → Prop,
      (q.sql = q'.sql ∧ List.Forall₂ R q.binds q'.binds ↔ n.Related R n') := by
    intro R
    rw [hshape, hbinds, hbinds', NormalForm.related_iff]
  refine ⟨?_, hrelated⟩
  rw [← NormalForm.related_eq_iff, ← hrelated Eq, List.forall₂_eq_eq_eq]

/-- A list with a null is written like the tests it stands for. -/
theorem Expr.compile_eq_iff_normalForm_mixed :
    let f : Field := .onTable "a.b" "IS \"NULL\""
    let e : Expr := f.inList [.int 7, .null]
    let e' : Expr := .or (f.inList [.int 7]) (f.eq .null)
    let q : Compiled :=
      ⟨"(\"a.b\".\"IS \"\"NULL\"\"\" IN ($1) OR \"a.b\".\"IS \"\"NULL\"\"\" IS NULL)", [.int 7],
        .postgresql⟩
    (∀ f ∈ e.fields, f.Faithful) ∧ (∀ f ∈ e'.fields, f.Faithful) ∧
      e.compile .postgresql = .ok q ∧ e'.compile .postgresql = .ok q ∧
      e.normalForm? = e'.normalForm? := by
  intro f e e' q
  have hf : ∀ f ∈ e.fields, f.Faithful := by decide
  have hf' : ∀ f ∈ e'.fields, f.Faithful := by decide
  have hq : e.compile .postgresql = .ok q :=
    Statement.compile_of_pieces (by decide +kernel) (by decide +kernel) rfl rfl
  have hq' : e'.compile .postgresql = .ok q :=
    Statement.compile_of_pieces (by decide +kernel) (by decide +kernel) rfl rfl
  obtain ⟨m, hm⟩ : ∃ m, e.normalForm? = some m := ⟨_, rfl⟩
  obtain ⟨m', hm'⟩ : ∃ m', e'.normalForm? = some m' := ⟨_, rfl⟩
  have h := (Expr.compile_eq_iff_normalForm hm hm' hf hf' hq hq').1.mp ⟨rfl, rfl⟩
  exact ⟨hf, hf', hq, hq', by rw [hm, hm', h]⟩

end BoundSql
