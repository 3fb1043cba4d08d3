import BoundSql.Proofs.Condition.Unambiguous
import BoundSql.Proofs.Numbering.Reference
import BoundSql.Proofs.Sql.Faults

/-!
# The truth of conditions

SQL has three truth values, and a comparison with null is neither true nor false.
This file says what truth value a database gives to a compiled condition in a row:
the condition is read from the text, the marker with number `i` stands for the bind
with this number, and the connectives are those of the strong three-valued logic.
How two values compare that are not null is left to the database.

Reading is the inverse of writing: a compiled condition is read as its normal form
and as nothing else (`Expr.readsAs_iff`), so its truth value is that of the normal
form. For equalities and list memberships this is the meaning in which null equals
null: see `Field.listTests_truth`.
-/

namespace BoundSql

/-! ## Truth values -/

/-- The truth values of SQL. -/
inductive Truth where
  | false
  | unknown
  | true
  deriving DecidableEq, Repr

namespace Truth

/-- The truth value of a Boolean. -/
def ofBool : Bool → Truth
  | .false => .false
  | .true => .true

/-- A conjunction is false as soon as one part is. -/
def and : Truth → Truth → Truth
  | .false, _ | _, .false => .false
  | .true, .true => .true
  | _, _ => .unknown

/-- A disjunction is true as soon as one part is. -/
def or : Truth → Truth → Truth
  | .true, _ | _, .true => .true
  | .false, .false => .false
  | _, _ => .unknown

/-- The negation of what is unknown is unknown. -/
def not : Truth → Truth
  | .false => .true
  | .unknown => .unknown
  | .true => .false

/-- A truth value or its negation. -/
def signed (t : Truth) (negated : Bool) : Truth :=
  if negated then t.not else t

/-- The disjunction of a list. -/
def any (ts : List Truth) : Truth := ts.foldr or .false

/-- The conjunction of a list. -/
def all (ts : List Truth) : Truth := ts.foldr and .true

@[simp] theorem signed_false (t : Truth) : t.signed .false = t := rfl

@[simp] theorem signed_true (t : Truth) : t.signed .true = t.not := rfl

@[simp] theorem any_nil : any [] = .false := rfl

@[simp] theorem any_cons (t : Truth) (ts : List Truth) : any (t :: ts) = t.or (any ts) := rfl

@[simp] theorem all_nil : all [] = .true := rfl

@[simp] theorem all_cons (t : Truth) (ts : List Truth) : all (t :: ts) = t.and (all ts) := rfl

@[simp] theorem or_false (t : Truth) : t.or .false = t := by cases t <;> rfl

@[simp] theorem false_or (t : Truth) : Truth.false.or t = t := by cases t <;> rfl

@[simp] theorem and_true (t : Truth) : t.and .true = t := by cases t <;> rfl

theorem not_or (s t : Truth) : (s.or t).not = s.not.and t.not := by
  cases s <;> cases t <;> rfl

theorem or_eq_true_iff {s t : Truth} : s.or t = .true ↔ s = .true ∨ t = .true := by
  cases s <;> cases t <;> decide

@[simp] theorem ofBool_eq_true_iff {value : Bool} : ofBool value = .true ↔ value = .true := by
  cases value <;> decide

theorem not_ofBool (value : Bool) : (ofBool value).not = ofBool (!value) := by
  cases value <;> rfl

theorem not_any (ts : List Truth) : (any ts).not = all (ts.map not) := by
  induction ts with
  | nil => rfl
  | cons t ts ih => rw [any_cons, not_or, ih, List.map_cons, all_cons]

theorem any_eq_true_iff {ts : List Truth} : any ts = .true ↔ .true ∈ ts := by
  induction ts with
  | nil => simp
  | cons t ts ih => rw [any_cons, or_eq_true_iff, ih, List.mem_cons, eq_comm]

end Truth

/-! ## Reading a condition -/

/-- What a database does with values of its own and binds: whether a value equals a
bind, neither being null, and what the operators come to that the statements here
do not speak about. -/
structure Comparisons (α : Type) where
  equal : α → Bind → Truth
  other : Operator → Option α → List Bind → Truth

/-- The values of the columns in a row; null is `none`. -/
abbrev Row (α : Type) := Option String → String → Option α

namespace Comparisons

variable {α : Type}

/-- Equality as SQL has it: unknown with a null on either side. -/
def equals (db : Comparisons α) : Option α → Bind → Truth
  | some v, x => if x.isNull then .unknown else db.equal v x
  | none, _ => .unknown

/-- Equality in which null equals null and nothing else. -/
def Same (db : Comparisons α) : Option α → Bind → Prop
  | some v, x => x ≠ .null ∧ db.equal v x = .true
  | none, x => x = .null

/-- The truth value of a test. A negated list membership is the conjunction of its
inequalities. -/
def truth (db : Comparisons α) (op : Operator) (v : Option α) (values : List Bind) : Truth :=
  match op, values with
  | .isNull, _ => .ofBool v.isNone
  | .isNotNull, _ => .ofBool v.isSome
  | .eq, [x] => db.equals v x
  | .neq, [x] => (db.equals v x).not
  | .inList, values => .any (values.map (db.equals v))
  | .notInList, values => .all (values.map fun x => (db.equals v x).not)
  | op, values => db.other op v values

end Comparisons

namespace NormalForm

variable {α : Type}

/-- The truth value of a condition in a row. -/
def truth (db : Comparisons α) (row : Row α) : NormalForm (List Bind) → Truth
  | .test table column op values => db.truth op (row table column) values
  | .constant value => .ofBool value
  | .and left right => (left.truth db row).and (right.truth db row)
  | .or left right => (left.truth db row).or (right.truth db row)
  | .not inner => (inner.truth db row).not

/-- A shape with the binds that its markers stand for, `count` binds being behind
it. A marker with the number of no bind would stand for null. -/
def filled (binds : List Bind) (count : Nat) : NormalForm Nat → NormalForm (List Bind)
  | .test table column op n =>
      .test table column op
        ((List.range' (count + 1) n).map fun i => (Bind.at? binds i).getD .null)
  | .constant value => .constant value
  | .and left right => .and (left.filled binds count) (right.filled binds (count + left.size))
  | .or left right => .or (left.filled binds count) (right.filled binds (count + left.size))
  | .not inner => .not (inner.filled binds count)

end NormalForm

namespace Compiled

variable {α : Type}

/-- The text of a query is that of a condition, and its markers stand for its binds. -/
def ReadsAs (q : Compiled) (n : NormalForm (List Bind)) : Prop :=
  ∃ shape : NormalForm Nat,
    shape.Valid ∧ q.sql.toList = shape.chars q.backend 0 ∧ n = shape.filled q.binds 0

/-- A query that reads as a condition, and only as one with this truth value. -/
def HasTruth (q : Compiled) (db : Comparisons α) (row : Row α) (t : Truth) : Prop :=
  (∃ n, q.ReadsAs n) ∧ ∀ n, q.ReadsAs n → n.truth db row = t

end Compiled

/-- An expression that compiles, to a query with this truth value. -/
def Expr.HasTruth {α : Type} (e : Expr) (b : Backend) (db : Comparisons α) (row : Row α)
    (t : Truth) : Prop :=
  ∃ q, e.compile b = .ok q ∧ q.HasTruth db row t

/-! ## What is read is what was written -/

/-- The markers behind some binds stand for the binds that come next. -/
theorem Bind.map_at?_range' (before values behind : List Bind) :
    (List.range' (before.length + 1) values.length).map
      (fun i => (Bind.at? (before ++ (values ++ behind)) i).getD .null) = values := by
  refine List.ext_getElem (by simp) fun i hi hvalue => ?_
  have hindex : before.length + 1 + 1 * i = before.length + i + 1 := by omega
  rw [List.getElem_map, List.getElem_range', hindex, Bind.at?,
    List.getElem?_append_right (by omega), Nat.add_sub_cancel_left,
    List.getElem?_append_left hvalue, List.getElem?_eq_getElem hvalue, Option.getD_some]

namespace NormalForm

/-- The left part of an operation takes the binds that come first, and the right part
those behind them. -/
theorem filled_parts {left right : NormalForm (List Bind)}
    (hleft : ∀ before behind,
      left.shape.filled (before ++ (left.binds ++ behind)) before.length = left)
    (hright : ∀ before behind,
      right.shape.filled (before ++ (right.binds ++ behind)) before.length = right)
    (before behind : List Bind) :
    left.shape.filled (before ++ (left.binds ++ right.binds ++ behind)) before.length = left ∧
      right.shape.filled (before ++ (left.binds ++ right.binds ++ behind))
        (before.length + left.shape.size) = right := by
  constructor
  · rw [List.append_assoc left.binds]
    exact hleft before (right.binds ++ behind)
  · have hbehind := hright (before ++ left.binds) behind
    rwa [List.length_append, List.append_assoc, ← List.append_assoc left.binds,
      ← size_shape left] at hbehind

/-- A shape is filled with the binds it was taken from. -/
theorem filled_shape (n : NormalForm (List Bind)) (before behind : List Bind) :
    n.shape.filled (before ++ (n.binds ++ behind)) before.length = n := by
  induction n generalizing before behind with
  | test table column op values =>
      exact congrArg (test table column op) (Bind.map_at?_range' before values behind)
  | constant value => rfl
  | and left right ihleft ihright =>
      obtain ⟨hleft, hright⟩ := filled_parts ihleft ihright before behind
      exact congrArg₂ and hleft hright
  | or left right ihleft ihright =>
      obtain ⟨hleft, hright⟩ := filled_parts ihleft ihright before behind
      exact congrArg₂ or hleft hright
  | not inner ih => exact congrArg not (ih before behind)

end NormalForm

section Reading

variable {α : Type} {db : Comparisons α} {row : Row α} {t : Truth} {b : Backend}

/-- A compiled condition is read as its normal form and as nothing else. -/
theorem Expr.readsAs_iff {e : Expr} {n m : NormalForm (List Bind)} {q : Compiled}
    (hn : e.normalForm? = some n) (hf : ∀ f ∈ e.fields, f.Faithful)
    (hq : e.compile b = .ok q) : q.ReadsAs m ↔ m = n := by
  obtain ⟨hsql, hbinds, hvalid⟩ := Expr.compile_normalForm hn hf hq
  have hbackend : q.backend = b := by rw [(Statement.compile_eq_ok hq).2]
  have hfilled : n.shape.filled q.binds 0 = n := by
    simpa [hbinds] using n.filled_shape [] []
  constructor
  · rintro ⟨shape, hshape, htext, rfl⟩
    rw [hbackend, hsql] at htext
    have happend : n.shape.chars b 0 ++ [] = shape.chars b 0 ++ [] := by rw [htext]
    obtain ⟨rfl, -⟩ := NormalForm.chars_append_inj hvalid hshape happend
    exact hfilled
  · rintro rfl
    exact ⟨m.shape, hvalid, by rw [hbackend, hsql], hfilled.symm⟩

/-- The truth value of a compiled condition is that of its normal form. -/
theorem Expr.hasTruth_iff {e : Expr} {n : NormalForm (List Bind)} (hn : e.normalForm? = some n)
    (hf : ∀ f ∈ e.fields, f.Faithful) (hfault : e.fault? b = none) :
    e.HasTruth b db row t ↔ n.truth db row = t := by
  have hcompile := Expr.compile_of_failure?_eq_none (e.failure?_pieces.trans hfault)
  have hreads := fun m => Expr.readsAs_iff (m := m) hn hf hcompile
  constructor
  · rintro ⟨q, hq, -, htruth⟩
    obtain rfl := Except.ok.inj (hcompile.symm.trans hq)
    exact htruth n ((hreads n).mpr rfl)
  · rintro rfl
    refine ⟨_, hcompile, ⟨n, (hreads n).mpr rfl⟩, fun m hm => ?_⟩
    rw [(hreads m).mp hm]

end Reading

/-! ## Equalities and list memberships -/

section Tests

variable {α : Type} {db : Comparisons α} {row : Row α} {t : Truth} {b : Backend}
variable {table : Option String} {column : String}

theorem Comparisons.same_iff {v : Option α} {x : Bind} :
    db.Same v x ↔ db.equals v x = .true ∨ (x = .null ∧ v = none) := by
  cases v with
  | none => simp [Same, equals]
  | some v => cases x <;> simp [Same, equals, Bind.isNull]

namespace NormalForm

theorem truth_nullTest (negated : Bool) :
    (test table column (if negated then .isNotNull else .isNull) []).truth db row =
      (Truth.ofBool (row table column).isNone).signed negated := by
  cases negated with
  | false => rfl
  | true => simp [truth, Comparisons.truth, Truth.not_ofBool]

theorem truth_valueList (negated : Bool) (values : List Bind) :
    (test table column (if negated then .notInList else .inList) values).truth db row =
      (Truth.any (values.map (db.equals (row table column)))).signed negated := by
  cases negated with
  | false => rfl
  | true => simp [truth, Comparisons.truth, Truth.not_any, Function.comp_def]

/-- A list membership holds through one of the values, or because the row has a null
and the list has one. This covers the four ways in which it is written, and both
signs. -/
theorem truth_ofList (negated : Bool) (binds : List Bind) :
    (ofList table column negated binds).truth db row =
      ((Truth.any ((binds.filter (!·.isNull)).map (db.equals (row table column)))).or
        (.ofBool (binds.any (·.isNull) && (row table column).isNone))).signed negated := by
  unfold ofList
  simp only []
  split
  · rename_i hempty
    obtain rfl := List.isEmpty_iff.mp hempty
    cases negated <;> rfl
  · rename_i hsome
    split
    · rename_i hvalues
      -- a list without values that is not empty has a null
      have hnull : binds.any (·.isNull) = true := by
        cases hnull : binds.any (·.isNull) with
        | true => rfl
        | false => exact absurd (Bind.filter_not_isNull hnull ▸ hvalues) hsome
      rw [List.isEmpty_iff.mp hvalues, hnull, truth_nullTest, Bool.true_and, List.map_nil,
        Truth.any_nil, Truth.false_or]
    · split
      · rename_i hnull
        rw [hnull, Bool.true_and]
        cases negated with
        | false => exact congrArg₂ Truth.or (truth_valueList false _) (truth_nullTest false)
        | true =>
            rw [Truth.signed_true, Truth.not_or]
            exact congrArg₂ Truth.and (truth_valueList true _) (truth_nullTest true)
      · rename_i hnull
        have hnone := Bool.eq_false_iff.mpr hnull
        rw [Bind.filter_not_isNull hnone, hnone, truth_valueList]
        simp [Truth.ofBool]

/-- A list membership is true just if the row has what is in the list, null being the
same as null. -/
theorem truth_ofList_eq_true_iff (binds : List Bind) :
    (ofList table column false binds).truth db row = .true ↔
      ∃ x ∈ binds, db.Same (row table column) x := by
  have hvalue (x : Bind) (h : db.equals (row table column) x = .true) : x ≠ .null := by
    rintro rfl
    cases hv : row table column <;> simp [hv, Comparisons.equals, Bind.isNull] at h
  rw [truth_ofList, Truth.signed_false, Truth.or_eq_true_iff, Truth.any_eq_true_iff,
    Truth.ofBool_eq_true_iff]
  simp only [List.mem_map, List.mem_filter, Bool.not_eq_true', Bool.and_eq_true, List.any_eq_true,
    Comparisons.same_iff, Bind.isNull_iff, Option.isNone_iff_eq_none]
  constructor
  · rintro (⟨x, ⟨hx, -⟩, hequal⟩ | ⟨⟨x, hx, hnull⟩, hnone⟩)
    · exact ⟨x, hx, .inl hequal⟩
    · exact ⟨x, hx, .inr ⟨hnull, hnone⟩⟩
  · rintro ⟨x, hx, hequal | ⟨hnull, hnone⟩⟩
    · have hkept : x.isNull = false := Bool.eq_false_iff.mpr fun h =>
        hvalue x hequal (Bind.isNull_iff.mp h)
      exact .inl ⟨x, ⟨hx, hkept⟩, hequal⟩
    · exact .inr ⟨⟨x, hx, hnull⟩, hnone⟩

/-- The contrary of a list membership is its negation, also where it is unknown. -/
theorem truth_ofList_negated (binds : List Bind) :
    (ofList table column true binds).truth db row =
      ((ofList table column false binds).truth db row).not := by
  rw [truth_ofList, truth_ofList, Truth.signed_true, Truth.signed_false]

/-- An equality is written like a membership in a list with this bind alone, and is as
true. -/
theorem truth_equality (negated : Bool) (x : Bind) :
    (if x.isNull then test table column (if negated then .isNotNull else .isNull) []
      else test table column (if negated then .neq else .eq) [x]).truth db row =
      (ofList table column negated [x]).truth db row := by
  cases hnull : x.isNull with
  | true => simp [ofList, hnull]
  | false => cases negated <;> simp [ofList, hnull, truth, Comparisons.truth]

end NormalForm

/-- A compiled test has the truth value of its normal form. -/
theorem Field.compare_hasTruth_iff {f : Field} (hf : f.Faithful) {op : Operator}
    {binds : List Bind} (htakes : op.takes binds.length = true) :
    (f.compare op binds).HasTruth b db row t ↔
      (Predicate.normalForm ⟨f, op, binds⟩).truth db row = t := by
  refine Expr.hasTruth_iff rfl (fun g hg => ?_) ?_
  · obtain rfl := List.mem_singleton.mp hg
    exact hf
  · have hfault : Predicate.fault? ⟨f, op, binds⟩ = none :=
      Predicate.fault?_eq_none_iff.mpr htakes
    simp [Expr.fault?, Field.compare, Expr.leaves, Expr.leafFault?, hfault]

/-- What a compiled test sends. -/
theorem Field.binds_compare {f : Field} {op : Operator} {binds : List Bind} {q : Compiled}
    (h : (f.compare op binds).compile b = .ok q) :
    q.binds = Predicate.keptBinds ⟨f, op, binds⟩ := by
  obtain ⟨hfailure, rfl⟩ := Statement.compile_eq_ok h
  show Piece.binds _ = _
  rw [Statement.binds_pieces hfailure]
  exact List.flatMap_singleton' _

/-- The four tests of equality do to nulls what they should: the compiled membership
of a field in a list is true in a row just if the row has what is in the list, null
being the same as null; the compiled contrary has the negated truth value, also
where this is unknown; equality with a bind and its contrary come to the same as the
list with this bind alone; and none of the four sends a null. -/
theorem Field.listTests_truth {f : Field} (hf : f.Faithful) (b : Backend) (values : List Bind)
    (value : Bind) :
    (∀ {α : Type} (db : Comparisons α) (row : Row α), ∃ t,
      (f.inList values).HasTruth b db row t ∧ (f.notInList values).HasTruth b db row t.not ∧
        (t = .true ↔ ∃ x ∈ values, db.Same (row f.table f.column) x)) ∧
    (∀ {α : Type} (db : Comparisons α) (row : Row α) (t : Truth),
      ((f.eq value).HasTruth b db row t ↔ (f.inList [value]).HasTruth b db row t) ∧
        ((f.neq value).HasTruth b db row t ↔ (f.notInList [value]).HasTruth b db row t)) ∧
    ∀ e ∈ [f.inList values, f.notInList values, f.eq value, f.neq value], ∀ q,
      e.compile b = .ok q → .null ∉ q.binds := by
  refine ⟨fun db row => ?_, fun db row t => ?_, fun e he q hq => ?_⟩
  · refine ⟨_, (compare_hasTruth_iff hf rfl).mpr rfl, (compare_hasTruth_iff hf rfl).mpr ?_,
      NormalForm.truth_ofList_eq_true_iff values⟩
    exact NormalForm.truth_ofList_negated values
  · unfold eq neq inList notInList
    rw [compare_hasTruth_iff hf rfl, compare_hasTruth_iff hf rfl, compare_hasTruth_iff hf rfl,
      compare_hasTruth_iff hf rfl]
    exact ⟨Eq.congr_left (NormalForm.truth_equality false value),
      Eq.congr_left (NormalForm.truth_equality true value)⟩
  · simp only [List.mem_cons, List.not_mem_nil, or_false] at he
    rcases he with rfl | rfl | rfl | rfl <;> rw [binds_compare hq] <;> simp [Predicate.keptBinds]

/-- Memberships among values and nulls, of a field with a table and a prepared form. -/
theorem Field.listTests_truth_mixed :
    let f : Field := ((Field.onTable "t" "a").prepare (.fresh .mysql)).1
    let values : List Bind := [.null, .int 7, .null]
    let db : Comparisons Int64 := ⟨fun v x => .ofBool (x.int? == some v), fun _ _ _ => .unknown⟩
    f.Faithful ∧
      (f.inList values).HasTruth .mysql db (fun _ _ => none) .true ∧
      (f.notInList values).HasTruth .mysql db (fun _ _ => none) .false := by
  intro f values db
  have hf : f.Faithful := Field.faithful_prepare _ (Dialect.honest_fresh _)
  obtain ⟨t, hin, hout, hsame⟩ := (Field.listTests_truth hf .mysql values .null).1 db
    (fun _ _ => none)
  -- a row with a null has what is first in the list
  obtain rfl := hsame.mpr ⟨.null, List.mem_cons_self .., rfl⟩
  exact ⟨hf, hin, hout⟩

end Tests

end BoundSql
