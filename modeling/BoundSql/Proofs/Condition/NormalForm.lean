import BoundSql.Sql.Expr
import Mathlib.Data.List.Forall2

/-!
# Normal forms of conditions

The normal form of a condition keeps the shape of its tree and says what each
comparison comes to: fields are reduced to their table and column, comparisons with
null are null tests, and list memberships are split into the values that are sent
and a null test, or are constants.

A normal form is generic in what its tests carry. With lists of binds it is the
meaning of a condition; its **shape** carries their numbers only, and together with
the binds in order it is as good as the whole (`NormalForm.related_iff`).
-/

namespace BoundSql

/-- A condition without nulls to normalise. -/
inductive NormalForm (α : Type) where
  | test (table : Option String) (column : String) (op : Operator) (values : α)
  | constant (value : Bool)
  | and (left right : NormalForm α)
  | or (left right : NormalForm α)
  | not (inner : NormalForm α)

/-! ## The normal form of a condition -/

/-- The normal form of a list membership. -/
def NormalForm.ofList (table : Option String) (column : String) (negated : Bool)
    (binds : List Bind) : NormalForm (List Bind) :=
  let values := binds.filter (!·.isNull)
  let nullTest := test table column (if negated then .isNotNull else .isNull) []
  if binds.isEmpty then .constant negated
  else if values.isEmpty then nullTest
  else if binds.any (·.isNull) then
    if negated then .and (test table column .notInList values) nullTest
    else .or (test table column .inList values) nullTest
  else test table column (if negated then .notInList else .inList) binds

/-- The normal form of a predicate. -/
def Predicate.normalForm (p : Predicate) : NormalForm (List Bind) :=
  let test := NormalForm.test p.field.table p.field.column
  match p.op, p.binds with
  | .eq, [x] => if x.isNull then test .isNull [] else test .eq [x]
  | .neq, [x] => if x.isNull then test .isNotNull [] else test .neq [x]
  | .inList, binds => .ofList p.field.table p.field.column false binds
  | .notInList, binds => .ofList p.field.table p.field.column true binds
  | op, binds => test op binds

/-- The normal form of an expression without raw SQL and fragments. -/
def Expr.normalForm? : Expr → Option (NormalForm (List Bind))
  | .predicate p => some p.normalForm
  | .and left right => do return .and (← left.normalForm?) (← right.normalForm?)
  | .or left right => do return .or (← left.normalForm?) (← right.normalForm?)
  | .not inner => do return .not (← inner.normalForm?)
  | .raw _ => none
  | .subquery _ => none

/-- Where there are no nulls, the values are all there is. -/
theorem Bind.filter_not_isNull {binds : List Bind} (h : binds.any (·.isNull) = false) :
    binds.filter (!·.isNull) = binds := by
  refine List.filter_eq_self.mpr fun value hvalue => ?_
  have hnot : value.isNull = false := Bool.eq_false_iff.mpr (List.any_eq_false.mp h value hvalue)
  rw [hnot]
  rfl

namespace NormalForm

/-! ## Shapes and binds -/

/-- The normal form with something else in its tests. -/
def map {α β : Type} (f : α → β) : NormalForm α → NormalForm β
  | .test table column op values => .test table column op (f values)
  | .constant value => .constant value
  | .and left right => .and (left.map f) (right.map f)
  | .or left right => .or (left.map f) (right.map f)
  | .not inner => .not (inner.map f)

/-- The normal form with the number of binds in each test. -/
def shape (n : NormalForm (List Bind)) : NormalForm Nat :=
  n.map List.length

/-- The number of binds of a shape. -/
def size : NormalForm Nat → Nat
  | .test _ _ _ count => count
  | .constant _ => 0
  | .and left right => left.size + right.size
  | .or left right => left.size + right.size
  | .not inner => inner.size

/-- The binds of all tests, from left to right. -/
def binds : NormalForm (List Bind) → List Bind
  | .test _ _ _ values => values
  | .constant _ => []
  | .and left right => left.binds ++ right.binds
  | .or left right => left.binds ++ right.binds
  | .not inner => inner.binds

/-- Normal forms that differ at most in their binds, and there as `R` allows. -/
def Related (R : Bind → Bind → Prop) :
    NormalForm (List Bind) → NormalForm (List Bind) → Prop
  | .test t c op xs, .test t' c' op' ys => t = t' ∧ c = c' ∧ op = op' ∧ List.Forall₂ R xs ys
  | .constant u, .constant v => u = v
  | .and a b, .and c d => a.Related R c ∧ b.Related R d
  | .or a b, .or c d => a.Related R c ∧ b.Related R d
  | .not a, .not b => a.Related R b
  | _, _ => False

theorem size_shape (n : NormalForm (List Bind)) : n.shape.size = n.binds.length := by
  induction n with
  | test table column op values => rfl
  | constant value => rfl
  | and left right ihleft ihright =>
      rw [binds, List.length_append, ← ihleft, ← ihright]
      rfl
  | or left right ihleft ihright =>
      rw [binds, List.length_append, ← ihleft, ← ihright]
      rfl
  | not inner ih => exact ih

theorem forall₂_append_iff {R : Bind → Bind → Prop} {a b c d : List Bind}
    (h : a.length = c.length) :
    List.Forall₂ R (a ++ b) (c ++ d) ↔ List.Forall₂ R a c ∧ List.Forall₂ R b d := by
  induction a generalizing c with
  | nil =>
      obtain rfl : c = [] := List.length_eq_zero_iff.mp h.symm
      simp
  | cons x a ih =>
      obtain ⟨y, c, rfl⟩ : ∃ y c', c = y :: c' :=
        List.exists_cons_of_length_pos (by rw [← h]; simp)
      simp only [List.cons_append, List.forall₂_cons, ih (by simpa using h), and_assoc]

/-- Two parts agree in shape and binds just if the wholes do: the shape of the first
part says where its binds end. -/
theorem parts_iff {R : Bind → Bind → Prop} {left right left' right' : NormalForm (List Bind)} :
    (left.shape = left'.shape ∧ List.Forall₂ R left.binds left'.binds) ∧
        (right.shape = right'.shape ∧ List.Forall₂ R right.binds right'.binds) ↔
      (left.shape = left'.shape ∧ right.shape = right'.shape) ∧
        List.Forall₂ R (left.binds ++ right.binds) (left'.binds ++ right'.binds) := by
  have hlength (h : left.shape = left'.shape) : left.binds.length = left'.binds.length := by
    rw [← size_shape, h, size_shape]
  -- the binds of the wholes part at the same place because the left shapes agree
  constructor
  · rintro ⟨⟨hleft, hl⟩, hright, hr⟩
    exact ⟨⟨hleft, hright⟩, (forall₂_append_iff (hlength hleft)).mpr ⟨hl, hr⟩⟩
  · rintro ⟨⟨hleft, hright⟩, h⟩
    obtain ⟨hl, hr⟩ := (forall₂_append_iff (hlength hleft)).mp h
    exact ⟨⟨hleft, hl⟩, hright, hr⟩

/-- Normal forms are related just if they have one shape and their binds are related
in order. -/
theorem related_iff (R : Bind → Bind → Prop) (m n : NormalForm (List Bind)) :
    m.Related R n ↔ m.shape = n.shape ∧ List.Forall₂ R m.binds n.binds := by
  induction m generalizing n with
  | test table column op values =>
      cases n with
      | test table' column' op' values' =>
          simp only [Related, shape, map, binds, test.injEq]
          constructor
          · rintro ⟨rfl, rfl, rfl, h⟩
            exact ⟨⟨rfl, rfl, rfl, h.length_eq⟩, h⟩
          · rintro ⟨⟨rfl, rfl, rfl, -⟩, h⟩
            exact ⟨rfl, rfl, rfl, h⟩
      | constant _ | and _ _ | or _ _ | not _ => simp [Related, shape, map]
  | constant value =>
      cases n with
      | constant value' => simp [Related, shape, map, binds]
      | test _ _ _ _ | and _ _ | or _ _ | not _ => simp [Related, shape, map]
  | and left right ihleft ihright =>
      cases n with
      | and left' right' =>
          rw [Related, ihleft, ihright, parts_iff]
          simp [shape, map, binds]
      | test _ _ _ _ | constant _ | or _ _ | not _ => simp [Related, shape, map]
  | or left right ihleft ihright =>
      cases n with
      | or left' right' =>
          rw [Related, ihleft, ihright, parts_iff]
          simp [shape, map, binds]
      | test _ _ _ _ | constant _ | and _ _ | not _ => simp [Related, shape, map]
  | not inner ih =>
      cases n with
      | not inner' =>
          rw [Related, ih]
          simp [shape, map, binds]
      | test _ _ _ _ | constant _ | and _ _ | or _ _ => simp [Related, shape, map]

/-- Normal forms related by equality are equal. -/
theorem related_eq_iff (m n : NormalForm (List Bind)) : m.Related Eq n ↔ m = n := by
  induction m generalizing n with
  | test table column op values =>
      cases n <;> simp [Related, List.forall₂_eq_eq_eq]
  | constant value => cases n <;> simp [Related]
  | and left right ihleft ihright => cases n <;> simp [Related, ihleft, ihright]
  | or left right ihleft ihright => cases n <;> simp [Related, ihleft, ihright]
  | not inner ih => cases n <;> simp [Related, ih]

end NormalForm

end BoundSql
