import BoundSql.Proofs.Sql.Pieces

/-!
# Declared and compiled binds

An expression declares binds; compiling it sends them, less the nulls that became null
tests. `Expr.declarations` lists what is declared together with where it stands, so that
`Expr.binds_of_compile` can say which binds are missing from a compiled condition, and that
no other one is missing, new or in another place.
-/

namespace BoundSql

/-- Whether an operator compares for equality, which null does not. -/
def Operator.comparesEquality : Operator → Bool
  | .eq | .neq | .inList | .notInList => true
  | _ => false

/-- A bind as an expression declares it: the value, and the operator if it stands in a
predicate and not in raw SQL or in a compiled query. -/
structure Declaration where
  value : Bind
  op? : Option Operator

/-- Whether a declared bind becomes a null test: a null that is compared for equality. -/
def Declaration.becomesTest (d : Declaration) : Bool :=
  d.value.isNull && d.op?.any Operator.comparesEquality

/-- What an expression declares, in the order of its text. -/
def Expr.declarations : Expr → List Declaration
  | .predicate p => p.binds.map (⟨·, some p.op⟩)
  | .and left right => left.declarations ++ right.declarations
  | .or left right => left.declarations ++ right.declarations
  | .not inner => inner.declarations
  | .raw r => r.binds.map (⟨·, none⟩)
  | .subquery m => m.query.binds.map (⟨·, none⟩)

/-- The binds of declarations, less those that become null tests. -/
def Declaration.sent (ds : List Declaration) : List Bind :=
  (ds.filter (!·.becomesTest)).map (·.value)

theorem Declaration.sent_append (ds es : List Declaration) :
    sent (ds ++ es) = sent ds ++ sent es := by
  simp [sent]

/-- Binds outside predicates are all sent. -/
theorem Declaration.sent_outside (binds : List Bind) :
    sent (binds.map (Declaration.mk · none)) = binds := by
  simp [sent, List.filter_map, becomesTest, Function.comp_def]

theorem Predicate.sent_binds (p : Predicate) :
    Declaration.sent (p.binds.map (Declaration.mk · (some p.op))) = p.keptBinds := by
  obtain ⟨field, op, binds⟩ := p
  cases op <;>
    simp [Declaration.sent, List.filter_map, Declaration.becomesTest, Function.comp_def,
      keptBinds, Operator.comparesEquality]

namespace Expr

theorem map_value_declarations (e : Expr) :
    e.declarations.map (·.value) = e.declaredBinds := by
  induction e with
  | predicate p => simp [declarations, declaredBinds, Function.comp_def]
  | and left right ihleft ihright => simp [declarations, declaredBinds, ihleft, ihright]
  | or left right ihleft ihright => simp [declarations, declaredBinds, ihleft, ihright]
  | not inner ih => exact ih
  | raw r => simp [declarations, declaredBinds, Function.comp_def]
  | subquery m => simp [declarations, declaredBinds, Function.comp_def]

/-- The walk that collects what is written finds the declarations that are sent. -/
theorem collect_eq_sent (e : Expr) :
    e.collect (fun value => [value]) Compiled.binds = Declaration.sent e.declarations := by
  induction e with
  | predicate p => simp [collect, declarations, p.sent_binds]
  | and left right ihleft ihright =>
      rw [collect, declarations, Declaration.sent_append, ihleft, ihright]
  | or left right ihleft ihright =>
      rw [collect, declarations, Declaration.sent_append, ihleft, ihright]
  | not inner ih => exact ih
  | raw r => simp [collect, declarations, Declaration.sent_outside]
  | subquery m => rw [collect, declarations, Declaration.sent_outside]

/-- The binds of a compiled condition are those that the expression declares, in their
order, less the nulls that are compared for equality. -/
theorem binds_of_compile {b : Backend} {e : Expr} {q : Compiled} (h : e.compile b = .ok q) :
    e.declarations.map (·.value) = e.declaredBinds ∧
      q.binds = Declaration.sent e.declarations ∧ q.binds.Sublist e.declaredBinds := by
  obtain ⟨hfailure, rfl⟩ := Statement.compile_eq_ok h
  have hbinds : Piece.binds ((Statement.condition e).pieces b) =
      Declaration.sent e.declarations :=
    (Statement.binds_pieces hfailure).trans e.collect_eq_sent
  refine ⟨e.map_value_declarations, hbinds, ?_⟩
  show (Piece.binds ((Statement.condition e).pieces b)).Sublist _
  rw [hbinds, ← e.map_value_declarations]
  exact List.filter_sublist.map _

theorem binds_of_compile_nulls :
    let fragment : Compiled := ⟨"SELECT $2, $1", [.null, .int 4], .postgresql⟩
    let raw : RawSql := ⟨"a = ?", [.null], by decide, by decide⟩
    let e : Expr :=
      .and
        (.or (.predicate ⟨.named "c", .inList, [.null, .int 1, .null, .int 2]⟩)
          (.not (.predicate ⟨.named "d", .neq, [.null]⟩)))
        (.and (.predicate ⟨.named "f", .between, [.null, .int 3]⟩)
          (.or (.raw raw) (.subquery ⟨.named "g", false, fragment⟩)))
    let q : Compiled :=
      ⟨"(((\"c\" IN ($1, $2) OR \"c\" IS NULL) OR NOT (\"d\" IS NOT NULL)) AND " ++
          "(\"f\" BETWEEN $3 AND $4 AND (a = $5 OR \"g\" IN (SELECT $7, $6))))",
        [.int 1, .int 2, .null, .int 3, .null, .null, .int 4], .postgresql⟩
    e.compile .postgresql = .ok q ∧
      e.declaredBinds = [.null, .int 1, .null, .int 2, .null, .null, .int 3, .null, .null, .int 4] ∧
      q.binds = Declaration.sent e.declarations ∧ q.binds.Sublist e.declaredBinds := by
  intro fragment raw e q
  have hcompile : e.compile .postgresql = .ok q :=
    Statement.compile_of_pieces (by decide +kernel) (by decide +kernel) rfl rfl
  have h := binds_of_compile hcompile
  exact ⟨hcompile, h.1.symm.trans rfl, h.2⟩

end Expr

end BoundSql
