import BoundSql.Proofs.Numbering.Parity

/-!
# Markers refer to the right binds

The references of a compiled query are the binds that its numbered markers stand
for, in the order of the text. `Statement.refs` says what they have to be, leaf by
leaf: the values of predicates, the binds of raw SQL, and the references of
fragments as they were before splicing. `Statement.refs_compile` says that this is
what the compiled text refers to, however often and however deep fragments were
spliced, and also where their markers are out of order.

The argument follows the binds. A list of pieces adds its binds behind those that
were there before; a fragment's markers move by as many places as its binds do, so
they go on looking up the same values (`Piece.lookup_marks`).
-/

namespace BoundSql

open Piece

/-- The bind with this number, counted from one. -/
def Bind.at? (binds : List Bind) : Nat → Option Bind
  | 0 => none
  | index + 1 => binds[index]?

/-- The binds that the numbered markers of a query refer to, in the order of its
text. -/
def Compiled.refs (q : Compiled) : List (Option Bind) :=
  (markerIndices q.sql).map (Bind.at? q.binds)

/-- What an expression has to refer to, leaf by leaf from left to right. -/
def Expr.refs (e : Expr) : List (Option Bind) :=
  e.collect (fun value => [some value]) Compiled.refs

/-- What a statement has to refer to: common table expressions, then the conditions
of joins, of rows and of groups; assigned values before a condition. -/
def Statement.refs (s : Statement) : List (Option Bind) :=
  s.collect (fun value => [some value]) Compiled.refs

/-! ## Looking up marks -/

/-- The bind that a mark refers to. -/
def Bind.lookup (binds : List Bind) (mark : Option Nat) : Option Bind :=
  mark.bind (Bind.at? binds)

theorem Bind.lookup_append_shift {before binds behind : List Bind} {index : Nat} (hpos : 1 ≤ index)
    (hle : index ≤ binds.length) :
    Bind.lookup (before ++ (binds ++ behind)) (some (index + before.length)) =
      Bind.lookup binds (some index) := by
  obtain ⟨i, rfl⟩ := Nat.exists_eq_add_of_le' hpos
  have hindex : i + 1 + before.length = before.length + i + 1 := by omega
  have hlt : i < binds.length := by omega
  simp only [Bind.lookup, Option.bind_some, hindex, Bind.at?]
  rw [List.getElem?_append_right (by omega), Nat.add_sub_cancel_left,
    List.getElem?_append_left hlt]

namespace Compiled

/-- Each mark of a numbered query is the number of one of its binds. -/
theorem Numbered.exists_of_mem {external : Prop} {q : Compiled} (h : q.Numbered external)
    (hstyle : q.backend.markerStyle = .numbered) {mark : Option Nat} (hmark : mark ∈ q.marks) :
    ∃ index, mark = some index ∧ 1 ≤ index ∧ index ≤ q.binds.length := by
  have hmem := h.perm.mem_iff.mp hmark
  rw [hstyle] at hmem
  obtain ⟨index, hindex, rfl⟩ := List.mem_map.mp hmem
  obtain ⟨hpos, hlt⟩ := List.mem_range'_1.mp hindex
  exact ⟨index, rfl, hpos, by omega⟩

theorem refs_eq {q : Compiled} (hstyle : q.backend.markerStyle = .numbered) :
    q.refs = q.marks.map (Bind.lookup q.binds) := by
  rw [refs, marks, hstyle, MarkerStyle.marks_numbered, List.map_map]
  rfl

/-- Every marker of a numbered query refers to a bind. -/
theorem Numbered.none_notMem_refs {external : Prop} {q : Compiled} (h : q.Numbered external)
    (hstyle : q.backend.markerStyle = .numbered) : none ∉ q.refs := by
  intro hnone
  rw [refs_eq hstyle, List.mem_map] at hnone
  obtain ⟨mark, hmark, hlookup⟩ := hnone
  obtain ⟨index, rfl, hpos, hle⟩ := h.exists_of_mem hstyle hmark
  obtain ⟨i, rfl⟩ := Nat.exists_eq_add_of_le' hpos
  -- an index within bounds looks something up
  rw [Bind.lookup, Option.bind_some, Bind.at?, List.getElem?_eq_none_iff] at hlookup
  omega

/-- A numbered query goes on referring to its own binds where it is spliced. -/
theorem Numbered.lookup_shiftMarks {external : Prop} {q : Compiled} (h : q.Numbered external)
    (hstyle : q.backend.markerStyle = .numbered) (before behind : List Bind) :
    (shiftMarks before.length q.marks).map (Bind.lookup (before ++ (q.binds ++ behind))) =
      q.refs := by
  rw [refs_eq hstyle, shiftMarks, List.map_map]
  refine List.map_congr_left fun mark hmark => ?_
  obtain ⟨index, rfl, hpos, hle⟩ := h.exists_of_mem hstyle hmark
  exact Bind.lookup_append_shift hpos hle

end Compiled

/-! ## Pieces and statements -/

/-- The marks of pieces behind some binds look up what the pieces refer to. -/
theorem Piece.lookup_marks {external : Prop} {b : Backend} {ps : List Piece}
    (hstyle : b.markerStyle = .numbered)
    (h : ∀ q, .fragment q ∈ ps → q.backend = b ∧ q.Numbered external) (before : List Bind) :
    (marks b before.length ps).map (Bind.lookup (before ++ binds ps)) =
      ps.flatMap (collect (fun value => [some value]) Compiled.refs) := by
  induction ps generalizing before with
  | nil => rfl
  | cons p ps ih =>
      have hrest := ih (fun q hq => h q (List.mem_cons_of_mem _ hq)) (before ++ p.ownBinds)
      rw [List.length_append, List.append_assoc] at hrest
      rw [marks, List.map_append, binds_cons, hrest, List.flatMap_cons]
      congr 1
      -- binds and fragments show marks, and nothing else does
      cases p with
      | bind value =>
          have hvalue : Bind.lookup (before ++ ([value] ++ binds ps)) (some (before.length + 1)) =
              some value := by
            simp [Bind.lookup, Bind.at?]
          simp only [ownMarks, ownBinds, hstyle, MarkerStyle.markOf, List.map_cons, List.map_nil,
            hvalue, collect]
      | fragment q =>
          obtain ⟨rfl, hq⟩ := h q (List.mem_cons_self ..)
          exact hq.lookup_shiftMarks hstyle before (binds ps)
      | text s => rfl
      | name ident => rfl
      | mention ident => rfl
      | fail error => rfl

/-- Every marker of a compiled statement refers to the bind that was written in its
place, also through fragments that were spliced in. -/
theorem Statement.refs_compile {s : Statement} {q : Compiled} (hclean : s.Clean .postgresql)
    (hfragments : ∀ p ∈ s.fragments, p.Built True) (hcompile : s.compile .postgresql = .ok q)
    (hreadable : MarkerStyle.numbered.Readable q.binds.length) :
    q.refs = s.refs ∧ none ∉ q.refs := by
  obtain ⟨hpieces, hmarks⟩ := Statement.marks_compile hclean
    (fun p hp => (hfragments p hp).endsInCode) (fun p hp hr => (hfragments p hp).numbered hr)
    hcompile hreadable
  have hnumbered := (Compiled.Built.compiled hclean hfragments hcompile).numbered
  obtain ⟨hfailure, rfl⟩ := Statement.compile_eq_ok hcompile
  refine ⟨?_, (hnumbered hreadable).none_notMem_refs rfl⟩
  rw [Compiled.refs_eq rfl, hmarks]
  have hlookup := Piece.lookup_marks rfl hpieces []
  rw [List.nil_append] at hlookup
  rw [Statement.refs, ← Statement.collect_pieces hfailure]
  exact hlookup

theorem Statement.refs_compile_shared :
    let fragment : Compiled := ⟨"SELECT $2, $1", [.int 1, .int 2], .postgresql⟩
    let e : Expr := .and (.subquery ⟨.named "a", false, fragment⟩)
      (.or (.predicate ⟨.named "c", .inList, [.null, .int 7]⟩)
        (.subquery ⟨.named "b", true, fragment⟩))
    let q : Compiled :=
      ⟨"(\"a\" IN (SELECT $2, $1) AND ((\"c\" IN ($3) OR \"c\" IS NULL) " ++
          "OR \"b\" NOT IN (SELECT $5, $4)))",
        [.int 1, .int 2, .int 7, .int 1, .int 2], .postgresql⟩
    (Statement.condition e).Clean .postgresql ∧
      (∀ p ∈ (Statement.condition e).fragments, p.Built True) ∧
      (Statement.condition e).compile .postgresql = .ok q ∧
      q.refs = [.int 2, .int 1, .int 7, .int 2, .int 1].map some ∧ none ∉ q.refs := by
  intro fragment e q
  have hclean : (Statement.condition e).Clean .postgresql := by decide +kernel
  have hclosed : Lexical.Closed fragment.sql := by decide +kernel
  have haccept : Compiled.ofParts fragment.sql fragment.binds .postgresql = .ok fragment :=
    Compiled.ofParts_eq_ok_iff.mpr ⟨by decide, by decide, rfl⟩
  have hfragments : ∀ p ∈ (Statement.condition e).fragments, p.Built True := by
    intro p hp
    have hp' : p = fragment := by simpa [e, Statement.fragments, Statement.query?,
      Statement.conditions, Expr.fragments] using hp
    rw [hp']
    exact .accepted trivial hclosed haccept
  have hcompile : (Statement.condition e).compile .postgresql = .ok q :=
    Statement.compile_of_pieces (by decide +kernel) (by decide +kernel) rfl rfl
  have h := Statement.refs_compile hclean hfragments hcompile (by decide)
  have hindices : Compiled.markerIndices fragment.sql = [2, 1] := by decide
  have hrefs : (Statement.condition e).refs =
      [.int 2, .int 1, .int 7, .int 2, .int 1].map some := by
    have hfragment : fragment.refs = [.int 2, .int 1].map some := by
      rw [Compiled.refs, hindices]
      rfl
    simp [e, Statement.refs, Statement.collect, Expr.collect, Predicate.keptBinds, hfragment,
      Bind.isNull]
  exact ⟨hclean, hfragments, hcompile, h.1.trans hrefs, h.2⟩

end BoundSql
