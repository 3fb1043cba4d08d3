import BoundSql.Proofs.Text.Value
import Mathlib.Data.List.TakeWhile

/-!
# What trimming finds

A text is padded if it stands between blanks (`Padded`). Trimming takes a padded text out
again: it finds the one trimmed text that has blanks around it (`trim_eq_iff`), so that a
reader that trims can be described without its trimming.
-/

namespace BoundSql.Text

/-- A text that holds nothing but blanks. -/
def Blank (cs : List Char) : Prop :=
  ∀ c ∈ cs, isBlank c = true

/-- A text with blanks around another one. -/
def Padded (text cs : List Char) : Prop :=
  ∃ before behind, Blank before ∧ Blank behind ∧ cs = before ++ text ++ behind

theorem Blank.append {cs ds : List Char} (hcs : Blank cs) (hds : Blank ds) : Blank (cs ++ ds) := by
  intro c hc
  rcases List.mem_append.mp hc with hc | hc
  · exact hcs c hc
  · exact hds c hc

theorem Padded.prepend {before text cs : List Char} (hbefore : Blank before)
    (h : Padded text cs) : Padded text (before ++ cs) := by
  obtain ⟨front, behind, hfront, hbehind, rfl⟩ := h
  exact ⟨before ++ front, behind, hbefore.append hfront, hbehind, by simp⟩

theorem Padded.subset {text cs : List Char} (h : Padded text cs) : text ⊆ cs := by
  obtain ⟨before, behind, -, -, rfl⟩ := h
  intro c hc
  exact List.mem_append_left _ (List.mem_append_right _ hc)

theorem Padded.length_le {text cs : List Char} (h : Padded text cs) :
    text.length ≤ cs.length := by
  obtain ⟨before, behind, -, -, rfl⟩ := h
  rw [List.length_append, List.length_append]
  omega

/-! ## Either end -/

theorem trimLeft_append_of_blank {before : List Char} (h : Blank before) (cs : List Char) :
    trimLeft (before ++ cs) = trimLeft cs :=
  List.dropWhile_append_of_pos h

theorem Blank.trimLeft {cs : List Char} (h : Blank cs) : Text.trimLeft cs = [] :=
  List.dropWhile_eq_nil_iff.mpr h

theorem Blank.trimRight {cs : List Char} (h : Blank cs) : Text.trimRight cs = [] := by
  induction cs with
  | nil => rfl
  | cons c cs ih =>
      have hrest : Text.trimRight cs = [] := ih fun d hd => h d (List.mem_cons_of_mem _ hd)
      simp only [Text.trimRight, hrest, h c (List.mem_cons_self ..), if_true]

theorem trimRight_append_of_blank {behind : List Char} (h : Blank behind) (cs : List Char) :
    trimRight (cs ++ behind) = trimRight cs := by
  induction cs with
  | nil => exact h.trimRight
  | cons c cs ih => simp only [List.cons_append, trimRight, ih]

/-- What is dropped at the start of a text are blanks, and none is left there. -/
theorem exists_trimLeft (cs : List Char) :
    ∃ before, Blank before ∧ cs = before ++ trimLeft cs ∧
      ∀ c ∈ (trimLeft cs).head?, isBlank c = false := by
  refine ⟨cs.takeWhile isBlank, fun c hc => List.mem_takeWhile_imp hc,
    List.takeWhile_append_dropWhile.symm, ?_⟩
  intro c hc
  have hhead := List.head?_dropWhile_not isBlank cs
  rw [trimLeft] at hc
  rw [hc] at hhead
  simpa using hhead

/-- What is dropped at the end of a text are blanks, and none is left there. -/
theorem exists_trimRight (cs : List Char) :
    ∃ behind, Blank behind ∧ cs = trimRight cs ++ behind ∧
      ∀ c ∈ (trimRight cs).getLast?, isBlank c = false := by
  induction cs with
  | nil => exact ⟨[], by simp [Blank], rfl, by simp⟩
  | cons c cs ih =>
      obtain ⟨behind, hblank, hcs, hlast⟩ := ih
      cases hkept : trimRight cs with
      | nil =>
          -- nothing is left behind the character, which now stands at the end
          rw [hkept, List.nil_append] at hcs
          cases hc : isBlank c with
          | true =>
              have hnil : trimRight (c :: cs) = [] := by simp [trimRight, hkept, hc]
              refine ⟨c :: cs, ?_, by rw [hnil]; rfl, by simp [hnil]⟩
              intro d hd
              rcases List.mem_cons.mp hd with rfl | hd
              · exact hc
              · exact hblank d (hcs ▸ hd)
          | false =>
              have hsingle : trimRight (c :: cs) = [c] := by simp [trimRight, hkept, hc]
              refine ⟨behind, hblank, by rw [hsingle, hcs]; rfl, ?_⟩
              simpa [hsingle] using hc
      | cons d ds =>
          rw [hkept] at hcs hlast
          have hcons : trimRight (c :: cs) = c :: d :: ds := by simp [trimRight, hkept]
          refine ⟨behind, hblank, by rw [hcons, hcs]; rfl, ?_⟩
          rwa [hcons, List.getLast?_cons_cons]

/-! ## Both ends -/

/-- Trimming finds the trimmed text that has blanks around it, and no other one. -/
theorem trim_eq_iff {cs text : List Char} : trim cs = text ↔ Trimmed text ∧ Padded text cs := by
  constructor
  · intro h
    obtain ⟨before, hbefore, hcs, hhead⟩ := exists_trimLeft cs
    obtain ⟨behind, hbehind, hleft, hlast⟩ := exists_trimRight (trimLeft cs)
    rw [← trim, h] at hleft hlast
    refine ⟨⟨?_, hlast⟩, before, behind, hbefore, hbehind, ?_⟩
    · intro c hc
      exact hhead c (hleft ▸ List.mem_head?_append_of_mem_head? hc)
    · rw [List.append_assoc, ← hleft, ← hcs]
  · intro h
    obtain ⟨htrimmed, before, behind, hbefore, hbehind, rfl⟩ := h
    rw [trim, List.append_assoc, trimLeft_append_of_blank hbefore]
    cases text with
    | nil => rw [List.nil_append, hbehind.trimLeft, trimRight_nil]
    | cons c cs =>
        have hhead : ∀ d ∈ (c :: cs ++ behind).head?, isBlank d = false := htrimmed.head
        have htrim := htrimmed.trim
        rw [trim, trimLeft_of_head htrimmed.head] at htrim
        rw [trimLeft_of_head hhead, trimRight_append_of_blank hbehind, htrim]

theorem trim_eq_nil_iff {cs : List Char} : trim cs = [] ↔ Blank cs := by
  rw [trim_eq_iff]
  constructor
  · intro h
    obtain ⟨-, before, behind, hbefore, hbehind, rfl⟩ := h
    rw [List.append_nil]
    exact hbefore.append hbehind
  · intro h
    exact ⟨⟨by simp, by simp⟩, cs, [], h, by simp [Blank], by simp⟩

end BoundSql.Text
