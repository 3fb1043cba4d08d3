import BoundSql.Proofs.Wire.Grammar
import BoundSql.Proofs.Wire.Roundtrip

/-!
# Elements without quotes

An array of numbers, dates or booleans is written without quotes, and so it is read back just
if none of its texts can be taken for anything else (`Survives`), for any list of texts
(`parse_render_bare_iff`).

That the texts are read back if they survive is known of each of them. Conversely a list with
other texts could still be read back by coincidence, each text found where others have been
written. Lengths exclude this: an item is as long as the element that it stands for, quotes
and blanks make it longer (`Item.tight`), and so no element of a literal that is read back can
have been read from quotes.
-/

namespace BoundSql.ArrayLiteral

open Text (Blank Padded Trimmed)

/-- A text that can stand for itself without quotes. -/
structure Survives (s : String) : Prop where
  ne_empty : s ≠ ""
  trimmed : Text.trimString s = s
  plain : ∀ c ∈ s.toList, c ∉ delimiters
  notNull : ¬SpellsNull s.toList

theorem survives_iff (s : String) : Survives s ↔ Word s.toList ∧ ¬SpellsNull s.toList := by
  have hempty : s ≠ "" ↔ s.toList ≠ [] := not_congr String.toList_eq_nil_iff.symm
  have htrim : Text.trimString s = s ↔ Trimmed s.toList := by
    rw [Text.trimString, ← String.toList_inj, String.toList_ofList, Text.trim_eq_iff]
    exact and_iff_left ⟨[], [], by simp [Blank], by simp [Blank], by simp⟩
  constructor
  · intro h
    exact ⟨⟨hempty.mp h.ne_empty, htrim.mp h.trimmed, h.plain⟩, h.notNull⟩
  · intro h
    obtain ⟨hword, hnull⟩ := h
    exact ⟨hempty.mpr hword.ne_nil, htrim.mpr hword.trimmed, hword.plain, hnull⟩

/-- What is written without quotes is a word other than the null token. -/
theorem bare_iff {cs : List Char} : Bare cs ↔ Word cs ∧ ¬SpellsNull cs := by
  have hplain : (∀ c ∈ cs, c ∉ delimiters) ↔
      (∀ c ∈ cs, c ≠ ',') ∧ ∀ c ∈ cs, isReserved c = false := by
    simp only [mem_delimiters_iff, not_or, Bool.not_eq_true]
    exact forall₂_and
  rw [← isNullToken_iff, Bool.not_eq_true]
  constructor
  · intro h
    exact ⟨⟨h.ne_nil, h.trimmed, hplain.mpr ⟨h.noComma, h.noReserved⟩⟩, h.notNull⟩
  · intro h
    obtain ⟨hword, hnull⟩ := h
    obtain ⟨hcomma, hreserved⟩ := hplain.mp hword.plain
    exact ⟨hword.ne_nil, hword.trimmed, hcomma, hreserved, hnull⟩

/-! ## Lengths -/

theorem Body.length_le {written text : List Char} (h : Body written text) :
    text.length ≤ written.length := by
  induction h with
  | nil => exact Nat.le_refl 0
  | plain _ _ _ ih => exact Nat.succ_le_succ ih
  | escaped _ ih =>
      rw [List.length_cons, List.length_cons, List.length_cons]
      omega

/-- An item is no shorter than its element, and longer if it stands in quotes. -/
theorem Item.tight {item : List Char} {e : Option String} (h : Item item e) :
    (element false e).length ≤ item.length ∧
      (item.length ≤ (element false e).length → ∀ s ∈ e, Survives s) := by
  cases h with
  | quoted hbody hpadded =>
      have hwritten := hbody.length_le
      have hitem := hpadded.length_le
      rw [List.cons_append, List.length_cons, List.length_append, List.length_singleton] at hitem
      simp only [element, Bool.false_eq_true, if_false, String.toList_ofList]
      exact ⟨by omega, fun hle => by omega⟩
  | null hword hnull hpadded =>
      have hitem := hpadded.length_le
      rw [hnull.length_eq] at hitem
      exact ⟨hitem, fun _ s hs => by cases hs⟩
  | bare hword hnull hpadded =>
      have hitem := hpadded.length_le
      simp only [element, Bool.false_eq_true, if_false, String.toList_ofList]
      refine ⟨hitem, fun _ s hs => ?_⟩
      rw [← Option.some.inj hs, survives_iff, String.toList_ofList]
      exact ⟨hword, hnull⟩

/-- Items are no shorter than their elements, and longer if one of them stands in quotes. -/
theorem Items.tight {inner : List Char} {es : List (Option String)} (h : Items inner es) :
    (elements false es).length ≤ inner.length ∧
      (inner.length ≤ (elements false es).length → ∀ e ∈ es, ∀ s ∈ e, Survives s) := by
  induction h with
  | @single item e h =>
      obtain ⟨hle, hsurvives⟩ := h.tight
      refine ⟨hle, fun hlength d hd => ?_⟩
      rw [List.mem_singleton.mp hd]
      exact hsurvives hlength
  | @cons item others e es h hothers ih =>
      obtain ⟨hle, hsurvives⟩ := h.tight
      obtain ⟨hle', hsurvives'⟩ := ih
      have hlength : (elements false (e :: es)).length =
          (element false e).length + 1 + (elements false es).length := by
        cases hothers <;> simp [elements] <;> omega
      rw [hlength, List.length_append, List.length_cons]
      refine ⟨by omega, fun htotal d hd => ?_⟩
      rcases List.mem_cons.mp hd with rfl | hd
      · exact hsurvives (by omega)
      · exact hsurvives' (by omega) d hd

/-! ## Literals -/

/-- A literal is read back with the elements that were written, and then they survive. -/
theorem survives_of_parse {es : List (Option String)} (h : parse (render false es) = .ok es) :
    ∀ e ∈ es, ∀ s ∈ e, Survives s := by
  rw [parse, render, String.toList_ofList, interior?_braces] at h
  simp only [] at h
  split at h
  · -- what is read as the empty list was written for it
    cases h
    simp
  · exact (readElements_eq_ok_iff.mp h).tight.2 (Nat.le_refl _)

theorem Survives.readable {e : Option String} (h : ∀ s ∈ e, Survives s) : Readable false e := by
  intro s hs
  exact Or.inr (bare_iff.mpr ((survives_iff s).mp (h s hs)))

/-- The texts of the elements of an array other than of floats and of strings. -/
theorem survives_elementTexts {a : BindArray} (hfloat : a.elementKind ≠ .float)
    (hstring : a.elementKind ≠ .string) :
    ∀ e ∈ Backend.postgresql.elementTexts a, ∀ s ∈ e, Survives s := by
  intro e he s hs
  have hquoted : (a.elementKind == ElementKind.string) = false := beq_eq_false_iff_ne.mpr hstring
  rcases Wire.readable_elementTexts hfloat e he s hs with hquote | hbare
  · rw [hquoted] at hquote
    cases hquote
  · exact (survives_iff s).mpr (bare_iff.mp hbare)

/-- A literal without quotes is read back just if the texts of its elements survive. Those of
booleans, integers, decimals, timestamps and dates do, which are sent so. -/
theorem parse_render_bare_iff :
    (∀ es, parse (render false es) = .ok es ↔ ∀ s, some s ∈ es → Survives s) ∧
      ∀ a : BindArray, a.elementKind ≠ .float → a.elementKind ≠ .string →
        Backend.postgresql.encode (.array a) =
            .ok (.text (render false (Backend.postgresql.elementTexts a))) ∧
          ∀ s, some s ∈ Backend.postgresql.elementTexts a → Survives s := by
  refine ⟨fun es => ⟨?_, ?_⟩, fun a hfloat hstring => ⟨?_, ?_⟩⟩
  · intro h s hs
    exact survives_of_parse h (some s) hs s rfl
  · intro h
    refine parse_render fun e he => Survives.readable fun s hs => h s ?_
    rw [Option.mem_def.mp hs] at he
    exact he
  · have hquoted : (a.elementKind == ElementKind.string) = false := beq_eq_false_iff_ne.mpr hstring
    show Except.ok (Wire.text (Backend.postgresql.arrayText a)) = _
    rw [Backend.arrayText, hquoted]
  · intro s hs
    exact survives_elementTexts hfloat hstring (some s) hs s rfl

theorem parse_render_bare_iff_spread :
    let es := [some "\"a", some "b\""]
    let a : BindArray := .decimal [some ⟨true, 150, 2, by decide, by decide⟩, none]
    parse (render false es) = .ok [some "a,b"] ∧ parse (render false es) ≠ .ok es ∧
      a.elementKind ≠ .float ∧ a.elementKind ≠ .string ∧
      Backend.postgresql.encode (.array a) = .ok (.text "\x7b-1.50,NULL\x7d") ∧
      Survives "-1.50" := by
  intro es a
  obtain ⟨hiff, harray⟩ := parse_render_bare_iff
  have hfloat : a.elementKind ≠ .float := by decide
  have hstring : a.elementKind ≠ .string := by decide
  obtain ⟨hsent, hsurvives⟩ := harray a hfloat hstring
  have hquote : ¬Survives "\"a" := fun h => h.plain '"' (by decide +kernel) (by decide)
  have hread : parse (render false es) = .ok [some "a,b"] := by decide +kernel
  have htext : render false (Backend.postgresql.elementTexts a) = "\x7b-1.50,NULL\x7d" := by
    decide +kernel
  rw [htext] at hsent
  exact ⟨hread, fun h => hquote ((hiff es).mp h _ (List.mem_cons_self ..)), hfloat, hstring, hsent,
    hsurvives "-1.50" (by decide +kernel)⟩

end BoundSql.ArrayLiteral
