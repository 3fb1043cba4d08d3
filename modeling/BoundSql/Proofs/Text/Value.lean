import BoundSql.Text.Blank
import Mathlib.Data.List.Basic

/-!
# Texts of values

Numbers, dates and times are written in few characters: digits, signs, points, colons and,
inside a timestamp, a space. Such a text (`IsValueText`) has no blanks at its ends, so that
trimming leaves it alone (`Trimmed.trim`), and nothing in it can be taken for a quote, a
separator or a word.
-/

namespace BoundSql.Text

/-! ## Digits as characters -/

theorem toNat_of_isDigit {c : Char} (h : c.isDigit = true) : 48 ≤ c.toNat ∧ c.toNat ≤ 57 := by
  rw [Char.isDigit, Bool.and_eq_true, decide_eq_true_eq, decide_eq_true_eq] at h
  exact ⟨UInt32.le_iff_toNat_le.mp h.1, UInt32.le_iff_toNat_le.mp h.2⟩

theorem isBlank_of_isDigit {c : Char} (h : c.isDigit = true) : isBlank c = false := by
  obtain ⟨hlow, hhigh⟩ := toNat_of_isDigit h
  simp only [isBlank, Bool.or_eq_false_iff, Bool.and_eq_false_iff, decide_eq_false_iff_not,
    beq_eq_false_iff_ne]
  omega

theorem toUpper_of_isDigit {c : Char} (h : c.isDigit = true) : c.toUpper = c := by
  obtain ⟨-, hhigh⟩ := toNat_of_isDigit h
  refine dif_neg fun hletter => ?_
  have hlow : 97 ≤ c.toNat := UInt32.le_iff_toNat_le.mp hletter.1
  omega

/-! ## Trimmed texts -/

/-- A text without blanks at its ends. -/
structure Trimmed (cs : List Char) : Prop where
  head : ∀ c ∈ cs.head?, isBlank c = false
  last : ∀ c ∈ cs.getLast?, isBlank c = false

theorem trimLeft_of_head {cs : List Char} (h : ∀ c ∈ cs.head?, isBlank c = false) :
    trimLeft cs = cs := by
  cases cs with
  | nil => rfl
  | cons c cs => simp [trimLeft, h c rfl]

/-- Trimming leaves a trimmed text alone. -/
theorem Trimmed.trim {cs : List Char} (h : Trimmed cs) : Text.trim cs = cs := by
  rw [Text.trim, trimLeft_of_head h.head]
  obtain rfl | ⟨init, c, rfl⟩ := List.eq_nil_or_concat cs
  · rfl
  · rw [List.concat_eq_append] at h ⊢
    exact trimRight_append_singleton (h.last c (by simp))

theorem trim_ne_nil {c : Char} (h : isBlank c = false) (cs : List Char) :
    Text.trim (c :: cs) ≠ [] := by
  rw [Text.trim, trimLeft_of_head (by rintro _ ⟨⟩; exact h), trimRight]
  split
  · simp [h]
  · simp

/-! ## Characters of values -/

/-- A character that a number, a date or a time is written with. -/
def isValueChar (c : Char) : Bool :=
  c.isDigit || ['-', '+', '.', ':', ' '].contains c

theorem isValueChar_of_isDigit {c : Char} (h : c.isDigit = true) : isValueChar c = true := by
  simp [isValueChar, h]

theorem isValueChar_cases {c : Char} (h : isValueChar c = true) :
    c.isDigit = true ∨ c = '-' ∨ c = '+' ∨ c = '.' ∨ c = ':' ∨ c = ' ' := by
  simpa [isValueChar] using h

theorem ne_of_isValueChar {c d : Char} (h : isValueChar c = true) (hd : isValueChar d = false) :
    c ≠ d := by
  rintro rfl
  exact absurd h (by simp [hd])

theorem isBlank_of_isValueChar {c : Char} (h : isValueChar c = true) (hspace : c ≠ ' ') :
    isBlank c = false := by
  rcases isValueChar_cases h with hdigit | rfl | rfl | rfl | rfl | rfl
  · exact isBlank_of_isDigit hdigit
  all_goals first | rfl | exact absurd rfl hspace

theorem toUpper_of_isValueChar {c : Char} (h : isValueChar c = true) : c.toUpper = c := by
  rcases isValueChar_cases h with hdigit | rfl | rfl | rfl | rfl | rfl
  · exact toUpper_of_isDigit hdigit
  all_goals rfl

/-- The text of a number, a date or a time. -/
structure IsValueText (cs : List Char) : Prop where
  chars : ∀ c ∈ cs, isValueChar c = true
  head : ∃ c ∈ cs.head?, c ≠ ' '
  last : ∃ c ∈ cs.getLast?, c ≠ ' '

theorem IsValueText.ne_nil {cs : List Char} (h : IsValueText cs) : cs ≠ [] := by
  rintro rfl
  obtain ⟨c, hc, -⟩ := h.head
  cases hc

theorem IsValueText.trimmed {cs : List Char} (h : IsValueText cs) : Trimmed cs := by
  obtain ⟨first, hfirst, hfirstSpace⟩ := h.head
  obtain ⟨last, hlast, hlastSpace⟩ := h.last
  refine ⟨fun c hc => ?_, fun c hc => ?_⟩
  · obtain rfl : first = c := Option.mem_unique hfirst hc
    exact isBlank_of_isValueChar (h.chars _ (List.mem_of_mem_head? hc)) hfirstSpace
  · obtain rfl : last = c := Option.mem_unique hlast hc
    exact isBlank_of_isValueChar (h.chars _ (List.mem_of_mem_getLast? hc)) hlastSpace

theorem isValueText_of_digits {ds : List Char} (hne : ds ≠ [])
    (hdigits : ∀ c ∈ ds, c.isDigit = true) : IsValueText ds := by
  have hspace : ∀ c ∈ ds, c ≠ ' ' := by
    rintro c hc rfl
    exact absurd (hdigits _ hc) (by decide)
  refine ⟨fun c hc => isValueChar_of_isDigit (hdigits c hc), ?_, ?_⟩
  · exact ⟨ds.head hne, List.head?_eq_some_head hne, hspace _ (List.head_mem hne)⟩
  · exact ⟨ds.getLast hne, List.getLast?_eq_some_getLast hne, hspace _ (List.getLast_mem hne)⟩

/-- A sign in front of a text. -/
theorem IsValueText.cons {c : Char} {cs : List Char} (h : IsValueText cs)
    (hc : isValueChar c = true) (hspace : c ≠ ' ') : IsValueText (c :: cs) where
  chars := by
    rintro d (_ | ⟨_, hd⟩)
    · exact hc
    · exact h.chars d hd
  head := ⟨c, rfl, hspace⟩
  last := by
    obtain ⟨d, hd, hdSpace⟩ := h.last
    exact ⟨d, List.mem_getLast?_cons hd, hdSpace⟩

/-- Two texts with a character between them. -/
theorem IsValueText.join {a b : List Char} (ha : IsValueText a) (hb : IsValueText b) {c : Char}
    (hc : isValueChar c = true) : IsValueText (a ++ c :: b) where
  chars := by
    intro d hd
    rcases List.mem_append.mp hd with hd | hd
    · exact ha.chars d hd
    · rcases List.mem_cons.mp hd with rfl | hd
      · exact hc
      · exact hb.chars d hd
  head := by
    obtain ⟨d, hd, hspace⟩ := ha.head
    exact ⟨d, List.mem_head?_append_of_mem_head? hd, hspace⟩
  last := by
    obtain ⟨d, hd, hspace⟩ := hb.last
    exact ⟨d, List.mem_getLast?_append_of_mem_getLast? (List.mem_getLast?_cons hd), hspace⟩

end BoundSql.Text
