import BoundSql.Proofs.Text.Value
import BoundSql.Text.Lowercase
import Mathlib

/-!
# Lowercase and ASCII lowercase

The full map to lowercase and the one of the ASCII letters differ on characters beyond ASCII.
What the first writes for such a character is beyond ASCII again, at least in part, with one
exception: the Kelvin sign becomes the letter `k`. Blanks are neither made nor lost.

A text that one of the maps makes into ASCII letters other than `k` is therefore ASCII, and
then the two maps agree on it (`map_toLower_lowercaseFrom_eq_iff`). What is known of the tables
is read off `caseRuns` by intervals, one check for all characters of a run.
-/

namespace BoundSql.Text

/-! ## Intervals of the table -/

/-- Intervals of characters that hold no blank. -/
def blankless : List CharRange :=
  [⟨0x21, 0x84⟩, ⟨0xa1, 0x167f⟩, ⟨0x1681, 0x1fff⟩, ⟨0x2060, 0x2fff⟩, ⟨0x3001, 0xd7ff⟩,
    ⟨0xe000, 0x10ffff⟩]

/-- The lowercase letters of a run lie in one of the intervals without blanks. -/
theorem exists_blankless : ∀ run ∈ caseRuns, ∃ range ∈ blankless,
    (range.first : Int) ≤ run.first + run.shift ∧ run.last + run.shift ≤ (range.last : Int) := by
  decide +kernel

/-- Two runs have lowercase letters in ASCII: the ASCII letters and the Kelvin sign. -/
theorem eq_of_shift_lt : ∀ run ∈ caseRuns, run.first + run.shift < 128 →
    run = ⟨0x41, 0x5a, 1, 32⟩ ∨ run = ⟨0x212a, 0x212a, 1, -8383⟩ := by
  decide +kernel

theorem isValidChar_of_mem_blankless : ∀ range ∈ blankless,
    (range.last < 0xd800 ∨ 0xdfff < range.first) ∧ range.last < 0x110000 := by
  decide

theorem isBlank_of_blankless {range : CharRange} (h : range ∈ blankless) {c : Char}
    (hc : range.covers c.toNat = true) : isBlank c = false := by
  simp only [CharRange.covers, Bool.and_eq_true, decide_eq_true_eq] at hc
  simp only [blankless, List.mem_cons, List.not_mem_nil, or_false] at h
  simp only [isBlank, Bool.or_eq_false_iff, Bool.and_eq_false_iff, decide_eq_false_iff_not,
    beq_eq_false_iff_ne]
  rcases h with rfl | rfl | rfl | rfl | rfl | rfl <;> simp only at hc <;> omega

/-- The lowercase letter that a run gives for a character is no blank, and its number is the
character's number shifted. -/
theorem lower_of_covers {run : CaseRun} (hrun : run ∈ caseRuns) {c : Char}
    (hc : run.covers c.toNat = true) :
    ((Char.ofNat (c.toNat + run.shift).toNat).toNat : Int) = c.toNat + run.shift ∧
      isBlank (Char.ofNat (c.toNat + run.shift).toNat) = false := by
  obtain ⟨range, hrange, hfirst, hlast⟩ := exists_blankless run hrun
  obtain ⟨hsurrogates, hbound⟩ := isValidChar_of_mem_blankless range hrange
  simp only [CaseRun.covers, Bool.and_eq_true, decide_eq_true_eq] at hc
  have hvalid : (c.toNat + run.shift).toNat.isValidChar := by
    unfold Nat.isValidChar
    omega
  have hnumber : (Char.ofNat (c.toNat + run.shift).toNat).toNat = (c.toNat + run.shift).toNat := by
    rw [Char.toNat_ofNat, if_pos hvalid]
  refine ⟨by omega, isBlank_of_blankless hrange ?_⟩
  rw [hnumber, CharRange.covers, Bool.and_eq_true, decide_eq_true_eq, decide_eq_true_eq]
  omega

/-! ## One character -/

/-- The full map and the map of ASCII letters agree on ASCII. -/
theorem lowercaseChar_of_ascii {c : Char} (h : c.toNat < 128) : lowercaseChar c = [c.toLower] := by
  have hall : ∀ n < 128, lowercaseChar (Char.ofNat n) = [(Char.ofNat n).toLower] := by
    decide +kernel
  have hc := hall c.toNat h
  rwa [Char.ofNat_toNat] at hc

/-- The lowercase of a character is that of a run, the character itself, or the dotted `i`. -/
theorem lowercaseChar_cases (c : Char) :
    (∃ run ∈ caseRuns, run.covers c.toNat = true ∧
        lowercaseChar c = [Char.ofNat (c.toNat + run.shift).toNat]) ∨
      lowercaseChar c = [c] ∨ lowercaseChar c = ['i', Char.ofNat 0x307] := by
  rw [lowercaseChar]
  split
  · exact Or.inr (Or.inr rfl)
  · split
    · rename_i run hrun
      have hcovers := List.find?_some hrun
      exact Or.inl ⟨run, List.mem_of_find?_eq_some hrun, hcovers, rfl⟩
    · exact Or.inr (Or.inl rfl)

theorem isBlank_of_mem_lowercaseChar {c d : Char} (hc : isBlank c = false)
    (hd : d ∈ lowercaseChar c) : isBlank d = false := by
  rcases lowercaseChar_cases c with ⟨run, hrun, hcovers, heq⟩ | heq | heq <;> rw [heq] at hd
  · rw [List.mem_singleton.mp hd]
    exact (lower_of_covers hrun hcovers).2
  · rw [List.mem_singleton.mp hd]
    exact hc
  · simp only [List.mem_cons, List.not_mem_nil, or_false] at hd
    rcases hd with rfl | rfl <;> rfl

/-- A character whose lowercase is in ASCII is in ASCII itself, or it is the Kelvin sign. -/
theorem ascii_of_lowercaseChar {c : Char} (h : ∀ d ∈ lowercaseChar c, d.toNat < 128 ∧ d ≠ 'k') :
    c.toNat < 128 := by
  rcases lowercaseChar_cases c with ⟨run, hrun, hcovers, heq⟩ | heq | heq <;> rw [heq] at h
  · obtain ⟨hlt, hk⟩ := h _ (List.mem_singleton_self _)
    have hnumber := (lower_of_covers hrun hcovers).1
    have hbounds := hcovers
    simp only [CaseRun.covers, Bool.and_eq_true, decide_eq_true_eq] at hbounds
    rcases eq_of_shift_lt run hrun (by omega) with rfl | rfl
    · simp only at hbounds
      omega
    · -- the Kelvin sign is the only character of its run, and its lowercase is excluded
      have hkelvin : c.toNat = 0x212a := by
        simp only at hbounds
        omega
      rw [hkelvin] at hk
      exact absurd (by decide) hk
  · exact (h c (List.mem_singleton_self c)).1
  · have hdot := (h (Char.ofNat 0x307) (by simp)).1
    exact absurd hdot (by decide)

/-! ## Texts -/

/-- What stands in the lowercase of a text in the place of a character. -/
structure Lowers (c : Char) (here : List Char) : Prop where
  ne_nil : here ≠ []
  notBlank : isBlank c = false → ∀ d ∈ here, isBlank d = false
  ofAscii : c.toNat < 128 → here = [c.toLower]
  ascii : (∀ d ∈ here, d.toNat < 128 ∧ d ≠ 'k') → c.toNat < 128

theorem lowers_lowercaseChar (c : Char) : Lowers c (lowercaseChar c) where
  ne_nil := by
    rcases lowercaseChar_cases c with ⟨run, -, -, heq⟩ | heq | heq <;> rw [heq] <;>
      exact List.cons_ne_nil _ _
  notBlank h _ hd := isBlank_of_mem_lowercaseChar h hd
  ofAscii := lowercaseChar_of_ascii
  ascii := ascii_of_lowercaseChar

/-- A sigma in either of its forms. -/
theorem lowers_sigma {c d : Char} (hc : c.toNat = 0x3a3) (hd : 128 ≤ d.toNat)
    (hblank : isBlank d = false) : Lowers c [d] where
  ne_nil := List.cons_ne_nil d []
  notBlank _ e he := by
    rw [List.mem_singleton.mp he]
    exact hblank
  ofAscii h := by omega
  ascii h := by
    have hlt := (h d (List.mem_singleton_self d)).1
    omega

/-- The lowercase of a text character by character. -/
theorem exists_lowercaseFrom_cons (before : List Char) (c : Char) (after : List Char) :
    ∃ here, Lowers c here ∧
      lowercaseFrom before (c :: after) = here ++ lowercaseFrom (c :: before) after := by
  refine ⟨_, ?_, rfl⟩
  split
  · rename_i hsigma
    split
    · exact lowers_sigma hsigma (by decide) (by decide)
    · exact lowers_sigma hsigma (by decide) (by decide)
  · exact lowers_lowercaseChar c

theorem lowercaseFrom_of_ascii (before : List Char) {cs : List Char}
    (h : ∀ c ∈ cs, c.toNat < 128) : lowercaseFrom before cs = cs.map Char.toLower := by
  induction cs generalizing before with
  | nil => rfl
  | cons c cs ih =>
      obtain ⟨here, hhere, heq⟩ := exists_lowercaseFrom_cons before c cs
      rw [heq, hhere.ofAscii (h c (List.mem_cons_self ..)),
        ih (c :: before) fun d hd => h d (List.mem_cons_of_mem _ hd)]
      rfl

theorem ascii_of_lowercaseFrom {before cs : List Char}
    (h : ∀ d ∈ lowercaseFrom before cs, d.toNat < 128 ∧ d ≠ 'k') : ∀ c ∈ cs, c.toNat < 128 := by
  induction cs generalizing before with
  | nil => simp
  | cons c cs ih =>
      obtain ⟨here, hhere, heq⟩ := exists_lowercaseFrom_cons before c cs
      rw [heq] at h
      intro d hd
      rcases List.mem_cons.mp hd with rfl | hd
      · exact hhere.ascii fun e he => h e (List.mem_append_left _ he)
      · exact ih (fun e he => h e (List.mem_append_right _ he)) d hd

theorem lowercaseFrom_ne_nil (before : List Char) {cs : List Char} (h : cs ≠ []) :
    lowercaseFrom before cs ≠ [] := by
  cases cs with
  | nil => exact absurd rfl h
  | cons c cs =>
      obtain ⟨here, hhere, heq⟩ := exists_lowercaseFrom_cons before c cs
      rw [heq]
      exact List.append_ne_nil_of_left_ne_nil hhere.ne_nil _

/-- Lowercasing makes no blanks at the ends of a text. -/
theorem Trimmed.lowercaseFrom {cs : List Char} (h : Trimmed cs) (before : List Char) :
    Trimmed (Text.lowercaseFrom before cs) := by
  constructor
  · cases cs with
    | nil => simp [Text.lowercaseFrom]
    | cons c cs =>
        obtain ⟨here, hhere, heq⟩ := exists_lowercaseFrom_cons before c cs
        rw [heq, List.head?_append_of_ne_nil _ hhere.ne_nil]
        intro d hd
        exact hhere.notBlank (h.head c rfl) d (List.mem_of_mem_head? hd)
  · have hlast := h.last
    clear h
    induction cs generalizing before with
    | nil => simp [Text.lowercaseFrom]
    | cons c cs ih =>
        obtain ⟨here, hhere, heq⟩ := exists_lowercaseFrom_cons before c cs
        rw [heq]
        cases cs with
        | nil =>
            -- the last character decides
            intro d hd
            simp only [Text.lowercaseFrom, List.append_nil] at hd
            exact hhere.notBlank (hlast c rfl) d (List.mem_of_mem_getLast? hd)
        | cons e cs =>
            rw [List.getLast?_append_of_ne_nil _ (lowercaseFrom_ne_nil _ (List.cons_ne_nil e cs))]
            exact ih (c :: before) hlast

/-! ## The two maps -/

/-- The map of ASCII letters does not lead into ASCII. -/
theorem toNat_lt_of_toLower {c : Char} (h : c.toLower.toNat < 128) : c.toNat < 128 := by
  by_cases hupper : c.isUpper = true
  · have hletter : 'A'.val ≤ c.val ∧ c.val ≤ 'Z'.val := by
      simpa [Char.isUpper] using hupper
    have hle : c.toNat ≤ 'Z'.toNat := UInt32.le_iff_toNat_le.mp hletter.2
    exact Nat.lt_of_le_of_lt hle (by decide)
  · rwa [Char.toLower_eq_of_not_isUpper hupper] at h

/-- Which texts become a text of ASCII letters other than `k` in ASCII lowercase does not
depend on whether they are lowercased before. -/
theorem map_toLower_lowercaseFrom_eq_iff (before : List Char) {cs word : List Char}
    (hword : ∀ d ∈ word, d.toNat < 128 ∧ d ≠ 'k') :
    (lowercaseFrom before cs).map Char.toLower = word ↔ cs.map Char.toLower = word := by
  have hascii : ∀ es : List Char, es.map Char.toLower = word →
      ∀ d ∈ es, d.toNat < 128 ∧ d ≠ 'k' := by
    intro es heq d hd
    obtain ⟨hlt, hk⟩ := hword d.toLower (heq ▸ List.mem_map_of_mem hd)
    refine ⟨toNat_lt_of_toLower hlt, ?_⟩
    intro hd
    rw [hd] at hk
    exact hk rfl
  have hagree : (∀ c ∈ cs, c.toNat < 128) →
      (lowercaseFrom before cs).map Char.toLower = cs.map Char.toLower := by
    intro hcs
    rw [lowercaseFrom_of_ascii before hcs, List.map_map]
    exact List.map_congr_left fun c _ => Char.toLower_toLower_eq_toLower c
  constructor
  · intro h
    rw [← hagree (ascii_of_lowercaseFrom (hascii _ h)), h]
  · intro h
    rw [hagree fun c hc => (hascii cs h c hc).1, h]

end BoundSql.Text
