import BoundSql.Text.Integer
import Mathlib.Algebra.Group.Nat.Defs
import Mathlib.Data.List.Basic

/-!
# Runs of digits

What readers need to know of printed numbers: a run of digits is taken whole in front of
anything but a digit and does not start with a sign, a printed number starts with a zero only
if it is zero, padding keeps the number, and a printed sixty-four bit integer is read back.
-/

namespace BoundSql.Text

/-- A run of digits in front of anything but a digit. -/
theorem spanDigits_run {ds rest : List Char} (hdigits : ∀ c ∈ ds, c.isDigit = true)
    (hstop : ∀ c ∈ rest.head?, c.isDigit = false) : spanDigits (ds ++ rest) = (ds, rest) := by
  have hrest : rest.takeWhile Char.isDigit = [] ∧ rest.dropWhile Char.isDigit = rest := by
    cases rest with
    | nil => exact ⟨rfl, rfl⟩
    | cons c rest => simp [hstop c rfl]
  rw [spanDigits, List.takeWhile_append_of_pos hdigits, List.dropWhile_append_of_pos hdigits,
    hrest.1, hrest.2, List.append_nil]

/-- The first digit of a run. -/
theorem exists_cons_of_digits {ds : List Char} (hne : ds ≠ [])
    (hdigits : ∀ c ∈ ds, c.isDigit = true) : ∃ c cs, ds = c :: cs ∧ c.isDigit = true := by
  obtain ⟨c, cs, rfl⟩ := List.exists_cons_of_ne_nil hne
  exact ⟨c, cs, rfl, hdigits c (List.mem_cons_self ..)⟩

/-- A text that starts with a digit does not start with a sign. -/
theorem cons_ne_cons_of_isDigit {c sign : Char} (hc : c.isDigit = true)
    (hsign : sign.isDigit = false) (cs tail : List Char) : c :: cs ≠ sign :: tail := by
  intro heq
  obtain ⟨rfl, -⟩ := List.cons.inj heq
  exact absurd hc (by simp [hsign])

/-- The digits of a number that is not zero do not start with a zero. -/
theorem head?_digits {n : Nat} (h : n ≠ 0) : (digits n).head? ≠ some '0' := by
  induction n using Nat.strongRecOn with
  | ind n ih =>
      rw [digits, Nat.toDigits_eq_if (by decide)]
      split
      · rename_i hlt
        have hdigit : ∀ m < 10, m ≠ 0 → Nat.digitChar m ≠ '0' := by decide
        simpa using hdigit n hlt h
      · rename_i hge
        have hrest := ih (n / 10) (by omega) (by omega)
        rw [digits] at hrest
        rwa [List.head?_append_of_ne_nil _ Nat.toDigits_ne_nil]

theorem exists_digits (n : Nat) : ∃ c cs, digits n = c :: cs ∧ c.isDigit = true :=
  exists_cons_of_digits (digits_ne_nil n) fun _ => isDigit_of_mem_digits

/-! ## Padding -/

theorem isDigit_of_mem_paddedDigits {width n : Nat} {c : Char} (h : c ∈ paddedDigits width n) :
    c.isDigit = true := by
  rcases List.mem_append.mp h with h | h
  · rw [List.eq_of_mem_replicate h]
    rfl
  · exact isDigit_of_mem_digits h

theorem paddedDigits_ne_nil (width n : Nat) : paddedDigits width n ≠ [] := by
  rw [paddedDigits, List.leftpad]
  exact List.append_ne_nil_of_right_ne_nil _ (digits_ne_nil n)

theorem natOfDigits_append (a b : List Char) :
    natOfDigits (a ++ b) = Nat.ofDigitChars 10 b (natOfDigits a) :=
  Nat.ofDigitChars_append 0

@[simp] theorem natOfDigits_paddedDigits (width n : Nat) :
    natOfDigits (paddedDigits width n) = n := by
  rw [paddedDigits, List.leftpad, natOfDigits_append, natOfDigits, Nat.ofDigitChars_replicate_zero]
  exact natOfDigits_digits n

theorem length_digits_le {n width : Nat} (hwidth : 0 < width) (h : n < 10 ^ width) :
    (digits n).length ≤ width :=
  (Nat.length_toDigits_le_iff (by decide) hwidth).mpr h

theorem length_paddedDigits {n width : Nat} (hwidth : 0 < width) (h : n < 10 ^ width) :
    (paddedDigits width n).length = width := by
  rw [paddedDigits, List.length_leftpad]
  exact Nat.max_eq_left (length_digits_le hwidth h)

/-! ## Integers -/

/-- Reading one more digit. -/
theorem ofDigitChars_step (c : Char) (cs : List Char) (value : Nat) :
    Nat.ofDigitChars 10 (c :: cs) value = Nat.ofDigitChars 10 cs (value * 10 + digitValue c) := by
  rw [Nat.ofDigitChars_cons, Nat.mul_comm]
  rfl

theorem le_ofDigitChars (ds : List Char) (value : Nat) : value ≤ Nat.ofDigitChars 10 ds value := by
  induction ds generalizing value with
  | nil => exact Nat.le_refl value
  | cons c ds ih =>
      rw [ofDigitChars_step]
      refine Nat.le_trans ?_ (ih _)
      omega

/-- Digits whose number is within the limit are read as that number. -/
theorem readMagnitude_of_le {limit : Nat} (overflow : IntegerFault) {value : Nat} {ds : List Char}
    (hdigits : ∀ c ∈ ds, c.isDigit = true) (hle : Nat.ofDigitChars 10 ds value ≤ limit) :
    readMagnitude limit overflow value ds = .ok (Nat.ofDigitChars 10 ds value) := by
  induction ds generalizing value with
  | nil => rfl
  | cons c ds ih =>
      rw [ofDigitChars_step] at hle ⊢
      rw [readMagnitude, if_pos (hdigits c (by simp))]
      exact (if_pos (Nat.le_trans (le_ofDigitChars ds _) hle)).trans
        (ih (fun d hd => hdigits d (by simp [hd])) hle)

theorem readDigits_digits {limit n : Nat} (overflow : IntegerFault) (h : n ≤ limit) :
    readDigits limit overflow (digits n) = .ok n := by
  have hread : readMagnitude limit overflow 0 (digits n) = .ok n := by
    have hvalue : Nat.ofDigitChars 10 (digits n) 0 = n := natOfDigits_digits n
    rw [readMagnitude_of_le overflow (fun _ => isDigit_of_mem_digits) (by rwa [hvalue]), hvalue]
  rw [readDigits]
  · exact hread
  · exact digits_ne_nil n

/-- A printed integer of sixty-four bits is read back. -/
theorem readInt64_signedDigits (n : Int64) : readInt64 (signedDigits n.toInt) = .ok n := by
  have hlower := n.minValue_le_toInt
  have hupper := n.toInt_le
  have hback : Int64.ofInt n.toInt = n := Int64.ofInt_toInt n
  have hmax : Int64.maxValue.toInt = (UInt64.size / 2 - 1 : Nat) := rfl
  have hmin : Int64.minValue.toInt = -(UInt64.size / 2 : Nat) := rfl
  cases h : n.toInt with
  | ofNat m =>
      have hread : readDigits (UInt64.size / 2 - 1) .tooLarge (digits m) = .ok m :=
        readDigits_digits .tooLarge (by rw [h, hmax] at hupper; exact Int.ofNat_le.mp hupper)
      obtain ⟨c, cs, hcs, hc⟩ := exists_digits m
      rw [hcs] at hread
      rw [signedDigits, hcs, readInt64, hread]
      · rw [← hback, h]
        rfl
      · exact List.cons_ne_nil c cs
      · exact cons_ne_cons_of_isDigit hc rfl cs
      · exact cons_ne_cons_of_isDigit hc rfl cs
  | negSucc m =>
      have hread : readDigits (UInt64.size / 2) .tooSmall (digits (m + 1)) = .ok (m + 1) :=
        readDigits_digits .tooSmall (by omega)
      rw [signedDigits, readInt64, hread, ← hback, h]
      rfl

end BoundSql.Text
