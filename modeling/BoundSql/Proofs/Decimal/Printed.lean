import BoundSql.Decimal.Reader
import BoundSql.Proofs.Text.Digits
import BoundSql.Proofs.Text.Value

/-!
# Printed decimals are read back

The written form of a decimal is read in the plain form, without rounding: its digits are
those of the mantissa behind zeros, and its places are no more than the scale allows. Only
the sign of a zero is lost (`ofText_chars`), which does not change the value.
-/

namespace BoundSql.Decimal

open Text (isDigit_of_mem_paddedDigits)

/-- A decimal without the sign of a zero. -/
def unsignedZero (d : Decimal) : Decimal :=
  { d with negative := d.negative && d.mantissa != 0 }

theorem sameValue_unsignedZero (d : Decimal) : d.unsignedZero.sameValue d = true := by
  have hsigned : d.unsignedZero.signed = d.signed := by
    rw [signed, signed, unsignedZero]
    by_cases hzero : d.mantissa = 0
    · simp [hzero]
    · simp [hzero]
  rw [sameValue, hsigned]
  exact beq_self_eq_true _

/-! ## Digits -/

/-- Digits in front of a point are added to the mantissa as long as it fits. -/
theorem readDigits_whole {ds : List Char} (hne : ds ≠ []) (hdigits : ∀ c ∈ ds, c.isDigit = true)
    {mantissa : Nat} (hlt : Nat.ofDigitChars 10 ds mantissa < mantissaBound) (scale : Nat)
    (digit : Bool) (rest : List Char) :
    readDigits mantissa scale false digit (ds ++ rest) =
      readDigits (Nat.ofDigitChars 10 ds mantissa) scale false true rest := by
  induction ds generalizing mantissa digit with
  | nil => exact absurd rfl hne
  | cons c ds ih =>
      rw [Text.ofDigitChars_step] at hlt ⊢
      have hnext : mantissa * 10 + Text.digitValue c < mantissaBound :=
        Nat.lt_of_le_of_lt (Text.le_ofDigitChars ds _) hlt
      rw [List.cons_append, readDigits, if_pos (hdigits c (by simp))]
      simp only [hnext, if_true, Bool.false_eq_true, false_and, if_false]
      cases ds with
      | nil => rfl
      | cons d ds => exact ih (List.cons_ne_nil _ _) (fun e he => hdigits e (by simp [he])) hlt true

/-- Digits behind a point are places. Where the last of them is reached nothing is left to
round. -/
theorem readDigits_places {ds : List Char} (hdigits : ∀ c ∈ ds, c.isDigit = true)
    {mantissa scale : Nat} (hlt : Nat.ofDigitChars 10 ds mantissa < mantissaBound)
    (hscale : scale + ds.length ≤ maxScale) :
    readDigits mantissa scale true true ds =
      .ok (Nat.ofDigitChars 10 ds mantissa, scale + ds.length) := by
  induction ds generalizing mantissa scale with
  | nil => rfl
  | cons c ds ih =>
      rw [Text.ofDigitChars_step] at hlt ⊢
      rw [List.length_cons] at hscale ⊢
      have hnext : mantissa * 10 + Text.digitValue c < mantissaBound :=
        Nat.lt_of_le_of_lt (Text.le_ofDigitChars ds _) hlt
      rw [readDigits, if_pos (hdigits c (by simp))]
      simp only [hnext, if_true, true_and]
      by_cases hfull : maxScale ≤ scale + 1
      · have hlast : ds = [] := List.length_eq_zero_iff.mp (by omega)
        subst hlast
        have hround : roundingDigit (mantissa * 10 + Text.digitValue c) [] = 0 := by
          simp [roundingDigit]
        simp [roundAt, hround, hfull, hnext]
      · rw [if_neg hfull, ih (fun d hd => hdigits d (by simp [hd])) hlt (by omega)]
        simp only [Except.ok.injEq, Prod.mk.injEq, true_and]
        omega

/-! ## Written forms -/

/-- The digits of a decimal, with at least one in front of the point. -/
def writtenDigits (d : Decimal) : List Char :=
  Text.paddedDigits (d.scale + 1) d.mantissa

/-- The digits in front of the point. -/
def wholeDigits (d : Decimal) : List Char :=
  d.writtenDigits.take (d.writtenDigits.length - d.scale)

/-- The digits behind the point. -/
def placeDigits (d : Decimal) : List Char :=
  d.writtenDigits.drop (d.writtenDigits.length - d.scale)

/-- The written form without its sign. -/
def unsignedChars (d : Decimal) : List Char :=
  if d.scale = 0 then d.wholeDigits else d.wholeDigits ++ '.' :: d.placeDigits

theorem chars_eq (d : Decimal) :
    d.chars = if d.negative then '-' :: d.unsignedChars else d.unsignedChars := rfl

theorem wholeDigits_append (d : Decimal) : d.wholeDigits ++ d.placeDigits = d.writtenDigits :=
  List.take_append_drop _ _

theorem scale_lt_length (d : Decimal) : d.scale < d.writtenDigits.length := by
  rw [writtenDigits, Text.paddedDigits, List.length_leftpad]
  exact Nat.lt_of_lt_of_le (Nat.lt_succ_self _) (Nat.le_max_left _ _)

theorem length_placeDigits (d : Decimal) : d.placeDigits.length = d.scale := by
  have hlength := d.scale_lt_length
  rw [placeDigits, List.length_drop]
  omega

theorem wholeDigits_ne_nil (d : Decimal) : d.wholeDigits ≠ [] := by
  have hlength := d.scale_lt_length
  rw [wholeDigits, ← List.length_pos_iff, List.length_take]
  omega

theorem isDigit_of_mem_wholeDigits {d : Decimal} {c : Char} (h : c ∈ d.wholeDigits) :
    c.isDigit = true :=
  isDigit_of_mem_paddedDigits (List.mem_of_mem_take h)

theorem isDigit_of_mem_placeDigits {d : Decimal} {c : Char} (h : c ∈ d.placeDigits) :
    c.isDigit = true :=
  isDigit_of_mem_paddedDigits (List.mem_of_mem_drop h)

theorem exists_unsignedChars (d : Decimal) :
    ∃ c cs, d.unsignedChars = c :: cs ∧ c.isDigit = true := by
  obtain ⟨c, cs, hcs, hdigit⟩ :=
    Text.exists_cons_of_digits d.wholeDigits_ne_nil fun _ => isDigit_of_mem_wholeDigits
  rw [unsignedChars, hcs]
  split
  · exact ⟨c, cs, rfl, hdigit⟩
  · exact ⟨c, _, rfl, hdigit⟩

/-- All digits together spell the mantissa. -/
theorem ofDigitChars_placeDigits (d : Decimal) :
    Nat.ofDigitChars 10 d.placeDigits (Nat.ofDigitChars 10 d.wholeDigits 0) = d.mantissa := by
  rw [← Nat.ofDigitChars_append, wholeDigits_append]
  exact Text.natOfDigits_paddedDigits _ _

/-- The digits are read back as the mantissa and the scale. -/
theorem readDigits_unsignedChars (d : Decimal) :
    readDigits 0 0 false false d.unsignedChars = .ok (d.mantissa, d.scale) := by
  have hmantissa := d.ofDigitChars_placeDigits
  have hlt : Nat.ofDigitChars 10 d.placeDigits (Nat.ofDigitChars 10 d.wholeDigits 0) <
      mantissaBound := by
    rw [hmantissa]
    exact d.mantissa_lt
  have hwhole : Nat.ofDigitChars 10 d.wholeDigits 0 < mantissaBound :=
    Nat.lt_of_le_of_lt (Text.le_ofDigitChars _ _) hlt
  have hread := readDigits_whole d.wholeDigits_ne_nil (fun _ => isDigit_of_mem_wholeDigits) hwhole
    0 false
  rw [unsignedChars]
  split
  · rename_i hscale
    have hnone : d.placeDigits = [] :=
      List.length_eq_zero_iff.mp (by rw [d.length_placeDigits, hscale])
    rw [hnone] at hmantissa
    have hend := hread []
    rw [List.append_nil] at hend
    rw [hend, hscale, ← hmantissa]
    rfl
  · have hplaces : readDigits (Nat.ofDigitChars 10 d.wholeDigits 0) 0 true true d.placeDigits =
        .ok (_, 0 + d.placeDigits.length) :=
      readDigits_places (fun _ => isDigit_of_mem_placeDigits) hlt
        (by rw [Nat.zero_add, d.length_placeDigits]; exact d.scale_le)
    rw [hmantissa, Nat.zero_add, d.length_placeDigits] at hplaces
    rw [hread, ← hplaces]
    rfl

/-- A written decimal is read back up to the sign of a zero. -/
theorem ofPlain_chars (d : Decimal) : ofPlain d.chars = .ok d.unsignedZero := by
  have hofReading : ∀ negative : Bool, d.negative = negative →
      (readDigits 0 0 false false d.unsignedChars >>= ofReading negative) =
        .ok d.unsignedZero := by
    rintro negative rfl
    rw [readDigits_unsignedChars]
    show ofReading d.negative (d.mantissa, d.scale) = _
    rw [ofReading, ofParts?, dif_pos ⟨d.mantissa_lt, d.scale_le⟩]
    rfl
  rw [chars_eq]
  cases hsign : d.negative with
  | true => exact hofReading true hsign
  | false =>
      obtain ⟨c, cs, hcs, hdigit⟩ := d.exists_unsignedChars
      have hread := hofReading false hsign
      rw [hcs] at hread
      rw [if_neg (by simp), hcs, ofPlain, hread]
      · exact List.cons_ne_nil c cs
      · exact Text.cons_ne_cons_of_isDigit hdigit rfl cs
      · exact Text.cons_ne_cons_of_isDigit hdigit rfl cs

theorem ofText_chars (d : Decimal) : ofText d.chars = .ok d.unsignedZero := by
  rw [ofText, ofPlain_chars]

/-! ## Characters -/

theorem isValueText_unsignedChars (d : Decimal) : Text.IsValueText d.unsignedChars := by
  have hwhole : Text.IsValueText d.wholeDigits :=
    Text.isValueText_of_digits d.wholeDigits_ne_nil fun _ => isDigit_of_mem_wholeDigits
  rw [unsignedChars]
  split
  · exact hwhole
  · rename_i hscale
    have hne : d.placeDigits ≠ [] := by
      rw [← List.length_pos_iff, d.length_placeDigits]
      omega
    have hplaces : Text.IsValueText d.placeDigits :=
      Text.isValueText_of_digits hne fun _ => isDigit_of_mem_placeDigits
    exact hwhole.join hplaces rfl

theorem isValueText_chars (d : Decimal) : Text.IsValueText d.chars := by
  rw [chars_eq]
  split
  · exact d.isValueText_unsignedChars.cons rfl (by decide)
  · exact d.isValueText_unsignedChars

end BoundSql.Decimal
