import BoundSql.Backend
import BoundSql.Calendar.Reader
import BoundSql.Proofs.Text.Digits
import BoundSql.Proofs.Text.Value

/-!
# Printed dates and timestamps are read back

A date is read back whatever its year. A timestamp is read back with the digits that were
written, so truncated to the places of its layout (`Timestamp.truncate`), a leap second as a
leap second. A second other than the last of its minute that is carried past its nanoseconds
is written as the second behind it (`Timestamp.settled`), and that second is what is read.

The patterns differ in how they take numbers and in what stands between date and time, not in
their fields. `dateItems` and `timeItems` are what they share, and `Pads` is what is asked of
a way to take numbers. A text without an offset fits none of the patterns that end in one,
and the first of those that do not is the pattern it was written for
(`readTimestamp?_chars`).
-/

namespace BoundSql

namespace Timestamp

/-- A timestamp without the digits behind the first `places` of its fraction. -/
def truncate (t : Timestamp) (places : Nat) : Timestamp where
  date := t.date
  second := t.second
  nanos := t.nanos / Nat.pow 10 (9 - places) * Nat.pow 10 (9 - places)
  isTime := ⟨t.isTime.1, Nat.lt_of_le_of_lt (Nat.div_mul_le_self _ _) t.isTime.2⟩

/-- Only the last second of a minute is carried past its nanoseconds. -/
def Settled (t : Timestamp) : Prop :=
  t.nanos < Calendar.secondNanos ∨ t.second % 60 = 59

instance (t : Timestamp) : Decidable t.Settled := by
  unfold Settled
  infer_instance

/-- The instant that is written for a timestamp: nanoseconds past a second that is not the
last of its minute count towards the next one. -/
def settled (t : Timestamp) : Timestamp :=
  if h : t.Settled then t
  else
    { date := t.date
      second := t.second + 1
      nanos := t.nanos - Calendar.secondNanos
      isTime := by
        obtain ⟨hday, hnanos⟩ := t.isTime
        obtain ⟨-, hlast⟩ := not_or.mp h
        rw [Calendar.daySeconds] at hday
        exact ⟨show t.second + 1 < 86400 by omega, by omega⟩ }

variable {t : Timestamp}

theorem Settled.settled_eq (h : t.Settled) : t.settled = t :=
  dif_pos h

theorem settled_of_not (h : ¬ t.Settled) :
    t.settled.date = t.date ∧ t.settled.second = t.second + 1 ∧
      t.settled.nanos + Calendar.secondNanos = t.nanos := by
  have hpast : Calendar.secondNanos ≤ t.nanos := Nat.not_lt.mp (not_or.mp h).1
  simp only [settled, dif_neg h, true_and]
  omega

theorem isSettled_settled (t : Timestamp) : t.settled.Settled := by
  by_cases h : t.Settled
  · rwa [h.settled_eq]
  · obtain ⟨-, -, hnanos⟩ := settled_of_not h
    have hbound := t.isTime.2
    exact Or.inl (by omega)

theorem date_settled (t : Timestamp) : t.settled.date = t.date := by
  by_cases h : t.Settled
  · rw [h.settled_eq]
  · exact (settled_of_not h).1

theorem fraction_settled (t : Timestamp) : t.settled.fraction = t.fraction := by
  by_cases h : t.Settled
  · rw [h.settled_eq]
  · rw [fraction, fraction, ← (settled_of_not h).2.2, Nat.add_mod_right]

theorem clockText_settled (t : Timestamp) : t.settled.clockText = t.clockText := by
  by_cases h : t.Settled
  · rw [h.settled_eq]
  · obtain ⟨-, hsecond, hnanos⟩ := settled_of_not h
    obtain ⟨hpast, hlast⟩ := not_or.mp h
    have hbound := t.isTime.2
    rw [Calendar.secondNanos] at hnanos hpast hbound
    -- the second has room for one more within its minute
    have hparts : (t.second + 1) / 3600 = t.second / 3600 ∧
        (t.second + 1) / 60 % 60 = t.second / 60 % 60 ∧
        (t.second + 1) % 60 + t.settled.nanos / 1000000000 =
          t.second % 60 + t.nanos / 1000000000 := by
      omega
    simp only [clockText, hsecond, Calendar.secondNanos, hparts]

end Timestamp

namespace Calendar

open Text (paddedDigits isDigit_of_mem_paddedDigits isBlank_of_isDigit)

/-! ## Numbers -/

/-- A rest that a number does not run on into. -/
def Stops (rest : List Char) : Prop :=
  ∀ c ∈ rest.head?, c.isDigit = false

theorem stops_nil : Stops [] := by
  rintro c ⟨⟩

theorem stops_cons {c : Char} (h : c.isDigit = false) (rest : List Char) : Stops (c :: rest) := by
  rintro d ⟨⟩
  exact h

theorem takeWhile_digits {ds rest : List Char} (hdigits : ∀ c ∈ ds, c.isDigit = true)
    (hrest : Stops rest) : (ds ++ rest).takeWhile Char.isDigit = ds :=
  congrArg Prod.fst (Text.spanDigits_run hdigits hrest)

/-- A run of digits of an admitted length is taken whole. -/
theorem takeNumber_digits {least : Nat} {most : Option Nat} {ds rest : List Char}
    (hdigits : ∀ c ∈ ds, c.isDigit = true) (hleast : least ≤ ds.length)
    (hmost : ∀ n ∈ most, ds.length ≤ n) (hlt : Text.natOfDigits ds < UInt64.size / 2)
    (hrest : Stops rest) :
    takeNumber least most (ds ++ rest) = .ok (Text.natOfDigits ds, rest) := by
  have hrun := takeWhile_digits hdigits hrest
  have hlength : ¬ ds.length < least := by omega
  cases most with
  | none => simp only [takeNumber, hrun, hlength, hlt, if_true, if_false, List.drop_left]
  | some n =>
      have htake : ds.take n = ds := List.take_of_length_le (hmost n rfl)
      simp only [takeNumber, hrun, htake, hlength, hlt, if_true, if_false, List.drop_left]

/-- A number with as many digits as its part has. -/
theorem takeNumber_padded {part : Part} {n : Nat} (hn : n < 10 ^ part.width) {rest : List Char}
    (hrest : Stops rest) {least : Nat} (hleast : least ≤ part.width) :
    takeNumber least (some part.width) (paddedDigits part.width n ++ rest) = .ok (n, rest) := by
  have hwidth : 0 < part.width ∧ part.width ≤ 4 := by cases part <;> decide
  have hlength := Text.length_paddedDigits hwidth.1 hn
  have hbound : n < UInt64.size / 2 := by
    refine Nat.lt_trans (Nat.lt_of_lt_of_le hn (Nat.pow_le_pow_right (by decide) hwidth.2)) ?_
    decide
  have hread : takeNumber least (some part.width) (paddedDigits part.width n ++ rest) =
      .ok (Text.natOfDigits (paddedDigits part.width n), rest) :=
    takeNumber_digits (fun _ => isDigit_of_mem_paddedDigits) (by omega)
      (by rintro m ⟨⟩; omega) (by rwa [Text.natOfDigits_paddedDigits]) hrest
  rwa [Text.natOfDigits_paddedDigits] at hread

theorem takeNumber_of_not_digit {c : Char} (h : c.isDigit = false) (cs : List Char) :
    ∃ fault, takeNumber 4 (some 4) (c :: cs) = .error fault := by
  have hrun : (c :: cs).takeWhile Char.isDigit = [] := by simp [h]
  simp only [takeNumber, hrun, List.take_nil, List.length_nil]
  rw [if_pos (by decide)]
  split <;> exact ⟨_, rfl⟩

/-- The first character of a padded number. -/
theorem exists_paddedDigits (width n : Nat) :
    ∃ c cs, paddedDigits width n = c :: cs ∧ c.isDigit = true :=
  Text.exists_cons_of_digits (Text.paddedDigits_ne_nil width n) fun _ =>
    isDigit_of_mem_paddedDigits

/-! ## Items -/

/-- An item that takes its piece of the text leaves the rest to the next item. -/
theorem readItems_cons {item : Item} {f g : Fields} {cs rest : List Char}
    (h : item.take f cs = .ok (g, rest)) (items : List Item) :
    readItems (item :: items) f cs = readItems items g rest := by
  rw [readItems, h]
  rfl

theorem readItems_cons_error {item : Item} {f : Fields} {cs : List Char} {fault : ReadingFault}
    (h : item.take f cs = .error fault) (items : List Item) :
    readItems (item :: items) f cs = .error fault := by
  rw [readItems, h]
  rfl

theorem take_mark (c : Char) (f : Fields) (rest : List Char) :
    (Item.mark c).take f (c :: rest) = .ok (f, rest) := by
  simp [Item.take, takeMark]

/-- A number of a part, if the part has room for it. -/
theorem take_number {part : Part} {n : Int} {f g : Fields} {cs rest : List Char}
    (hblank : ∀ c ∈ cs.head?, Text.isBlank c = false) (hpart : takePart part cs = .ok (n, rest))
    (hset : f.set part n = .ok g) : (Item.number part).take f cs = .ok (g, rest) := by
  rw [Item.take, Text.trimLeft_of_head hblank, hpart]
  show (f.set part n >>= fun g => Except.ok (g, rest)) = _
  rw [hset]
  rfl

/-- A way to take numbers that takes them as they are padded. -/
def Pads (item : Part → Item) : Prop :=
  ∀ {part : Part} {n : Nat} {f g : Fields} {rest : List Char}, n < 10 ^ part.width →
    f.set part n = .ok g → Stops rest →
    (item part).take f (paddedDigits part.width n ++ rest) = .ok (g, rest)

theorem takePart_padded {part : Part} {n : Nat} (hn : n < 10 ^ part.width) {rest : List Char}
    (hrest : Stops rest) :
    takePart part (paddedDigits part.width n ++ rest) = .ok ((n : Int), rest) := by
  have hwidth : 1 ≤ part.width := by cases part <;> decide
  have hread := takeNumber_padded hn hrest hwidth
  obtain ⟨c, cs, hcs, hdigit⟩ := exists_paddedDigits part.width n
  rw [hcs, List.cons_append] at hread ⊢
  rw [takePart, hread]
  · rfl
  · exact fun tail _ => Text.cons_ne_cons_of_isDigit hdigit rfl (cs ++ rest) tail
  · exact fun tail _ => Text.cons_ne_cons_of_isDigit hdigit rfl (cs ++ rest) tail

theorem pads_number : Pads .number := by
  intro part n f g rest hn hset hrest
  refine take_number ?_ (takePart_padded hn hrest) hset
  obtain ⟨c, cs, hcs, hdigit⟩ := exists_paddedDigits part.width n
  rw [hcs]
  rintro d ⟨⟩
  exact isBlank_of_isDigit hdigit

theorem pads_fixed : Pads fun part => .fixed part part.width := by
  intro part n f g rest hn hset hrest
  rw [Item.take, takeNumber_padded hn hrest (Nat.le_refl _)]
  show (f.set part n >>= fun g => Except.ok (g, rest)) = _
  rw [hset]
  rfl

/-- A year, with its sign if it has one. -/
theorem takePart_year {year : Int} (hyear : year.natAbs < UInt64.size / 2) {rest : List Char}
    (hrest : Stops rest) : takePart .year (Date.yearText year ++ rest) = .ok (year, rest) := by
  rw [Date.yearText]
  split
  · rename_i hshort
    have hn : year.natAbs < 10 ^ Part.year.width := by
      show year.natAbs < 10000
      omega
    have hread := takePart_padded hn hrest
    have hcast : (year.natAbs : Int) = year := by omega
    rwa [hcast] at hread
  · have hread : takeNumber 1 none (paddedDigits 4 year.natAbs ++ rest) =
        .ok (Text.natOfDigits (paddedDigits 4 year.natAbs), rest) :=
      takeNumber_digits (fun _ => isDigit_of_mem_paddedDigits)
        (List.length_pos_iff.mpr (Text.paddedDigits_ne_nil _ _)) (by rintro n ⟨⟩)
        (by rwa [Text.natOfDigits_paddedDigits]) hrest
    rw [Text.natOfDigits_paddedDigits] at hread
    split
    · rename_i hneg
      have hcast : -(year.natAbs : Int) = year := by omega
      rw [List.cons_append, takePart, hread]
      exact congrArg (fun n => Except.ok (n, rest)) hcast
    · rename_i hlong hneg
      have hcast : (year.natAbs : Int) = year := by omega
      rw [List.cons_append, takePart, hread]
      exact congrArg (fun n => Except.ok (n, rest)) hcast

/-! ## Dates -/

/-- Items that take nothing in front of anything but a blank. -/
def Idle (gap : List Item) : Prop :=
  ∀ {f : Fields} {c : Char} {cs : List Char} (items : List Item), Text.isBlank c = false →
    readItems (gap ++ items) f (c :: cs) = readItems items f (c :: cs)

theorem idle_nil : Idle [] := fun _ _ => rfl

theorem idle_blanks : Idle [.blanks] := by
  intro f c cs items hc
  have htrim : Text.trimLeft (c :: cs) = c :: cs := Text.trimLeft_of_head (by simpa using hc)
  have htake : Item.blanks.take f (c :: cs) = .ok (f, c :: cs) :=
    congrArg (fun rest => Except.ok (f, rest)) htrim
  exact readItems_cons htake items

/-- The items of a date, given how numbers are taken and what may stand behind them. -/
def dateItems (gap : List Item) (item : Part → Item) : List Item :=
  item .year :: (gap ++ .mark '-' :: item .month :: (gap ++ [.mark '-', item .day]))

theorem IsDay.bounds {year : Int} {month day : Nat} (h : IsDay year month day) :
    1 ≤ month ∧ month ≤ 12 ∧ 1 ≤ day ∧ day ≤ 31 := by
  obtain ⟨-, -, hfirst, hlast⟩ := h
  unfold daysInMonth at hlast
  repeat' split at hlast
  all_goals omega

theorem set_year {year : Int} (h : minYear ≤ year ∧ year ≤ maxYear) (f : Fields) :
    f.set .year year = .ok { f with year := year } := by
  have hmin : Int32.minValue.toInt ≤ minYear := by decide
  have hmax : maxYear ≤ Int32.maxValue.toInt := by decide
  exact if_pos ⟨Int.le_trans hmin h.1, Int.le_trans h.2 hmax⟩

/-- A year is taken with its sign, as many digits as it may have. -/
theorem take_year (d : Date) (f : Fields) {rest : List Char} (hrest : Stops rest) :
    (Item.number .year).take f (Date.yearText d.year ++ rest) =
      .ok ({ f with year := d.year }, rest) := by
  obtain ⟨hmin, hmax, -⟩ := d.isDay
  have hyear : d.year.natAbs < UInt64.size / 2 := by
    have hbound : d.year.natAbs ≤ 262143 := by
      rw [minYear] at hmin
      rw [maxYear] at hmax
      omega
    exact Nat.lt_of_le_of_lt hbound (by decide)
  refine take_number ?_ (takePart_year hyear hrest) (set_year ⟨hmin, hmax⟩ f)
  obtain ⟨c, cs, hcs, hdigit⟩ := exists_paddedDigits 4 d.year.natAbs
  rw [Date.yearText]
  split
  · rw [hcs]
    rintro e ⟨⟩
    exact isBlank_of_isDigit hdigit
  · split <;> (rintro e ⟨⟩; rfl)

/-- The parts of a date behind its year, in either way to take numbers. -/
theorem readItems_date {gap : List Item} (hgap : Idle gap) {item : Part → Item}
    (hpads : Pads item) (d : Date) {f : Fields}
    (hyear : ∀ {rest}, Stops rest →
      (item .year).take f (Date.yearText d.year ++ rest) = .ok ({ f with year := d.year }, rest))
    {rest : List Char} (hrest : Stops rest) (items : List Item) :
    readItems (dateItems gap item ++ items) f (d.chars ++ rest) =
      readItems items { f with year := d.year, month := d.month, day := d.day } rest := by
  obtain ⟨hmonthLow, hmonthHigh, hdayLow, hdayHigh⟩ := d.isDay.bounds
  have hchars : d.chars ++ rest = Date.yearText d.year ++
      '-' :: (paddedDigits 2 d.month ++ '-' :: (paddedDigits 2 d.day ++ rest)) := by
    simp [Date.chars]
  have hitems : dateItems gap item ++ items =
      item .year :: (gap ++ .mark '-' :: item .month ::
        (gap ++ .mark '-' :: item .day :: items)) := by
    simp [dateItems]
  have hmonth : (item .month).take { f with year := d.year }
      (paddedDigits 2 d.month ++ '-' :: (paddedDigits 2 d.day ++ rest)) =
        .ok ({ f with year := d.year, month := d.month }, '-' :: (paddedDigits 2 d.day ++ rest)) :=
    hpads (show d.month < 100 by omega) (if_pos (by omega)) (stops_cons rfl _)
  have hday : (item .day).take { f with year := d.year, month := d.month }
      (paddedDigits 2 d.day ++ rest) =
        .ok ({ f with year := d.year, month := d.month, day := d.day }, rest) :=
    hpads (show d.day < 100 by omega) (if_pos (by omega)) hrest
  rw [hchars, hitems, readItems_cons (hyear (stops_cons rfl _)), hgap _ rfl,
    readItems_cons (take_mark ..), readItems_cons hmonth, hgap _ rfl,
    readItems_cons (take_mark ..), readItems_cons hday]

/-- The date of its parts. -/
theorem Fields.date_of_parts (d : Date) {f : Fields} (hyear : f.year = d.year)
    (hmonth : f.month = d.month) (hday : f.day = d.day) : f.date = .ok d := by
  have hparts : Date.ofParts? f.year f.month f.day = some d := by
    rw [hyear, hmonth, hday, Date.ofParts?, dif_pos d.isDay]
  rw [Fields.date, hparts]

/-- A written date is read back. -/
theorem readDate_chars (d : Date) : readDate d.chars = .ok d := by
  have hread : readItems lenientDate {} d.chars =
      .ok { year := d.year, month := d.month, day := d.day } := by
    have hitems := readItems_date idle_nil pads_number d (f := {}) (take_year d _) stops_nil []
    rw [List.append_nil, List.append_nil] at hitems
    exact hitems
  rw [readDate, hread]
  exact Fields.date_of_parts d rfl rfl rfl

/-- A date that was stored is read back. -/
theorem readStoredDate?_chars (d : Date) : readStoredDate? d.chars = some d := by
  have hread : readItems (storedDate ++ [.blanks]) {} d.chars =
      .ok { year := d.year, month := d.month, day := d.day } := by
    have hitems := readItems_date idle_blanks pads_number d (f := {}) (take_year d _) stops_nil
      [.blanks]
    rw [List.append_nil] at hitems
    exact hitems
  have hdate : Fields.date { year := d.year, month := d.month, day := d.day } = .ok d :=
    Fields.date_of_parts d rfl rfl rfl
  rw [readStoredDate?, hread]
  exact congrArg Except.toOption hdate

/-! ## Times -/

/-- The items of a time, given how numbers are taken and what may stand behind them. -/
def timeItems (gap : List Item) (item : Part → Item) : List Item :=
  item .hour :: (gap ++ .mark ':' :: item .minute :: (gap ++ [.mark ':', item .second, .fraction]))

/-- The nanoseconds that the first `places` digits of the fraction spell. -/
def writtenNanos (t : Timestamp) (places : Nat) : Nat :=
  t.fraction / Nat.pow 10 (9 - places) * Nat.pow 10 (9 - places)

/-- Digits of a fraction of at most nine places. -/
theorem take_fraction (t : Timestamp) {places : Nat} (hpos : 0 < places) (hplaces : places ≤ 9)
    (f : Fields) {rest : List Char} (hrest : Stops rest) :
    Item.fraction.take f (t.fractionText places ++ rest) =
      .ok ({ f with nanos := writtenNanos t places }, rest) := by
  have hlt : t.fraction / Nat.pow 10 (9 - places) < 10 ^ places := by
    have hsecond : 10 ^ (9 - places) * 10 ^ places = secondNanos := by
      rw [← Nat.pow_add, Nat.sub_add_cancel hplaces]
      rfl
    refine Nat.div_lt_of_lt_mul ?_
    show t.fraction < 10 ^ (9 - places) * 10 ^ places
    rw [hsecond]
    exact Nat.mod_lt _ (by decide)
  have hlength := Text.length_paddedDigits hpos hlt
  have hrun : (paddedDigits places (t.fraction / Nat.pow 10 (9 - places)) ++ rest).takeWhile
      Char.isDigit = paddedDigits places (t.fraction / Nat.pow 10 (9 - places)) :=
    takeWhile_digits (fun _ => isDigit_of_mem_paddedDigits) hrest
  have htake : takeFraction (t.fractionText places ++ rest) =
      .ok (some (writtenNanos t places), rest) := by
    rw [Timestamp.fractionText, List.cons_append, takeFraction]
    simp only [hrun, List.isEmpty_eq_false_iff.mpr (Text.paddedDigits_ne_nil _ _),
      Bool.false_eq_true, if_false, List.drop_left]
    rw [List.take_of_length_le (by omega), Text.natOfDigits_paddedDigits, hlength]
    rfl
  rw [Item.take, htake]
  rfl

/-- The parts of a time that are written as numbers fit into two digits. -/
theorem clock_bounds (t : Timestamp) :
    t.second / 3600 ≤ 23 ∧ t.second / 60 % 60 ≤ 59 ∧
      t.second % 60 + t.nanos / secondNanos ≤ 60 := by
  obtain ⟨hday, hnanos⟩ := t.isTime
  rw [daySeconds] at hday
  rw [secondNanos] at hnanos ⊢
  omega

/-- The fraction with no more digits than it needs. -/
theorem take_exactFraction (t : Timestamp) (f : Fields) {rest : List Char} (hrest : Stops rest)
    (hpoint : rest.head? ≠ some '.') :
    Item.fraction.take f (t.exactFraction ++ rest) =
      .ok ({ f with nanos := t.fraction }, rest) := by
  have hplaces : ∀ {places}, 0 < places → places ≤ 9 → t.fraction % 10 ^ (9 - places) = 0 →
      Item.fraction.take f (t.fractionText places ++ rest) =
        .ok ({ f with nanos := t.fraction }, rest) := by
    intro places hpos hle hdvd
    have hwritten : writtenNanos t places = t.fraction :=
      Nat.div_mul_cancel (Nat.dvd_of_mod_eq_zero hdvd)
    rw [take_fraction t hpos hle f hrest, hwritten]
  rw [Timestamp.exactFraction]
  split
  · rename_i hzero
    have hnone : takeFraction rest = .ok (none, rest) := by
      rw [takeFraction]
      intro tail htail
      rw [htail] at hpoint
      exact hpoint rfl
    rw [List.nil_append, Item.take, hnone, hzero]
    rfl
  split
  · exact hplaces (by decide) (by decide) ‹_›
  split
  · exact hplaces (by decide) (by decide) ‹_›
  · exact hplaces (by decide) (by decide) (Nat.mod_one _)

/-- The parts of a time up to its fraction, in either way to take numbers. -/
theorem readItems_time {gap : List Item} (hgap : Idle gap) {item : Part → Item}
    (hpads : Pads item) (t : Timestamp) (f : Fields) {tail rest : List Char} (htail : Stops tail)
    {nanos : Nat} (hfraction : ∀ g, Item.fraction.take g tail = .ok ({ g with nanos }, rest))
    (items : List Item) :
    readItems (timeItems gap item ++ items) f (t.clockText ++ tail) =
      readItems items
        { f with
          hour := t.second / 3600
          minute := t.second / 60 % 60
          second := t.second % 60 + t.nanos / secondNanos
          nanos } rest := by
  obtain ⟨hhour, hminute, hsecond⟩ := clock_bounds t
  have hchars : t.clockText ++ tail = paddedDigits 2 (t.second / 3600) ++
      ':' :: (paddedDigits 2 (t.second / 60 % 60) ++ ':' ::
        (paddedDigits 2 (t.second % 60 + t.nanos / secondNanos) ++ tail)) := by
    simp [Timestamp.clockText]
  have hitems : timeItems gap item ++ items = item .hour :: (gap ++ .mark ':' :: item .minute ::
      (gap ++ .mark ':' :: item .second :: .fraction :: items)) := by
    simp [timeItems]
  have htakeHour : ∀ tail, (item .hour).take f (paddedDigits 2 (t.second / 3600) ++ ':' :: tail) =
      .ok ({ f with hour := t.second / 3600 }, ':' :: tail) := fun tail =>
    hpads (show t.second / 3600 < 100 by omega) (if_pos (by omega)) (stops_cons rfl _)
  have htakeMinute : ∀ g : Fields, ∀ tail,
      (item .minute).take g (paddedDigits 2 (t.second / 60 % 60) ++ ':' :: tail) =
        .ok ({ g with minute := t.second / 60 % 60 }, ':' :: tail) := fun g tail =>
    hpads (show t.second / 60 % 60 < 100 by omega) (if_pos (by omega)) (stops_cons rfl _)
  have htakeSecond : ∀ g : Fields, (item .second).take g
      (paddedDigits 2 (t.second % 60 + t.nanos / secondNanos) ++ tail) =
        .ok ({ g with second := t.second % 60 + t.nanos / secondNanos }, tail) := fun g =>
    hpads (show t.second % 60 + t.nanos / secondNanos < 100 by omega)
      (if_pos ⟨Int.natCast_nonneg _, Int.ofNat_le.mpr hsecond⟩) htail
  rw [hchars, hitems, readItems_cons (htakeHour _), hgap _ rfl, readItems_cons (take_mark ..),
    readItems_cons (htakeMinute _ _), hgap _ rfl, readItems_cons (take_mark ..),
    readItems_cons (htakeSecond _), readItems_cons (hfraction _)]

/-- A fraction begins with a point, so no number runs on into it. -/
theorem stops_fractionText (t : Timestamp) (places : Nat) (rest : List Char) :
    Stops (t.fractionText places ++ rest) :=
  stops_cons rfl _

/-! ## Timestamps -/

/-- The fields of a timestamp as it is written with `places` digits of its fraction. -/
def fieldsOf (t : Timestamp) (places : Nat) : Fields where
  year := t.date.year
  month := t.date.month
  day := t.date.day
  hour := t.second / 3600
  minute := t.second / 60 % 60
  second := t.second % 60 + t.nanos / secondNanos
  nanos := writtenNanos t places

/-- Written digits and those of a leap second are the nanoseconds up to the places. -/
theorem writtenNanos_eq (t : Timestamp) {places : Nat} (hplaces : places ≤ 9) :
    writtenNanos t places + t.nanos / secondNanos * secondNanos = (t.truncate places).nanos := by
  have hsecond : Nat.pow 10 (9 - places) * 10 ^ places = secondNanos := by
    show 10 ^ (9 - places) * 10 ^ places = secondNanos
    rw [← Nat.pow_add, Nat.sub_add_cancel hplaces]
    rfl
  have hpos : 0 < Nat.pow 10 (9 - places) := Nat.pow_pos (by decide)
  have hnanos : t.nanos = t.nanos % secondNanos +
      Nat.pow 10 (9 - places) * (10 ^ places * (t.nanos / secondNanos)) := by
    rw [← Nat.mul_assoc, hsecond, Nat.mod_add_div]
  have hleap : 10 ^ places * (t.nanos / secondNanos) * Nat.pow 10 (9 - places) =
      t.nanos / secondNanos * secondNanos := by
    rw [Nat.mul_right_comm, Nat.mul_comm (10 ^ places), hsecond, Nat.mul_comm]
  show t.nanos % secondNanos / _ * _ + _ = t.nanos / Nat.pow 10 (9 - places) * _
  conv_rhs => rw [hnanos, Nat.add_mul_div_left _ _ hpos, Nat.add_mul, hleap]

theorem ofLocal?_utc (t : Timestamp) :
    Timestamp.ofLocal? t.date t.second t.nanos 0 = some t := by
  have hday : ¬ (daySeconds : Int) ≤ t.second := by
    rw [Int.ofNat_le, Nat.not_le]
    exact t.isTime.1
  simp only [Timestamp.ofLocal?, Int.sub_zero, Int.toNat_natCast]
  rw [if_neg (by omega), if_neg hday, Timestamp.ofParts?, dif_pos t.isTime]

/-- Second and nanoseconds are found again, those of a leap second from second sixty. -/
theorem clock_fieldsOf {t : Timestamp} (ht : t.Settled) {places : Nat} (hplaces : places ≤ 9) :
    let f := fieldsOf t places
    (f.hour * 3600 + f.minute * 60 + if f.second = 60 then 59 else f.second) = t.second ∧
      (if f.second = 60 then f.nanos + secondNanos else f.nanos) = (t.truncate places).nanos := by
  have hnanos := writtenNanos_eq t hplaces
  show (t.second / 3600 * 3600 + t.second / 60 % 60 * 60 +
      if t.second % 60 + t.nanos / secondNanos = 60 then 59
        else t.second % 60 + t.nanos / secondNanos) = t.second ∧
    (if t.second % 60 + t.nanos / secondNanos = 60 then writtenNanos t places + secondNanos
      else writtenNanos t places) = _
  rcases Nat.lt_or_ge t.nanos secondNanos with hplain | hleap
  · have hzero : t.nanos / secondNanos = 0 := Nat.div_eq_of_lt hplain
    rw [hzero] at hnanos ⊢
    rw [if_neg (by omega), if_neg (by omega)]
    omega
  · have hlast : t.second % 60 = 59 := ht.resolve_left (Nat.not_lt.mpr hleap)
    have hone : t.nanos / secondNanos = 1 :=
      Nat.div_eq_of_lt_le (by rwa [Nat.one_mul]) t.isTime.2
    rw [hone] at hnanos ⊢
    rw [if_pos (by omega), if_pos (by omega)]
    omega

/-- The instant of the fields of a written timestamp. -/
theorem timestamp_fieldsOf {t : Timestamp} (ht : t.Settled) {places : Nat}
    (hplaces : places ≤ 9) : (fieldsOf t places).timestamp = .ok (t.truncate places) := by
  have hdate : (fieldsOf t places).date = .ok t.date := Fields.date_of_parts t.date rfl rfl rfl
  obtain ⟨hsecond, hnanos⟩ := clock_fieldsOf ht hplaces
  have hlocal : Timestamp.ofLocal? t.date t.second (t.truncate places).nanos 0 =
      some (t.truncate places) := ofLocal?_utc (t.truncate places)
  have hoffset : (fieldsOf t places).offset = 0 := rfl
  simp only [Fields.timestamp, hdate, bind, Except.bind, hsecond, hnanos, hoffset, hlocal]
  exact if_pos (by decide)

/-! ## Patterns -/

theorem readFirst_cons_ok {items : List Item} {f : Fields} {cs : List Char} {t : Timestamp}
    (hread : readItems items {} cs = .ok f) (hinstant : f.timestamp = .ok t)
    (more : List (List Item)) : readFirst (items :: more) cs = some t := by
  have hall : (readItems items {} cs >>= Fields.timestamp) = .ok t := by
    rw [hread]
    exact hinstant
  rw [readFirst, hall]

theorem readFirst_cons_error {items : List Item} {cs : List Char} {fault : ReadingFault}
    (hread : readItems items {} cs = .error fault) (more : List (List Item)) :
    readFirst (items :: more) cs = readFirst more cs := by
  have hall : (readItems items {} cs >>= Fields.timestamp) = .error fault := by
    rw [hread]
    rfl
  rw [readFirst, hall]

/-- A timestamp in a layout, up to what follows the fraction. -/
theorem chars_layout (layout : TimestampLayout) (t : Timestamp) :
    layout.chars t = t.date.chars ++
      ' ' :: (t.clockText ++ (t.fractionText layout.places ++ layout.suffix.toList)) := by
  simp [TimestampLayout.chars]

variable {layout : TimestampLayout}

/-- What is written is the settled instant. -/
theorem chars_settled (layout : TimestampLayout) (t : Timestamp) :
    layout.chars t.settled = layout.chars t := by
  simp only [TimestampLayout.chars, Timestamp.fractionText, Timestamp.date_settled,
    Timestamp.clockText_settled, Timestamp.fraction_settled]

/-- A time begins with a digit. -/
theorem exists_clockText (t : Timestamp) (tail : List Char) :
    ∃ c cs, t.clockText ++ tail = c :: cs ∧ c.isDigit = true := by
  obtain ⟨c, cs, hcs, hdigit⟩ := exists_paddedDigits 2 (t.second / 3600)
  simp only [Timestamp.clockText, hcs, List.cons_append]
  exact ⟨c, _, rfl, hdigit⟩

theorem take_blanks (t : Timestamp) (f : Fields) (tail : List Char) :
    Item.blanks.take f (' ' :: (t.clockText ++ tail)) = .ok (f, t.clockText ++ tail) := by
  obtain ⟨c, cs, hcs, hdigit⟩ := exists_clockText t tail
  have htrim : Text.trimLeft (c :: cs) = c :: cs :=
    Text.trimLeft_of_head (by rintro d ⟨⟩; exact isBlank_of_isDigit hdigit)
  rw [hcs]
  exact congrArg (fun rest => Except.ok (f, rest)) htrim

/-- The lenient items read all fields and leave the suffix. -/
theorem readItems_lenient (t : Timestamp) (hpos : 0 < layout.places) (hplaces : layout.places ≤ 9)
    (hsuffix : Stops layout.suffix.toList) (items : List Item) :
    readItems (lenientDate ++ .blanks :: lenientTime ++ items) {} (layout.chars t) =
      readItems items (fieldsOf t layout.places) layout.suffix.toList := by
  rw [chars_layout]
  show readItems (dateItems [] .number ++ .blanks :: (timeItems [] .number ++ items)) {} _ = _
  rw [readItems_date idle_nil pads_number t.date (take_year t.date _) (stops_cons rfl _),
    readItems_cons (take_blanks ..), readItems_time idle_nil pads_number t _
      (stops_fractionText _ _ _) (fun g => take_fraction t hpos hplaces g hsuffix)]
  rfl

/-- A `T` is not found where a space stands. -/
theorem readItems_lenient_mark (t : Timestamp) (items : List Item) :
    readItems (lenientDate ++ .mark 'T' :: lenientTime ++ items) {} (layout.chars t) =
      .error .invalid := by
  have hmark : ∀ f tail, (Item.mark 'T').take f (' ' :: tail) = .error .invalid := fun _ _ => rfl
  rw [chars_layout]
  show readItems (dateItems [] .number ++ .mark 'T' :: (lenientTime ++ items)) {} _ = _
  rw [readItems_date idle_nil pads_number t.date (take_year t.date _) (stops_cons rfl _),
    readItems_cons_error (hmark _ _)]

/-- The strict pattern misses the offset, or the four digits of the year before it. -/
theorem readItems_strict (t : Timestamp) (hpos : 0 < layout.places) (hplaces : layout.places ≤ 9)
    (hsuffix : layout.suffix.toList = []) :
    ∃ fault, readItems strictTimestamp {} (layout.chars t) = .error fault := by
  by_cases hyear : 0 ≤ t.date.year ∧ t.date.year ≤ 9999
  · have htakeYear : ∀ {rest}, Stops rest → (Item.fixed .year Part.year.width).take {}
        (Date.yearText t.date.year ++ rest) = .ok ({ year := t.date.year }, rest) := by
      intro rest hrest
      have hset : Fields.set {} .year (t.date.year.natAbs : Int) =
          .ok { year := t.date.year } := by
        rw [Int.natAbs_of_nonneg hyear.1]
        exact set_year ⟨t.date.isDay.1, t.date.isDay.2.1⟩ _
      rw [Date.yearText, if_pos hyear]
      exact pads_fixed (show t.date.year.natAbs < 10000 by omega) hset hrest
    have hspace : ∀ f tail, (Item.oneOf ['t', 'T', ' ']).take f (' ' :: tail) = .ok (f, tail) :=
      fun _ _ => rfl
    refine ⟨.tooShort, ?_⟩
    rw [chars_layout, hsuffix]
    show readItems (dateItems [] (fun part => .fixed part part.width) ++
      .oneOf ['t', 'T', ' '] :: (timeItems [] (fun part => .fixed part part.width) ++
        [.offset ⟨false, false, 23 * 3600 + 59 * 60⟩])) {} _ = _
    rw [readItems_date idle_nil pads_fixed t.date htakeYear (stops_cons rfl _),
      readItems_cons (hspace _ _), readItems_time idle_nil pads_fixed t _
        (stops_fractionText _ _ _) (fun g => take_fraction t hpos hplaces g stops_nil)]
    rfl
  · have hsign : ∃ c tail, layout.chars t = c :: tail ∧ c.isDigit = false := by
      rw [chars_layout, Date.chars, Date.yearText, if_neg hyear]
      split
      · exact ⟨'-', _, rfl, rfl⟩
      · exact ⟨'+', _, rfl, rfl⟩
    obtain ⟨c, tail, hchars, hdigit⟩ := hsign
    have htake : ∃ fault, (Item.fixed .year 4).take {} (c :: tail) = .error fault := by
      obtain ⟨fault, hfault⟩ := takeNumber_of_not_digit hdigit tail
      exact ⟨fault, by rw [Item.take, hfault]; rfl⟩
    obtain ⟨fault, htake⟩ := htake
    rw [hchars]
    exact ⟨fault, readItems_cons_error htake _⟩

/-- A settled timestamp as a backend writes it is read back up to the digits that it lost. -/
theorem readTimestamp?_chars_of_settled (b : Backend) {t : Timestamp} (ht : t.Settled) :
    readTimestamp? (b.timestampLayout.chars t) = some (t.truncate b.timestampLayout.places) := by
  have hplaces : 0 < b.timestampLayout.places ∧ b.timestampLayout.places ≤ 9 := by
    cases b <;> decide
  have hinstant := timestamp_fieldsOf ht hplaces.2
  by_cases hoffset : b.timestampLayout.suffix = "+00:00"
  · have hsuffix : b.timestampLayout.suffix.toList = ['+', '0', '0', ':', '0', '0'] := by
      rw [hoffset]
      rfl
    have hread := readItems_lenient t hplaces.1 hplaces.2
      (by rw [hsuffix]; exact stops_cons rfl _) [lenientOffset]
    have hzero : ∀ f : Fields, f.offset = 0 →
        readItems [lenientOffset] f ['+', '0', '0', ':', '0', '0'] = .ok f := by
      rintro ⟨⟩ ⟨⟩
      rfl
    rw [hsuffix, hzero _ rfl] at hread
    exact readFirst_cons_ok hread hinstant _
  · have hsuffix : b.timestampLayout.suffix.toList = [] := by
      cases b with
      | postgresql => exact absurd rfl hoffset
      | mysql => rfl
      | sqlite => rfl
    have hread := readItems_lenient t hplaces.1 hplaces.2 (by rw [hsuffix]; exact stops_nil)
    obtain ⟨fault, hstrict⟩ := readItems_strict t hplaces.1 hplaces.2 hsuffix
    rw [hsuffix] at hread
    -- the first three patterns ask for an offset
    rw [readTimestamp?, databaseTimestamps, readFirst_cons_error (hread _),
      readFirst_cons_error (readItems_lenient_mark t _), readFirst_cons_error hstrict]
    have hlast := hread []
    rw [List.append_nil] at hlast
    exact readFirst_cons_ok hlast hinstant _

theorem readTimestamp?_chars (b : Backend) (t : Timestamp) :
    readTimestamp? (b.timestampLayout.chars t) =
      some (t.settled.truncate b.timestampLayout.places) := by
  rw [← chars_settled]
  exact readTimestamp?_chars_of_settled b t.isSettled_settled

/-! ## Stored timestamps -/

theorem truncate_nine (t : Timestamp) : t.truncate 9 = t := by
  obtain ⟨date, second, nanos, htime⟩ := t
  simp [Timestamp.truncate]

theorem rfc3339_settled (t : Timestamp) : t.settled.rfc3339 = t.rfc3339 := by
  simp only [Timestamp.rfc3339, Timestamp.exactFraction, Timestamp.fractionText,
    Timestamp.date_settled, Timestamp.clockText_settled, Timestamp.fraction_settled]

/-- A timestamp that was stored is read back with all its digits. -/
theorem readStoredTimestamp?_rfc3339 (t : Timestamp) :
    readStoredTimestamp? t.rfc3339.toList = some t.settled := by
  rw [← rfc3339_settled]
  generalize hsettled : t.settled = u
  have hu : u.Settled := hsettled ▸ t.isSettled_settled
  have hchars : u.rfc3339.toList =
      u.date.chars ++ 'T' :: (u.clockText ++ (u.exactFraction ++ ['Z'])) := by
    simp [Timestamp.rfc3339]
  have hmark : ∀ f tail, (Item.oneOf ['t', 'T', ' ']).take f ('T' :: tail) = .ok (f, tail) :=
    fun _ _ => rfl
  have htail : Stops (u.exactFraction ++ ['Z']) := by
    unfold Timestamp.exactFraction
    repeat' split
    · exact stops_cons rfl _
    all_goals exact stops_fractionText _ _ _
  have hzone : ∀ f : Fields, f.offset = 0 →
      readItems [.blanks, .namedOffset ⟨true, false, 99 * 3600 + 59 * 60⟩, .blanks] f ['Z'] =
        .ok f := by
    intro f hf
    obtain ⟨year, month, day, hour, minute, second, nanos, offset⟩ := f
    obtain rfl : offset = 0 := hf
    rfl
  have hread : readItems storedTimestamp {} u.rfc3339.toList = .ok (fieldsOf u 9) := by
    rw [hchars]
    show readItems (dateItems [.blanks] .number ++ .oneOf ['t', 'T', ' '] ::
      (timeItems [.blanks] .number ++
        [.blanks, .namedOffset ⟨true, false, 99 * 3600 + 59 * 60⟩, .blanks])) {} _ = _
    rw [readItems_date idle_blanks pads_number u.date (take_year u.date _) (stops_cons rfl _),
      readItems_cons (hmark _ _), readItems_time idle_blanks pads_number u _ htail
        (fun g => take_exactFraction u g (stops_cons rfl _) (by decide)), hzone _ rfl]
    have hnanos : writtenNanos u 9 = u.fraction := by simp [writtenNanos]
    simp only [fieldsOf, hnanos]
  rw [readStoredTimestamp?, hread]
  have hinstant := timestamp_fieldsOf hu (Nat.le_refl 9)
  rw [truncate_nine] at hinstant
  exact congrArg Except.toOption hinstant

/-! ## Characters -/

theorem isValueText_paddedDigits (width n : Nat) : Text.IsValueText (paddedDigits width n) :=
  Text.isValueText_of_digits (Text.paddedDigits_ne_nil _ _) fun _ => isDigit_of_mem_paddedDigits

theorem isValueText_yearText (year : Int) : Text.IsValueText (Date.yearText year) := by
  have hdigits := isValueText_paddedDigits 4 year.natAbs
  rw [Date.yearText]
  split
  · exact hdigits
  · split
    · exact hdigits.cons rfl (by decide)
    · exact hdigits.cons rfl (by decide)

theorem isValueText_date (d : Date) : Text.IsValueText d.chars := by
  have htwo := isValueText_paddedDigits 2
  rw [Date.chars, List.append_assoc, List.cons_append]
  exact (isValueText_yearText d.year).join ((htwo d.month).join (htwo d.day) rfl) rfl

theorem isValueText_timestamp (b : Backend) (t : Timestamp) :
    Text.IsValueText (b.timestampLayout.chars t) := by
  have htwo := isValueText_paddedDigits 2
  have hclock : Text.IsValueText t.clockText := by
    rw [Timestamp.clockText, List.append_assoc, List.cons_append]
    exact (htwo _).join ((htwo _).join (htwo _) rfl) rfl
  have hbody : ∀ places, Text.IsValueText
      (t.date.chars ++ ' ' :: (t.clockText ++ t.fractionText places)) := fun places =>
    (isValueText_date t.date).join (hclock.join (isValueText_paddedDigits _ _) rfl) rfl
  rw [chars_layout, ← List.append_assoc, ← List.cons_append, ← List.append_assoc]
  cases b with
  | postgresql =>
      have hzone : Text.IsValueText ['0', '0', ':', '0', '0'] := (htwo 0).join (htwo 0) rfl
      exact (hbody 6).join hzone rfl
  | mysql =>
      have hsuffix : Backend.mysql.timestampLayout.suffix.toList = [] := rfl
      rw [hsuffix, List.append_nil]
      exact hbody 6
  | sqlite =>
      have hsuffix : Backend.sqlite.timestampLayout.suffix.toList = [] := rfl
      rw [hsuffix, List.append_nil]
      exact hbody 3

end Calendar

end BoundSql
