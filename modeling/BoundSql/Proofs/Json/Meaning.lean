import BoundSql.Json.Tagged
import Mathlib.Data.List.Forall2

/-!
# What documents mean

The readers of documents, each with the rule that it follows: the values of documents
(`Document.value?_eq_some_iff`), numbers and strings among them, and cases of several in the
paired form (`Document.tagged?_eq_some_iff`). A rule says what a document has to look like
for a value; the theorem beside it says that the reader gives this value and no other.

Of a number with places or an exponent only the float is named here that its digits are
rounded to.
-/

namespace BoundSql.Json

/-! ## Numbers -/

namespace NumberText

/-- A number that is written as an integer and fits into sixty-four bits, with a sign or
without one. Zero has no sign. -/
inductive IsInteger : NumberText → Int → Prop
  | natural {whole : List Char} : Text.natOfDigits whole < UInt64.size →
      IsInteger ⟨false, whole, none, none⟩ (Text.natOfDigits whole)
  | negative {whole : List Char} : 0 < Text.natOfDigits whole →
      Text.natOfDigits whole ≤ UInt64.size / 2 →
      IsInteger ⟨true, whole, none, none⟩ (-(Text.natOfDigits whole : Int))

/-- What a number stands for: the integer that it is, or else a float. -/
inductive Means : NumberText → JsonNumber → Prop
  | int {n : NumberText} {k : Int} : n.IsInteger k → Means n (.int k)
  | float {n : NumberText} {x : Binary64} : (∀ k, ¬ n.IsInteger k) → n.magnitude? = some x →
      Means n (.float (if n.negative then x.neg else x))

theorem value?_of_isInteger {n : NumberText} {k : Int} (h : n.IsInteger k) :
    n.value? = some (.int k) := by
  cases h with
  | natural hlt =>
      exact if_pos ⟨rfl, rfl, hlt⟩
  | negative hpos hle =>
      exact if_pos ⟨rfl, rfl, hpos, hle⟩

theorem value?_of_not_isInteger {n : NumberText} (h : ∀ k, ¬ n.IsInteger k) :
    n.value? = n.magnitude?.map fun x => .float (if n.negative then x.neg else x) := by
  obtain ⟨negative, whole, places, exponent⟩ := n
  refine if_neg ?_
  intro ⟨hplaces, hexponent, hrange⟩
  obtain rfl := Option.isNone_iff_eq_none.mp hplaces
  obtain rfl := Option.isNone_iff_eq_none.mp hexponent
  cases negative with
  | false => exact h _ (.natural hrange)
  | true => exact h _ (.negative hrange.1 hrange.2)

theorem value?_eq_some_iff {n : NumberText} {v : JsonNumber} :
    n.value? = some v ↔ n.Means v := by
  constructor
  · intro h
    by_cases hint : ∃ k, n.IsInteger k
    · obtain ⟨k, hk⟩ := hint
      rw [value?_of_isInteger hk] at h
      obtain rfl := Option.some.inj h
      exact .int hk
    · have hnone := not_exists.mp hint
      rw [value?_of_not_isInteger hnone] at h
      obtain ⟨x, hx, rfl⟩ := Option.map_eq_some_iff.mp h
      exact .float hnone hx
  · intro h
    cases h with
    | int hk => exact value?_of_isInteger hk
    | float hnone hx => rw [value?_of_not_isInteger hnone, hx, Option.map_some]

end NumberText

namespace Document

/-! ## Values -/

mutual

/-- A document and its value, containers nested at most `depth` deep. -/
inductive Means : Nat → Document → Json → Prop
  | null {depth : Nat} : Means depth .null .null
  | bool {depth : Nat} (b : Bool) : Means depth (.bool b) (.bool b)
  | number {depth : Nat} {n : NumberText} {v : JsonNumber} : n.Means v →
      Means depth (.number n) (.number v)
  | string {depth : Nat} (s : String) : Means depth (.string (some s)) (.string s)
  | array {depth : Nat} {items : List Document} {values : List Json} :
      MeansItems depth items values → Means (depth + 1) (.array items) (.array values)
  | object {depth : Nat} {fields : List (Option String × Document)}
      {values : List (String × Json)} : MeansFields depth fields values →
      Means (depth + 1) (.object fields) (ofFields values)

/-- The items of an array and their values. -/
inductive MeansItems : Nat → List Document → List Json → Prop
  | nil {depth : Nat} : MeansItems depth [] []
  | cons {depth : Nat} {d : Document} {items : List Document} {value : Json}
      {values : List Json} : Means depth d value → MeansItems depth items values →
      MeansItems depth (d :: items) (value :: values)

/-- The fields of an object and their values, as written. -/
inductive MeansFields : Nat → List (Option String × Document) → List (String × Json) → Prop
  | nil {depth : Nat} : MeansFields depth [] []
  | cons {depth : Nat} (key : String) {d : Document} {fields : List (Option String × Document)}
      {value : Json} {values : List (String × Json)} : Means depth d value →
      MeansFields depth fields values →
      MeansFields depth ((some key, d) :: fields) ((key, value) :: values)

end

mutual

theorem means_of_value? : ∀ {depth : Nat} {d : Document} {j : Json},
    value? depth d = some j → Means depth d j
  | _, .null, _, h => by
      cases h
      exact .null
  | _, .bool b, _, h => by
      cases h
      exact .bool b
  | _, .number n, _, h => by
      rw [value?] at h
      obtain ⟨v, hv, rfl⟩ := Option.map_eq_some_iff.mp h
      exact .number (NumberText.value?_eq_some_iff.mp hv)
  | _, .string s, _, h => by
      rw [value?] at h
      obtain ⟨s, rfl, rfl⟩ := Option.map_eq_some_iff.mp h
      exact .string s
  | 0, .array items, _, h => by
      rw [value?, if_pos rfl] at h
      cases h
  | depth + 1, .array items, _, h => by
      rw [value?, if_neg depth.succ_ne_zero] at h
      obtain ⟨values, hvalues, rfl⟩ := Option.map_eq_some_iff.mp h
      exact .array (meansItems_of_values? hvalues)
  | 0, .object fields, _, h => by
      rw [value?, if_pos rfl] at h
      cases h
  | depth + 1, .object fields, _, h => by
      rw [value?, if_neg depth.succ_ne_zero] at h
      obtain ⟨values, hvalues, rfl⟩ := Option.map_eq_some_iff.mp h
      exact .object (meansFields_of_fieldValues? hvalues)

theorem meansItems_of_values? : ∀ {depth : Nat} {items : List Document} {values : List Json},
    values? depth items = some values → MeansItems depth items values
  | _, [], _, h => by
      cases h
      exact .nil
  | _, d :: rest, _, h => by
      rw [values?] at h
      obtain ⟨first, hfirst, h⟩ := Option.bind_eq_some_iff.mp h
      obtain ⟨others, hothers, h⟩ := Option.bind_eq_some_iff.mp h
      cases h
      exact .cons (means_of_value? hfirst) (meansItems_of_values? hothers)

theorem meansFields_of_fieldValues? : ∀ {depth : Nat} {fields : List (Option String × Document)}
    {values : List (String × Json)}, fieldValues? depth fields = some values →
      MeansFields depth fields values
  | _, [], _, h => by
      cases h
      exact .nil
  | _, (key, d) :: rest, _, h => by
      rw [fieldValues?] at h
      obtain ⟨name, hname, h⟩ := Option.bind_eq_some_iff.mp h
      obtain ⟨first, hfirst, h⟩ := Option.bind_eq_some_iff.mp h
      obtain ⟨others, hothers, h⟩ := Option.bind_eq_some_iff.mp h
      cases h
      rw [hname]
      exact .cons name (means_of_value? hfirst) (meansFields_of_fieldValues? hothers)

end

mutual

theorem Means.value? : ∀ {depth : Nat} {d : Document} {j : Json},
    Means depth d j → Document.value? depth d = some j
  | _, _, _, .null => rfl
  | _, _, _, .bool _ => rfl
  | _, _, _, .number hn => by
      rw [Document.value?, NumberText.value?_eq_some_iff.mpr hn, Option.map_some]
  | _, _, _, .string _ => rfl
  | _, _, _, .array hitems => by
      rw [Document.value?, if_neg (Nat.succ_ne_zero _), Nat.add_sub_cancel, hitems.values?,
        Option.map_some]
  | _, _, _, .object hfields => by
      rw [Document.value?, if_neg (Nat.succ_ne_zero _), Nat.add_sub_cancel, hfields.fieldValues?,
        Option.map_some]

theorem MeansItems.values? : ∀ {depth : Nat} {items : List Document} {values : List Json},
    MeansItems depth items values → Document.values? depth items = some values
  | _, _, _, .nil => rfl
  | _, _, _, .cons hfirst hothers => by
      rw [Document.values?, hfirst.value?, hothers.values?]
      rfl

theorem MeansFields.fieldValues? : ∀ {depth : Nat} {fields : List (Option String × Document)}
    {values : List (String × Json)}, MeansFields depth fields values →
      Document.fieldValues? depth fields = some values
  | _, _, _, .nil => rfl
  | _, _, _, .cons key hfirst hothers => by
      rw [Document.fieldValues?, hfirst.value?, hothers.fieldValues?]
      rfl

end

theorem value?_eq_some_iff {depth : Nat} {d : Document} {j : Json} :
    value? depth d = some j ↔ Means depth d j :=
  ⟨means_of_value?, Means.value?⟩

/-! ## Scalars -/

theorem bool?_eq_some_iff {d : Document} {b : Bool} : d.bool? = some b ↔ d = .bool b := by
  cases d <;> simp [bool?]

theorem string?_eq_some_iff {d : Document} {s : String} :
    d.string? = some s ↔ d = .string (some s) := by
  cases d <;> simp [string?]

theorem items?_eq_some_iff {d : Document} {items : List Document} :
    d.items? = some items ↔ d = .array items := by
  cases d <;> simp [items?]

/-- An integer of sixty-four bits with a sign. -/
def IsInt64 (d : Document) (k : Int64) : Prop :=
  ∃ n : NumberText, d = .number n ∧ n.IsInteger k.toInt

theorem int64?_eq_some_iff {d : Document} {k : Int64} : d.int64? = some k ↔ d.IsInt64 k := by
  constructor
  · intro h
    unfold int64? at h
    split at h
    · rename_i n
      split at h
      · rename_i m hvalue
        split at h
        · rename_i hrange
          obtain rfl := Option.some.inj h
          cases NumberText.value?_eq_some_iff.mp hvalue with
          | int hint =>
              refine ⟨n, rfl, ?_⟩
              rwa [Int64.toInt_ofInt_of_le hrange.1 (Int.lt_add_one_of_le hrange.2)]
        · cases h
      · cases h
    · cases h
  · intro ⟨n, hd, hint⟩
    have hvalue := NumberText.value?_of_isInteger hint
    rw [hd, int64?, hvalue]
    exact (if_pos ⟨k.minValue_le_toInt, k.toInt_le⟩).trans (congrArg some (Int64.ofInt_toInt k))

/-- A float, or an integer rounded to one. -/
inductive IsFloat : Document → Binary64 → Prop
  | int {n : NumberText} {k : Int} : n.Means (.int k) → IsFloat (.number n) (.ofInt k)
  | float {n : NumberText} {x : Binary64} : n.Means (.float x) → IsFloat (.number n) x

theorem float?_eq_some_iff {d : Document} {x : Binary64} : d.float? = some x ↔ d.IsFloat x := by
  constructor
  · intro h
    unfold float? at h
    split at h
    · rename_i n
      split at h
      · rename_i k hvalue
        obtain rfl := Option.some.inj h
        exact .int (NumberText.value?_eq_some_iff.mp hvalue)
      · rename_i y hvalue
        obtain rfl := Option.some.inj h
        exact .float (NumberText.value?_eq_some_iff.mp hvalue)
      · cases h
    · cases h
  · intro h
    cases h with
    | int hvalue => rw [float?, NumberText.value?_eq_some_iff.mpr hvalue]
    | float hvalue => rw [float?, NumberText.value?_eq_some_iff.mpr hvalue]

/-- An element of an array: null, or a document of the given form. -/
inductive IsOption {α : Type} (P : Document → α → Prop) : Document → Option α → Prop
  | null : IsOption P .null none
  | value {d : Document} {x : α} : P d x → IsOption P d (some x)

section Items

variable {α : Type} {read : Document → Option α} {P : Document → α → Prop}

theorem optionItems?_cons_of_ne_null {d : Document} (h : d ≠ .null) (docs : List Document) :
    optionItems? read (d :: docs) =
      (read d).bind fun x => (optionItems? read docs).map (some x :: ·) := by
  rw [optionItems?]
  · cases read d <;> rfl
  · exact h

/-- Items are read in order, each by the rule for elements. -/
theorem optionItems?_eq_some_iff (hread : ∀ d x, read d = some x ↔ P d x)
    (hnull : ∀ x, ¬ P .null x) {docs : List Document} {items : List (Option α)} :
    optionItems? read docs = some items ↔ List.Forall₂ (IsOption P) docs items := by
  induction docs generalizing items with
  | nil =>
      rw [List.forall₂_nil_left_iff, optionItems?, Option.some.injEq, eq_comm]
  | cons d docs ih =>
      by_cases hd : d = .null
      · subst hd
        rw [optionItems?, Option.map_eq_some_iff, List.forall₂_cons_left_iff]
        constructor
        · intro ⟨others, hothers, heq⟩
          exact ⟨none, others, .null, ih.mp hothers, heq.symm⟩
        · intro ⟨item, others, hitem, hothers, heq⟩
          cases hitem with
          | null => exact ⟨others, ih.mpr hothers, heq.symm⟩
          | value hx => exact absurd hx (hnull _)
      · rw [optionItems?_cons_of_ne_null hd, Option.bind_eq_some_iff, List.forall₂_cons_left_iff]
        constructor
        · intro ⟨x, hx, h⟩
          obtain ⟨others, hothers, rfl⟩ := Option.map_eq_some_iff.mp h
          exact ⟨some x, others, .value ((hread d x).mp hx), ih.mp hothers, rfl⟩
        · intro ⟨item, others, hitem, hothers, heq⟩
          cases hitem with
          | null => exact absurd rfl hd
          | @value _ x hx =>
              exact ⟨x, (hread d x).mpr hx, by rw [ih.mpr hothers, heq, Option.map_some]⟩

end Items

/-! ## Cases -/

/-- A case named in the outer form: its name, or an object with the name as its only key and
nothing behind it. In what was kept, an empty object also stands for nothing. -/
inductive Names (early : Bool) : Document → String → Prop
  | bare (name : String) : Names early (.string (some name)) name
  | null (name : String) : Names early (.object [(some name, .null)]) name
  | empty (name : String) : early = true → Names early (.object [(some name, .object [])]) name

theorem unitVariant?_eq_some_iff {early : Bool} {d : Document} {name : String} :
    d.unitVariant? early = some name ↔ Names early d name := by
  constructor
  · intro h
    unfold unitVariant? at h
    split at h
    · rename_i tag content hvariant
      split at h
      · rename_i hunit
        obtain rfl := Option.some.inj h
        unfold variant? at hvariant
        split at hvariant
        · rename_i s
          obtain ⟨s, rfl, heq⟩ := Option.map_eq_some_iff.mp hvariant
          obtain ⟨rfl, rfl⟩ := Prod.mk.inj heq
          exact .bare s
        · rename_i key value
          obtain ⟨s, rfl, heq⟩ := Option.map_eq_some_iff.mp hvariant
          obtain ⟨rfl, rfl⟩ := Prod.mk.inj heq
          cases value with
          | null => exact .null s
          | object fields =>
              obtain ⟨hearly, hempty⟩ := Bool.and_eq_true_iff.mp hunit
              obtain rfl := List.isEmpty_iff.mp hempty
              exact .empty s hearly
          | _ => cases hunit
        · cases hvariant
      · cases h
    · cases h
  · intro h
    cases h with
    | bare => rfl
    | null => rfl
    | empty _ hearly =>
        rw [hearly]
        rfl

/-- A case named in an array: its name or, in what was kept, its position among `names`. -/
inductive NamesInPair (early : Bool) (names : List String) : Document → String → Prop
  | bare (name : String) : NamesInPair early names (.string (some name)) name
  | position {n : NumberText} {i : Nat} {name : String} : early = true → n.IsInteger i →
      names[i]? = some name → NamesInPair early names (.number n) name

theorem arrayTag?_eq_some_iff {early : Bool} {names : List String} {d : Document}
    {name : String} : d.arrayTag? early names = some name ↔ NamesInPair early names d name := by
  constructor
  · intro h
    unfold arrayTag? at h
    split at h
    · subst h
      exact .bare name
    · rename_i n
      split at h
      · rename_i i hvalue
        split at h
        · rename_i hearly
          cases NumberText.value?_eq_some_iff.mp hvalue with
          | int hint => exact .position hearly hint h
        · cases h
      · cases h
    · cases h
  · intro h
    cases h with
    | bare => rfl
    | position hearly hint hname =>
        rw [arrayTag?, NumberText.value?_of_isInteger hint]
        exact (if_pos hearly).trans hname

/-- Fields whose keys have values, none of them among `keys`. -/
def Others (keys : List String) (fields : List (Option String × Document)) : Prop :=
  ∀ field ∈ fields, ∃ key, field.1 = some key ∧ key ∉ keys

/-- A case in the paired form: an array of its name and its content, or an object with a key
for each, in either order and among any others. A content in front of the name is kept until
the name is known, and then has to have a value. -/
inductive IsTagged (early : Bool) (depth : Nat) (names : List String)
    (tagKey contentKey : String) : Document → Tagged → Prop
  | pair {tag content : Document} {name : String} : NamesInPair early names tag name →
      IsTagged early depth names tagKey contentKey (.array [tag, content])
        ⟨name, some content, early⟩
  | alone {tag : Document} {name : String} {before behind : List (Option String × Document)} :
      Names early tag name → Others [tagKey, contentKey] (before ++ behind) →
      IsTagged early depth names tagKey contentKey
        (.object (before ++ (some tagKey, tag) :: behind)) ⟨name, none, early⟩
  | tagFirst {tag content : Document} {name : String}
      {before between behind : List (Option String × Document)} : Names early tag name →
      Others [tagKey, contentKey] (before ++ (between ++ behind)) →
      IsTagged early depth names tagKey contentKey
        (.object (before ++ (some tagKey, tag) ::
          (between ++ (some contentKey, content) :: behind))) ⟨name, some content, early⟩
  | contentFirst {tag content : Document} {name : String} {value : Json}
      {before between behind : List (Option String × Document)} : Names early tag name →
      Means depth content value → Others [tagKey, contentKey] (before ++ (between ++ behind)) →
      IsTagged early depth names tagKey contentKey
        (.object (before ++ (some contentKey, content) ::
          (between ++ (some tagKey, tag) :: behind))) ⟨name, some content, true⟩

/-! ### Keys -/

theorem valuesOf_append (key : String) (fields others : List (Option String × Document)) :
    valuesOf key (fields ++ others) = valuesOf key fields ++ valuesOf key others := by
  rw [valuesOf, List.filter_append, List.map_append]
  rfl

theorem valuesOf_cons_self (key : String) (d : Document)
    (fields : List (Option String × Document)) :
    valuesOf key ((some key, d) :: fields) = d :: valuesOf key fields := by
  simp [valuesOf]

theorem valuesOf_cons_of_ne {key other : String} (h : other ≠ key) (d : Document)
    (fields : List (Option String × Document)) :
    valuesOf key ((some other, d) :: fields) = valuesOf key fields := by
  simp [valuesOf, h]

theorem valuesOf_eq_nil_iff {key : String} {fields : List (Option String × Document)} :
    valuesOf key fields = [] ↔ ∀ field ∈ fields, field.1 ≠ some key := by
  simp [valuesOf, List.filter_eq_nil_iff]

/-- A key occurs once among fields, with this value. -/
def Sole (key : String) (d : Document) (fields : List (Option String × Document)) : Prop :=
  ∃ before behind, fields = before ++ (some key, d) :: behind ∧
    ∀ field ∈ before ++ behind, field.1 ≠ some key

theorem valuesOf_eq_singleton_iff {key : String} {d : Document}
    {fields : List (Option String × Document)} :
    valuesOf key fields = [d] ↔ Sole key d fields := by
  constructor
  · intro h
    obtain ⟨⟨name, value⟩, hfilter, rfl⟩ := List.map_eq_singleton_iff.mp h
    obtain ⟨before, behind, rfl, hbefore, hname, hbehind⟩ := List.filter_eq_cons_iff.mp hfilter
    obtain rfl : name = some key := by simpa using hname
    refine ⟨before, behind, rfl, ?_⟩
    rw [← valuesOf_eq_nil_iff, valuesOf_append, valuesOf, valuesOf, hbehind,
      List.filter_eq_nil_iff.mpr hbefore]
    rfl
  · intro ⟨before, behind, hfields, hnone⟩
    rw [← valuesOf_eq_nil_iff, valuesOf_append, List.append_eq_nil_iff] at hnone
    rw [hfields, valuesOf_append, valuesOf_cons_self, hnone.1, hnone.2, List.nil_append]

/-- A key that occurs once stands between fields in which it does not. -/
theorem Sole.exists_between {key : String} {d : Document}
    {fields : List (Option String × Document)} (h : Sole key d fields) :
    ∃ before behind, fields = before ++ (some key, d) :: behind ∧
      valuesOf key before = [] ∧ valuesOf key behind = [] := by
  obtain ⟨before, behind, hfields, hnone⟩ := h
  rw [← valuesOf_eq_nil_iff, valuesOf_append, List.append_eq_nil_iff] at hnone
  exact ⟨before, behind, hfields, hnone⟩

theorem keysRead_iff {fields : List (Option String × Document)} :
    keysRead fields = true ↔ ∀ field ∈ fields, ∃ key, field.1 = some key := by
  simp [keysRead, Option.isSome_iff_exists]

theorem others_iff {tagKey contentKey : String} {fields : List (Option String × Document)} :
    Others [tagKey, contentKey] fields ↔
      keysRead fields = true ∧ valuesOf tagKey fields = [] ∧ valuesOf contentKey fields = [] := by
  rw [keysRead_iff, valuesOf_eq_nil_iff, valuesOf_eq_nil_iff]
  constructor
  · intro h
    refine ⟨fun field hfield => ?_, fun field hfield heq => ?_, fun field hfield heq => ?_⟩
    · obtain ⟨key, hkey, -⟩ := h field hfield
      exact ⟨key, hkey⟩
    all_goals
      obtain ⟨key, hkey, hother⟩ := h field hfield
      rw [hkey, Option.some.injEq] at heq
      exact hother (by simp [heq])
  · intro ⟨hkeys, htag, hcontent⟩ field hfield
    obtain ⟨key, hkey⟩ := hkeys field hfield
    have hneTag := htag field hfield
    have hneContent := hcontent field hfield
    rw [hkey, ne_eq, Option.some.injEq] at hneTag hneContent
    exact ⟨key, hkey, by simp [hneTag, hneContent]⟩

theorem keysRead_append (fields others : List (Option String × Document)) :
    keysRead (fields ++ others) = (keysRead fields && keysRead others) :=
  List.all_append

theorem keysRead_cons_some (key : String) (d : Document)
    (fields : List (Option String × Document)) :
    keysRead ((some key, d) :: fields) = keysRead fields := by
  simp [keysRead]

section Tagged

variable {tagKey contentKey : String}

/-- Behind other fields the first of the two keys decides. -/
theorem comesFirst_append {before : List (Option String × Document)}
    (htag : valuesOf tagKey before = []) (hcontent : valuesOf contentKey before = [])
    {key : String} (hkey : key = tagKey ∨ key = contentKey) (d : Document)
    (behind : List (Option String × Document)) :
    comesFirst contentKey tagKey (before ++ (some key, d) :: behind) = (key == contentKey) := by
  have hnone : before.find? (fun field =>
      field.1 == some tagKey || field.1 == some contentKey) = none := by
    rw [List.find?_eq_none]
    intro field hfield
    simp [valuesOf_eq_nil_iff.mp htag field hfield, valuesOf_eq_nil_iff.mp hcontent field hfield]
  rw [comesFirst, List.find?_append, hnone, Option.none_or, List.find?_cons_of_pos]
  · simp
  · rcases hkey with rfl | rfl <;> simp

/-- A name without a content stands among other keys. -/
theorem alone_iff (hne : tagKey ≠ contentKey) {tag : Document}
    {fields : List (Option String × Document)} :
    keysRead fields = true ∧ valuesOf tagKey fields = [tag] ∧ valuesOf contentKey fields = [] ↔
      ∃ before behind, Others [tagKey, contentKey] (before ++ behind) ∧
        fields = before ++ (some tagKey, tag) :: behind := by
  constructor
  · intro ⟨hkeys, htag, hcontent⟩
    obtain ⟨before, behind, rfl, hbefore, hbehind⟩ :=
      (valuesOf_eq_singleton_iff.mp htag).exists_between
    rw [valuesOf_append, valuesOf_cons_of_ne hne, ← valuesOf_append] at hcontent
    rw [keysRead_append, keysRead_cons_some, ← keysRead_append] at hkeys
    refine ⟨before, behind, others_iff.mpr ⟨hkeys, ?_, hcontent⟩, rfl⟩
    rw [valuesOf_append, hbefore, hbehind, List.append_nil]
  · intro ⟨before, behind, hothers, hfields⟩
    obtain ⟨hkeys, htag, hcontent⟩ := others_iff.mp hothers
    rw [valuesOf_append] at htag hcontent
    obtain ⟨hbefore, hbehind⟩ := List.append_eq_nil_iff.mp htag
    rw [hfields]
    refine ⟨?_, ?_, ?_⟩
    · rwa [keysRead_append, keysRead_cons_some, ← keysRead_append]
    · rw [valuesOf_append, valuesOf_cons_self, hbefore, hbehind, List.nil_append]
    · rwa [valuesOf_append, valuesOf_cons_of_ne hne]

/-- A name and a content stand among other keys, in one of the two orders. -/
theorem pair_iff (hne : tagKey ≠ contentKey) {tag content : Document}
    {fields : List (Option String × Document)} :
    keysRead fields = true ∧ valuesOf tagKey fields = [tag] ∧
        valuesOf contentKey fields = [content] ↔
      ∃ before between behind, Others [tagKey, contentKey] (before ++ (between ++ behind)) ∧
        (fields = before ++ (some tagKey, tag) ::
            (between ++ (some contentKey, content) :: behind) ∨
          fields = before ++ (some contentKey, content) ::
            (between ++ (some tagKey, tag) :: behind)) := by
  constructor
  · intro ⟨hkeys, htag, hcontent⟩
    obtain ⟨front, back, rfl, hfront, hback⟩ :=
      (valuesOf_eq_singleton_iff.mp hcontent).exists_between
    rw [valuesOf_append, valuesOf_cons_of_ne hne.symm] at htag
    rw [keysRead_append, keysRead_cons_some] at hkeys
    -- the name stands behind the content or in front of it
    rcases List.append_eq_singleton_iff.mp htag with ⟨hnone, hone⟩ | ⟨hone, hnone⟩
    · obtain ⟨between, behind, rfl, hbetween, hbehind⟩ :=
        (valuesOf_eq_singleton_iff.mp hone).exists_between
      rw [valuesOf_append, valuesOf_cons_of_ne hne, ← valuesOf_append] at hback
      rw [keysRead_append, keysRead_cons_some, ← keysRead_append, ← keysRead_append] at hkeys
      refine ⟨front, between, behind, others_iff.mpr ⟨hkeys, ?_, ?_⟩, Or.inr rfl⟩
      · rw [valuesOf_append, valuesOf_append, hnone, hbetween, hbehind, List.append_nil,
          List.append_nil]
      · rw [valuesOf_append, hfront, hback, List.append_nil]
    · obtain ⟨before, between, rfl, hbefore, hbetween⟩ :=
        (valuesOf_eq_singleton_iff.mp hone).exists_between
      rw [valuesOf_append, valuesOf_cons_of_ne hne, ← valuesOf_append] at hfront
      rw [keysRead_append, keysRead_cons_some, ← keysRead_append, ← keysRead_append,
        List.append_assoc] at hkeys
      refine ⟨before, between, back, others_iff.mpr ⟨hkeys, ?_, ?_⟩, Or.inl (by simp)⟩
      · rw [valuesOf_append, valuesOf_append, hbefore, hbetween, hnone, List.append_nil,
          List.append_nil]
      · rw [← List.append_assoc, valuesOf_append, hfront, hback, List.append_nil]
  · intro ⟨before, between, behind, hothers, hfields⟩
    obtain ⟨hkeys, htag, hcontent⟩ := others_iff.mp hothers
    simp only [valuesOf_append, List.append_eq_nil_iff] at htag hcontent
    simp only [keysRead_append] at hkeys
    rcases hfields with rfl | rfl <;>
      simp [valuesOf_append, valuesOf_cons_self, valuesOf_cons_of_ne hne, keysRead_append,
        keysRead_cons_some, valuesOf_cons_of_ne hne.symm, htag, hcontent, hkeys]

variable {early : Bool} {depth : Nat} {names : List String}

/-- The reader of a case in the paired form, given the documents of its name and content. -/
theorem tagged?_alone {tag : Document} {fields : List (Option String × Document)}
    (h : keysRead fields = true ∧ valuesOf tagKey fields = [tag] ∧
      valuesOf contentKey fields = []) :
    (Document.object fields).tagged? early depth names tagKey contentKey =
      (tag.unitVariant? early).map (⟨·, none, early⟩) := by
  simp only [tagged?, h, if_true]

theorem tagged?_pair {tag content : Document} {fields : List (Option String × Document)}
    (h : keysRead fields = true ∧ valuesOf tagKey fields = [tag] ∧
      valuesOf contentKey fields = [content]) :
    (Document.object fields).tagged? early depth names tagKey contentKey =
      if comesFirst contentKey tagKey fields && (content.value? depth).isNone then none
      else (tag.unitVariant? early).map
        (⟨·, some content, early || comesFirst contentKey tagKey fields⟩) := by
  simp only [tagged?, h, if_true]

theorem comesFirst_tag (hne : tagKey ≠ contentKey) {tag : Document}
    {before behind : List (Option String × Document)}
    (h : valuesOf tagKey before = [] ∧ valuesOf contentKey before = []) :
    comesFirst contentKey tagKey (before ++ (some tagKey, tag) :: behind) = false := by
  rw [comesFirst_append h.1 h.2 (Or.inl rfl)]
  exact beq_eq_false_iff_ne.mpr hne

theorem comesFirst_content {content : Document} {before behind : List (Option String × Document)}
    (h : valuesOf tagKey before = [] ∧ valuesOf contentKey before = []) :
    comesFirst contentKey tagKey (before ++ (some contentKey, content) :: behind) = true := by
  rw [comesFirst_append h.1 h.2 (Or.inr rfl)]
  exact beq_self_eq_true contentKey

theorem Others.valuesOf_before {before others : List (Option String × Document)}
    (h : Others [tagKey, contentKey] (before ++ others)) :
    valuesOf tagKey before = [] ∧ valuesOf contentKey before = [] :=
  (others_iff.mp fun field hfield => h field (List.mem_append_left _ hfield)).2

theorem isTagged_of_tagged? (hne : tagKey ≠ contentKey) {d : Document} {t : Tagged}
    (h : d.tagged? early depth names tagKey contentKey = some t) :
    IsTagged early depth names tagKey contentKey d t := by
  have hread := h
  unfold tagged? at h
  split at h
  · rename_i tag content
    obtain ⟨name, hname, rfl⟩ := Option.map_eq_some_iff.mp h
    exact .pair (arrayTag?_eq_some_iff.mp hname)
  · rename_i fields
    split at h
    · rename_i hkeys
      split at h
      · rename_i tag htag hcontent
        obtain ⟨before, behind, hothers, rfl⟩ := (alone_iff hne).mp ⟨hkeys, htag, hcontent⟩
        obtain ⟨name, hname, rfl⟩ := Option.map_eq_some_iff.mp h
        exact .alone (unitVariant?_eq_some_iff.mp hname) hothers
      · rename_i tag content htag hcontent
        rw [tagged?_pair ⟨hkeys, htag, hcontent⟩] at hread
        obtain ⟨before, between, behind, hothers, hfields⟩ :=
          (pair_iff hne).mp ⟨hkeys, htag, hcontent⟩
        rcases hfields with rfl | rfl
        · rw [comesFirst_tag hne hothers.valuesOf_before, Bool.or_false, Bool.false_and,
            if_neg Bool.false_ne_true] at hread
          obtain ⟨name, hname, rfl⟩ := Option.map_eq_some_iff.mp hread
          exact .tagFirst (unitVariant?_eq_some_iff.mp hname) hothers
        · rw [comesFirst_content hothers.valuesOf_before, Bool.or_true, Bool.true_and] at hread
          cases hvalue : content.value? depth with
          | none =>
              rw [hvalue, if_pos Option.isNone_none] at hread
              cases hread
          | some value =>
              rw [hvalue, Option.isNone_some, if_neg Bool.false_ne_true] at hread
              obtain ⟨name, hname, rfl⟩ := Option.map_eq_some_iff.mp hread
              exact .contentFirst (unitVariant?_eq_some_iff.mp hname)
                (value?_eq_some_iff.mp hvalue) hothers
      · cases h
    · cases h
  · cases h

theorem IsTagged.tagged? (hne : tagKey ≠ contentKey) {d : Document} {t : Tagged}
    (h : IsTagged early depth names tagKey contentKey d t) :
    d.tagged? early depth names tagKey contentKey = some t := by
  cases h with
  | pair hname => rw [Document.tagged?, arrayTag?_eq_some_iff.mpr hname, Option.map_some]
  | @alone tag name before behind hname hothers =>
      rw [tagged?_alone ((alone_iff hne).mpr ⟨before, behind, hothers, rfl⟩),
        unitVariant?_eq_some_iff.mpr hname, Option.map_some]
  | @tagFirst tag content name before between behind hname hothers =>
      rw [tagged?_pair ((pair_iff hne).mpr ⟨before, between, behind, hothers, Or.inl rfl⟩),
        comesFirst_tag hne hothers.valuesOf_before, Bool.or_false, Bool.false_and,
        if_neg Bool.false_ne_true, unitVariant?_eq_some_iff.mpr hname, Option.map_some]
  | @contentFirst tag content name value before between behind hname hvalue hothers =>
      rw [tagged?_pair ((pair_iff hne).mpr ⟨before, between, behind, hothers, Or.inr rfl⟩),
        comesFirst_content hothers.valuesOf_before, Bool.or_true, Bool.true_and, hvalue.value?,
        Option.isNone_some, if_neg Bool.false_ne_true, unitVariant?_eq_some_iff.mpr hname,
        Option.map_some]

theorem tagged?_eq_some_iff (hne : tagKey ≠ contentKey) {d : Document} {t : Tagged} :
    d.tagged? early depth names tagKey contentKey = some t ↔
      IsTagged early depth names tagKey contentKey d t :=
  ⟨isTagged_of_tagged? hne, IsTagged.tagged? hne⟩

end Tagged

end Document

end BoundSql.Json
