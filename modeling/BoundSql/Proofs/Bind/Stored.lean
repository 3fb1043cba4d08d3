import BoundSql.Bind.Stored
import BoundSql.Proofs.Calendar.Printed
import BoundSql.Proofs.Decimal.Printed
import BoundSql.Proofs.Json.Printed

/-!
# Stored binds

Which documents store which binds, said apart from how they are read (`Bind.Stored`): the
kind of the bind by its name, in any of the ways to name a case, and behind it the value in
the form of its kind. The reader of stored binds follows these rules and no others
(`Bind.ofStored?_eq_some_iff`).

The stored form of a bind is one of these documents (`Bind.Exact.exists_document`), and it is
read back as that bind up to the sign of a decimal zero and the second that a timestamp counts
its nanoseconds from (`Bind.Exact.ofStoredText?_storedChars`). Floats are left out of this:
their digits are rounded when they are read.
-/

namespace BoundSql

open Json Json.Document

/-! ## Texts of values -/

/-- A decimal: a string in either written form, or a number, of which the digits count that
it is shown with. -/
inductive Decimal.Stored : Document → Decimal → Prop
  | text {s : String} {d : Decimal} : Decimal.ofText s.toList = .ok d →
      Stored (.string (some s)) d
  | int {n : NumberText} {k : Int} {d : Decimal} : n.IsInteger k → d.negative = decide (k < 0) →
      d.mantissa = k.natAbs → d.scale = 0 → Stored (.number n) d
  | float {n : NumberText} {x : Binary64} {d : Decimal} : n.Means (.float x) →
      Decimal.ofPlain (FloatLayout.plain.text x) = .ok d → Stored (.number n) d

/-- A timestamp: a string in its pattern. -/
def Timestamp.Stored (d : Document) (t : Timestamp) : Prop :=
  ∃ s : String, d = .string (some s) ∧ Calendar.readStoredTimestamp? s.toList = some t

/-- A date: a string in its pattern. -/
def Date.Stored (d : Document) (day : Date) : Prop :=
  ∃ s : String, d = .string (some s) ∧ Calendar.readStoredDate? s.toList = some day

theorem toOption_eq_some_iff {ε α : Type} {r : Except ε α} {a : α} :
    r.toOption = some a ↔ r = .ok a := by
  cases r <;> simp [Except.toOption]

theorem Decimal.ofParts?_eq_some_iff {negative : Bool} {mantissa scale : Nat} {d : Decimal} :
    ofParts? negative mantissa scale = some d ↔
      d.negative = negative ∧ d.mantissa = mantissa ∧ d.scale = scale := by
  obtain ⟨n, m, s, hm, hs⟩ := d
  rw [ofParts?]
  constructor
  · intro h
    split at h
    · cases h
      exact ⟨rfl, rfl, rfl⟩
    · cases h
  · intro h
    obtain ⟨rfl, rfl, rfl⟩ := h
    exact dif_pos ⟨hm, hs⟩

theorem Decimal.ofStored?_eq_some_iff {doc : Document} {d : Decimal} :
    Decimal.ofStored? doc = some d ↔ Decimal.Stored doc d := by
  constructor
  · intro h
    unfold ofStored? at h
    split at h
    · obtain ⟨s, rfl, hs⟩ := Option.bind_eq_some_iff.mp h
      exact .text (toOption_eq_some_iff.mp hs)
    · split at h
      · rename_i k hvalue
        obtain ⟨hnegative, hmantissa, hscale⟩ := ofParts?_eq_some_iff.mp h
        cases NumberText.value?_eq_some_iff.mp hvalue with
        | int hint => exact .int hint hnegative hmantissa hscale
      · rename_i x hvalue
        exact .float (NumberText.value?_eq_some_iff.mp hvalue) (toOption_eq_some_iff.mp h)
      · cases h
    · cases h
  · intro h
    cases h with
    | text hs => exact toOption_eq_some_iff.mpr hs
    | int hint hnegative hmantissa hscale =>
        rw [ofStored?, NumberText.value?_of_isInteger hint]
        exact ofParts?_eq_some_iff.mpr ⟨hnegative, hmantissa, hscale⟩
    | float hvalue hplain =>
        rw [ofStored?, NumberText.value?_eq_some_iff.mpr hvalue]
        exact toOption_eq_some_iff.mpr hplain

theorem Timestamp.ofStored?_eq_some_iff {d : Document} {t : Timestamp} :
    Timestamp.ofStored? d = some t ↔ Timestamp.Stored d t := by
  simp only [Timestamp.ofStored?, Timestamp.Stored, Option.bind_eq_some_iff, string?_eq_some_iff]

theorem Date.ofStored?_eq_some_iff {d : Document} {day : Date} :
    Date.ofStored? d = some day ↔ Date.Stored d day := by
  simp only [Date.ofStored?, Date.Stored, Option.bind_eq_some_iff, string?_eq_some_iff]

/-! ## Arrays -/

/-- Where every case is found by its own name, a name belongs to the case that it finds. -/
theorem find?_name_eq_some_iff {α : Type} {name : α → String} {all : List α}
    (hfind : ∀ a, all.find? (fun other => name other == name a) = some a) {s : String} {a : α} :
    all.find? (fun other => name other == s) = some a ↔ name a = s := by
  constructor
  · intro h
    have hname : (name a == s) = true := List.find?_some (p := fun other => name other == s) h
    exact beq_iff_eq.mp hname
  · intro h
    rw [← h]
    exact hfind a

theorem ElementKind.ofName?_eq_some_iff {name : String} {kind : ElementKind} :
    ElementKind.ofName? name = some kind ↔ kind.name = name :=
  find?_name_eq_some_iff fun kind => by cases kind <;> rfl

namespace BindArray

/-- The elements of an array, each null or in the form of its kind. -/
def Holds (docs : List Document) : BindArray → Prop
  | .bool items => List.Forall₂ (IsOption fun d b => d = .bool b) docs items
  | .int items => List.Forall₂ (IsOption IsInt64) docs items
  | .float items => List.Forall₂ (IsOption IsFloat) docs items
  | .decimal items => List.Forall₂ (IsOption Decimal.Stored) docs items
  | .string items => List.Forall₂ (IsOption fun d s => d = .string (some s)) docs items
  | .timestamp items => List.Forall₂ (IsOption Timestamp.Stored) docs items
  | .date items => List.Forall₂ (IsOption Date.Stored) docs items

/-- The names of the kinds of elements. -/
def caseNames : List String :=
  ["Bool", "Int", "Float", "Decimal", "String", "Timestamp", "Date"]

/-- An array: the kind of its elements by name, and the elements. -/
def Stored (early : Bool) (depth : Nat) (d : Document) (a : BindArray) : Prop :=
  ∃ docs kept, IsTagged early (depth - 1) caseNames "type" "elements" d
    ⟨a.elementKind.name, some (.array docs), kept⟩ ∧ a.Holds docs

/-- The elements of one kind as an array. -/
theorem map_optionItems?_eq_some_iff {α : Type} {read : Document → Option α}
    {P : Document → α → Prop} {wrap : List (Option α) → BindArray}
    (hread : ∀ d x, read d = some x ↔ P d x) (hnull : read .null = none) {docs : List Document}
    {a : BindArray} :
    (optionItems? read docs).map wrap = some a ↔
      ∃ items, a = wrap items ∧ List.Forall₂ (IsOption P) docs items := by
  have hnone : ∀ x, ¬ P .null x := fun x hx => by
    rw [← hread, hnull] at hx
    cases hx
  simp only [Option.map_eq_some_iff, optionItems?_eq_some_iff hread hnone]
  constructor
  · intro ⟨items, hitems, h⟩
    exact ⟨items, h.symm, hitems⟩
  · intro ⟨items, h, hitems⟩
    exact ⟨items, hitems, h.symm⟩

theorem ofElements?_eq_some_iff {kind : ElementKind} {docs : List Document} {a : BindArray} :
    ofElements? kind docs = some a ↔ a.elementKind = kind ∧ a.Holds docs := by
  cases kind with
  | bool =>
      rw [ofElements?, map_optionItems?_eq_some_iff (fun _ _ => bool?_eq_some_iff) rfl]
      cases a <;> simp [elementKind, Holds]
  | int =>
      rw [ofElements?, map_optionItems?_eq_some_iff (fun _ _ => int64?_eq_some_iff) rfl]
      cases a <;> simp [elementKind, Holds]
  | float =>
      rw [ofElements?, map_optionItems?_eq_some_iff (fun _ _ => float?_eq_some_iff) rfl]
      cases a <;> simp [elementKind, Holds]
  | decimal =>
      rw [ofElements?, map_optionItems?_eq_some_iff (fun _ _ => Decimal.ofStored?_eq_some_iff) rfl]
      cases a <;> simp [elementKind, Holds]
  | string =>
      rw [ofElements?, map_optionItems?_eq_some_iff (fun _ _ => string?_eq_some_iff) rfl]
      cases a <;> simp [elementKind, Holds]
  | timestamp =>
      rw [ofElements?,
        map_optionItems?_eq_some_iff (fun _ _ => Timestamp.ofStored?_eq_some_iff) rfl]
      cases a <;> simp [elementKind, Holds]
  | date =>
      rw [ofElements?, map_optionItems?_eq_some_iff (fun _ _ => Date.ofStored?_eq_some_iff) rfl]
      cases a <;> simp [elementKind, Holds]

theorem ofStored?_eq_some_iff {early : Bool} {depth : Nat} {d : Document} {a : BindArray} :
    ofStored? early depth d = some a ↔ Stored early depth d a := by
  have hne : "type" ≠ "elements" := by decide
  constructor
  · intro h
    obtain ⟨⟨tag, content, kept⟩, htagged, h⟩ := Option.bind_eq_some_iff.mp h
    obtain ⟨kind, hkind, h⟩ := Option.bind_eq_some_iff.mp h
    obtain ⟨value, hcontent, h⟩ := Option.bind_eq_some_iff.mp h
    obtain ⟨docs, hdocs, h⟩ := Option.bind_eq_some_iff.mp h
    obtain ⟨rfl, hholds⟩ := ofElements?_eq_some_iff.mp h
    obtain rfl : content = some value := hcontent
    obtain rfl := items?_eq_some_iff.mp hdocs
    obtain rfl := ElementKind.ofName?_eq_some_iff.mp hkind
    exact ⟨docs, kept, (tagged?_eq_some_iff hne).mp htagged, hholds⟩
  · intro ⟨docs, kept, htagged, hholds⟩
    have hread := (tagged?_eq_some_iff hne).mpr htagged
    have hkind : ElementKind.ofName? a.elementKind.name = some a.elementKind :=
      ElementKind.ofName?_eq_some_iff.mpr rfl
    have hitems : (Document.array docs).items? = some docs := rfl
    have helements := ofElements?_eq_some_iff.mpr ⟨rfl, hholds⟩
    simp only [ofStored?, show ElementKind.all.map ElementKind.name = caseNames from rfl, hread,
      hkind, hitems, helements, Option.bind_eq_bind, Option.bind_some]

end BindArray

/-! ## Binds -/

namespace Bind

/-- The content of a stored bind of a kind that elements can have. -/
inductive StoredScalar : ElementKind → Document → Bind → Prop
  | bool (b : Bool) : StoredScalar .bool (.bool b) (.bool b)
  | int {d : Document} {k : Int64} : d.IsInt64 k → StoredScalar .int d (.int k)
  | float {d : Document} {x : Binary64} : d.IsFloat x → StoredScalar .float d (.float x)
  | decimal {d : Document} {x : Decimal} : Decimal.Stored d x →
      StoredScalar .decimal d (.decimal x)
  | string (s : String) : StoredScalar .string (.string (some s)) (.string s)
  | timestamp {d : Document} {t : Timestamp} : Timestamp.Stored d t →
      StoredScalar .timestamp d (.timestamp t)
  | date {d : Document} {day : Date} : Date.Stored d day → StoredScalar .date d (.date day)

/-- The name and the content of a stored bind. -/
inductive StoredContent (depth : Nat) : Tagged → Bind → Prop
  | null {early : Bool} : StoredContent depth ⟨"Null", none, early⟩ .null
  | nullValue {early : Bool} : StoredContent depth ⟨"Null", some .null, early⟩ .null
  | scalar {early : Bool} {kind : ElementKind} {d : Document} {v : Bind} :
      StoredScalar kind d v → StoredContent depth ⟨kind.name, some d, early⟩ v
  | json {early : Bool} {d : Document} {j : Json} : d.Means depth j →
      StoredContent depth ⟨"Json", some d, early⟩ (.json j)
  | array {early : Bool} {d : Document} {a : BindArray} : BindArray.Stored early depth d a →
      StoredContent depth ⟨"Array", some d, early⟩ (.array a)

/-- A bind in its stored form, containers nested at most `depth` deep. -/
def Stored (depth : Nat) (d : Document) (v : Bind) : Prop :=
  ∃ t, IsTagged false (depth - 1) caseNames "type" "value" d t ∧ StoredContent (depth - 1) t v

theorem ofScalar?_eq_some_iff {kind : ElementKind} {d : Document} {v : Bind} :
    ofScalar? kind d = some v ↔ StoredScalar kind d v := by
  constructor
  · intro h
    cases kind with
    | bool =>
        obtain ⟨b, hb, rfl⟩ := Option.map_eq_some_iff.mp h
        rw [bool?_eq_some_iff.mp hb]
        exact .bool b
    | int =>
        obtain ⟨k, hk, rfl⟩ := Option.map_eq_some_iff.mp h
        exact .int (int64?_eq_some_iff.mp hk)
    | float =>
        obtain ⟨x, hx, rfl⟩ := Option.map_eq_some_iff.mp h
        exact .float (float?_eq_some_iff.mp hx)
    | decimal =>
        obtain ⟨x, hx, rfl⟩ := Option.map_eq_some_iff.mp h
        exact .decimal (Decimal.ofStored?_eq_some_iff.mp hx)
    | string =>
        obtain ⟨s, hs, rfl⟩ := Option.map_eq_some_iff.mp h
        rw [string?_eq_some_iff.mp hs]
        exact .string s
    | timestamp =>
        obtain ⟨t, ht, rfl⟩ := Option.map_eq_some_iff.mp h
        exact .timestamp (Timestamp.ofStored?_eq_some_iff.mp ht)
    | date =>
        obtain ⟨day, hday, rfl⟩ := Option.map_eq_some_iff.mp h
        exact .date (Date.ofStored?_eq_some_iff.mp hday)
  · intro h
    cases h with
    | bool b => rfl
    | int hk => rw [ofScalar?, int64?_eq_some_iff.mpr hk, Option.map_some]
    | float hx => rw [ofScalar?, float?_eq_some_iff.mpr hx, Option.map_some]
    | decimal hx => rw [ofScalar?, Decimal.ofStored?_eq_some_iff.mpr hx, Option.map_some]
    | string s => rfl
    | timestamp ht => rw [ofScalar?, Timestamp.ofStored?_eq_some_iff.mpr ht, Option.map_some]
    | date hday => rw [ofScalar?, Date.ofStored?_eq_some_iff.mpr hday, Option.map_some]

/-- The reader of a bind, given its name and content. -/
def ofTagged? (depth : Nat) (t : Tagged) : Option Bind :=
  if t.tag = "Null" then
    if t.content.all Document.isNull then some .null else none
  else
    t.content.bind fun content =>
      if t.tag = "Json" then (content.value? depth).map .json
      else if t.tag = "Array" then (BindArray.ofStored? t.early depth content).map .array
      else (ElementKind.ofName? t.tag).bind (ofScalar? · content)

theorem ofStored?_eq_bind (depth : Nat) (d : Document) :
    ofStored? depth d =
      (d.tagged? false (depth - 1) caseNames "type" "value").bind (ofTagged? (depth - 1)) := rfl

/-- No kind of elements is called like one of the other cases. -/
theorem name_ne_of_kind (kind : ElementKind) :
    kind.name ≠ "Null" ∧ kind.name ≠ "Json" ∧ kind.name ≠ "Array" := by
  cases kind <;> decide

theorem ofTagged?_eq_some_iff {depth : Nat} {t : Tagged} {v : Bind} :
    ofTagged? depth t = some v ↔ StoredContent depth t v := by
  constructor
  · intro h
    obtain ⟨tag, content, early⟩ := t
    rw [ofTagged?] at h
    split at h
    · rename_i htag
      obtain rfl : tag = "Null" := htag
      split at h
      · rename_i hnull
        obtain rfl := Option.some.inj h
        cases content with
        | none => exact .null
        | some d =>
            cases d with
            | null => exact .nullValue
            | _ => cases hnull
      · cases h
    · obtain ⟨d, hcontent, h⟩ := Option.bind_eq_some_iff.mp h
      obtain rfl : content = some d := hcontent
      split at h
      · rename_i htag
        obtain rfl : tag = "Json" := htag
        obtain ⟨j, hj, rfl⟩ := Option.map_eq_some_iff.mp h
        exact .json (value?_eq_some_iff.mp hj)
      split at h
      · rename_i htag
        obtain rfl : tag = "Array" := htag
        obtain ⟨a, ha, rfl⟩ := Option.map_eq_some_iff.mp h
        exact .array (BindArray.ofStored?_eq_some_iff.mp ha)
      · obtain ⟨kind, hkind, hscalar⟩ := Option.bind_eq_some_iff.mp h
        obtain rfl := ElementKind.ofName?_eq_some_iff.mp hkind
        exact .scalar (ofScalar?_eq_some_iff.mp hscalar)
  · intro h
    cases h with
    | null => rfl
    | nullValue => rfl
    | @scalar early kind d v hv =>
        obtain ⟨hnull, hjson, harray⟩ := name_ne_of_kind kind
        rw [ofTagged?, if_neg hnull, Option.bind_some, if_neg hjson, if_neg harray,
          ElementKind.ofName?_eq_some_iff.mpr rfl, Option.bind_some, ofScalar?_eq_some_iff.mpr hv]
    | json hj =>
        show (Document.value? _ _).map Bind.json = _
        rw [hj.value?, Option.map_some]
    | array ha =>
        show (BindArray.ofStored? _ _ _).map Bind.array = _
        rw [BindArray.ofStored?_eq_some_iff.mpr ha, Option.map_some]

/-- A document is read as the bind that it stores, and as no other. -/
theorem ofStored?_eq_some_iff {depth : Nat} {d : Document} {v : Bind} :
    ofStored? depth d = some v ↔ Stored depth d v := by
  have hne : "type" ≠ "value" := by decide
  simp only [ofStored?_eq_bind, Option.bind_eq_some_iff, tagged?_eq_some_iff hne,
    ofTagged?_eq_some_iff, Stored]

end Bind

/-! ## Printed binds -/

/-- An array as its stored form spells it: the instants of its timestamps, and its zeros
without signs. -/
def BindArray.restored : BindArray → BindArray
  | .decimal items => .decimal (items.map (·.map Decimal.unsignedZero))
  | .timestamp items => .timestamp (items.map (·.map Timestamp.settled))
  | a => a

namespace Bind

/-- A bind as its stored form spells it. -/
def restored : Bind → Bind
  | .decimal d => .decimal d.unsignedZero
  | .timestamp t => .timestamp t.settled
  | .array a => .array a.restored
  | v => v

/-- A bind that its stored form spells to the last digit, containers nested at most `depth`
deep. -/
def Exact (depth : Nat) : Bind → Prop
  | .float _ => False
  | .array a => a.elementKind ≠ .float
  | .json j => Document.Exact (depth - 1) j
  | _ => True

end Bind

theorem Decimal.stored_text (d : Decimal) :
    Decimal.Stored (.string (some d.text)) d.unsignedZero := by
  refine .text ?_
  rw [text, String.toList_ofList]
  exact d.ofText_chars

theorem Timestamp.stored_rfc3339 (t : Timestamp) :
    Timestamp.Stored (.string (some t.rfc3339)) t.settled :=
  ⟨_, rfl, Calendar.readStoredTimestamp?_rfc3339 t⟩

theorem Date.stored_text (d : Date) : Date.Stored (.string (some d.text)) d := by
  refine ⟨_, rfl, ?_⟩
  rw [text, String.toList_ofList]
  exact Calendar.readStoredDate?_chars d

theorem Json.isInt64_integerText (k : Int64) :
    (Document.number (integerText k.toInt)).IsInt64 k := by
  have hlower := k.minValue_le_toInt
  have hupper := k.toInt_le
  have hmin : Int64.minValue.toInt = -((UInt64.size / 2 : Nat) : Int) := rfl
  have hmax : Int64.maxValue.toInt = (UInt64.size / 2 - 1 : Nat) := rfl
  have hsize : 0 < UInt64.size := by decide
  exact ⟨_, rfl, isInteger_integerText (by omega) (by omega)⟩

namespace BindArray

section Elements

variable {α : Type} {P : Document → α → Prop} {chars : α → List Char} {document : α → Document}

/-- Elements are printed one by one, nulls as nulls. -/
theorem exists_elements {back : α → α} (hspelt : ∀ x, Spells (chars x) (document x))
    (hstored : ∀ x, P (document x) (back x)) (items : List (Option α)) :
    ∃ docs, List.Forall₂ Spells (items.map (·.elim nullChars chars)) docs ∧
      List.Forall₂ (IsOption P) docs (items.map (·.map back)) := by
  induction items with
  | nil => exact ⟨[], .nil, .nil⟩
  | cons item items ih =>
      obtain ⟨docs, hdocs, hitems⟩ := ih
      cases item with
      | none => exact ⟨.null :: docs, .cons .null hdocs, .cons .null hitems⟩
      | some x =>
          exact ⟨document x :: docs, .cons (hspelt x) hdocs, .cons (.value (hstored x)) hitems⟩

theorem exists_elements_self (hspelt : ∀ x, Spells (chars x) (document x))
    (hstored : ∀ x, P (document x) x) (items : List (Option α)) :
    ∃ docs, List.Forall₂ Spells (items.map (·.elim nullChars chars)) docs ∧
      List.Forall₂ (IsOption P) docs items := by
  have hitems := exists_elements hspelt (fun x => show P (document x) (id x) from hstored x) items
  rwa [Option.map_id_fun, List.map_id_fun] at hitems

end Elements

/-- The elements of an array without floats are printed as documents that hold them. -/
theorem exists_documents {a : BindArray} (h : a.elementKind ≠ .float) :
    ∃ docs, List.Forall₂ Spells a.elementChars docs ∧ a.restored.Holds docs := by
  cases a with
  | float items => exact absurd rfl h
  | bool items => exact exists_elements_self spells_bool (fun _ => rfl) items
  | int items =>
      exact exists_elements_self (fun k => spells_integer k.toInt) Json.isInt64_integerText items
  | string items => exact exists_elements_self spells_string (fun _ => rfl) items
  | date items =>
      exact exists_elements_self (P := Date.Stored) (fun day => spells_string day.text)
        Date.stored_text items
  | decimal items =>
      exact exists_elements (P := Decimal.Stored) (fun d => spells_string d.text)
        Decimal.stored_text items
  | timestamp items =>
      exact exists_elements (P := Timestamp.Stored) (fun t => spells_string t.rfc3339)
        Timestamp.stored_rfc3339 items

theorem elementKind_restored (a : BindArray) : a.restored.elementKind = a.elementKind := by
  cases a <;> rfl

end BindArray

/-- An object of a name and a content is a case in the paired form. -/
theorem Json.isTagged_object {early : Bool} {depth : Nat} {names : List String}
    {tagKey contentKey : String} (name : String) (content : Document) :
    IsTagged early depth names tagKey contentKey
      (.object [(some tagKey, .string (some name)), (some contentKey, content)])
      ⟨name, some content, early⟩ :=
  @IsTagged.tagFirst _ _ _ _ _ _ _ _ [] [] [] (.bare name) (by simp [Others])

theorem Json.spells_tagged {tagKey contentKey name : String} {cs : List Char} {d : Document}
    (h : Spells cs d) :
    Spells (objectChars [(tagKey, stringChars name), (contentKey, cs)])
      (.object [(some tagKey, .string (some name)), (some contentKey, d)]) :=
  spells_object (.cons ⟨rfl, spells_string name⟩ (.cons ⟨rfl, h⟩ .nil))

/-- What is printed of an array stores the array. -/
theorem BindArray.exists_document {a : BindArray} (h : a.elementKind ≠ .float) (early : Bool)
    (depth : Nat) : ∃ d, Spells a.storedChars d ∧ a.restored.Stored early depth d := by
  obtain ⟨docs, hdocs, hholds⟩ := exists_documents h
  refine ⟨_, spells_tagged (spells_array hdocs), docs, early, ?_, hholds⟩
  rw [elementKind_restored]
  exact isTagged_object _ _

namespace Bind

/-- What is printed of a bind with a name and a content. -/
theorem stored_tagged {depth : Nat} {name : String} {cs : List Char} {d : Document} {v : Bind}
    (hspelt : Spells cs d)
    (hstored : StoredContent (depth - 1) ⟨name, some d, false⟩ v) :
    ∃ doc, Spells (typedChars name cs) doc ∧ Stored depth doc v :=
  ⟨_, spells_tagged hspelt, _, isTagged_object name d, hstored⟩

/-- What is printed of an exact bind stores the bind. -/
theorem Exact.exists_document {depth : Nat} {v : Bind} (h : v.Exact depth) :
    ∃ d, Spells v.storedChars d ∧ Stored depth d v.restored := by
  cases v with
  | null =>
      refine ⟨.object [(some "type", .string (some "Null"))],
        spells_object (.cons ⟨rfl, spells_string "Null"⟩ .nil), ⟨"Null", none, false⟩, ?_, .null⟩
      exact @IsTagged.alone _ _ _ _ _ _ _ [] [] (.bare "Null") (by simp [Others])
  | bool b => exact stored_tagged (spells_bool b) (.scalar (.bool b))
  | int k => exact stored_tagged (spells_integer k.toInt) (.scalar (.int (isInt64_integerText k)))
  | float x => exact absurd h not_false
  | decimal d => exact stored_tagged (spells_string d.text) (.scalar (.decimal d.stored_text))
  | string s => exact stored_tagged (spells_string s) (.scalar (.string s))
  | timestamp t =>
      exact stored_tagged (spells_string t.rfc3339) (.scalar (.timestamp t.stored_rfc3339))
  | date day => exact stored_tagged (spells_string day.text) (.scalar (.date day.stored_text))
  | json j =>
      obtain ⟨d, hspelt, hmeans⟩ := Document.Exact.exists_document h
      exact stored_tagged hspelt (.json hmeans)
  | array a =>
      obtain ⟨d, hspelt, hstored⟩ := BindArray.exists_document h false (depth - 1)
      exact stored_tagged hspelt (.array hstored)

/-- A text is read as the bind that it stores, and as no other. -/
theorem ofStoredText?_eq_some_iff {cs : List Char} {v : Bind} :
    ofStoredText? cs = some v ↔ ∃ d, SpellsPadded cs d ∧ Stored Document.maxDepth d v := by
  simp only [ofStoredText?, Option.bind_eq_some_iff, Document.ofText?_eq_some_iff,
    ofStored?_eq_some_iff]

/-- An exact bind is read back from its stored form. -/
theorem Exact.ofStoredText?_storedChars {v : Bind} (h : v.Exact Document.maxDepth) :
    ofStoredText? v.storedChars = some v.restored := by
  obtain ⟨d, hspelt, hstored⟩ := h.exists_document
  exact ofStoredText?_eq_some_iff.mpr ⟨d, hspelt.padded, hstored⟩

end Bind

end BoundSql
