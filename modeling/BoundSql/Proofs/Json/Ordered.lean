import BoundSql.Json.Reader
import Mathlib.Data.List.Sort
import Mathlib.Data.String.Basic

/-!
# JSON values are ordered

The fields of an object stand in ascending order of their keys, each key once, at every depth
(`Ordered`). Objects are made by `insertField` and `ofFields`, which keep that order, so every
value that is read from a JSON text is ordered (`ordered_of_ofText?`). Two lists of sorted
fields are equal if they give every key the same value (`SortedKeys.ext`).
-/

namespace BoundSql.Json

/-- Keys in ascending order, each once. -/
def SortedKeys (fields : List (String × Json)) : Prop :=
  fields.Pairwise fun field later => field.1 < later.1

instance (fields : List (String × Json)) : Decidable (SortedKeys fields) :=
  inferInstanceAs (Decidable (fields.Pairwise fun field later => field.1 < later.1))

/-- A value whose objects have sorted keys, at every depth. -/
inductive Ordered : Json → Prop
  | null : Ordered .null
  | bool (b : Bool) : Ordered (.bool b)
  | number (n : JsonNumber) : Ordered (.number n)
  | string (s : String) : Ordered (.string s)
  | array {items : List Json} (hitems : ∀ item ∈ items, Ordered item) : Ordered (.array items)
  | object {fields : List (String × Json)} (hkeys : SortedKeys fields)
      (hvalues : ∀ field ∈ fields, Ordered field.2) : Ordered (.object fields)

attribute [simp] Ordered.null Ordered.bool Ordered.number Ordered.string

@[simp] theorem ordered_array_iff {items : List Json} :
    Ordered (.array items) ↔ ∀ item ∈ items, Ordered item := by
  constructor
  · intro h
    cases h
    assumption
  · exact .array

@[simp] theorem ordered_object_iff {fields : List (String × Json)} :
    Ordered (.object fields) ↔ SortedKeys fields ∧ ∀ field ∈ fields, Ordered field.2 := by
  constructor
  · intro h
    cases h
    exact ⟨by assumption, by assumption⟩
  · intro h
    exact .object h.1 h.2

/-! ## Fields by key -/

theorem field?_cons (key k : String) (v : Json) (fields : List (String × Json)) :
    field? key ((k, v) :: fields) = if k = key then some v else field? key fields := rfl

theorem field?_eq_none_iff {key : String} {fields : List (String × Json)} :
    field? key fields = none ↔ ∀ field ∈ fields, field.1 ≠ key := by
  induction fields with
  | nil => simp [field?]
  | cons field fields ih =>
      obtain ⟨k, v⟩ := field
      rw [field?_cons]
      split
      · rename_i hk
        simp [hk]
      · rename_i hk
        simp [hk, ih]

theorem mem_of_field? {key : String} {value : Json} {fields : List (String × Json)}
    (h : field? key fields = some value) : (key, value) ∈ fields := by
  induction fields with
  | nil => cases h
  | cons field fields ih =>
      obtain ⟨k, v⟩ := field
      rw [field?_cons] at h
      split at h
      · rename_i hk
        cases h
        rw [hk]
        exact List.mem_cons_self ..
      · exact List.mem_cons_of_mem _ (ih h)

namespace SortedKeys

theorem tail {field : String × Json} {fields : List (String × Json)}
    (h : SortedKeys (field :: fields)) : SortedKeys fields :=
  (List.pairwise_cons.mp h).2

/-- The first key is not found again. -/
theorem field?_head_eq_none {key : String} {value : Json} {fields : List (String × Json)}
    (h : SortedKeys ((key, value) :: fields)) : field? key fields = none := by
  rw [field?_eq_none_iff]
  intro field hfield
  exact ne_of_gt ((List.pairwise_cons.mp h).1 field hfield)

theorem field?_of_mem {key : String} {value : Json} {fields : List (String × Json)}
    (h : SortedKeys fields) (hmem : (key, value) ∈ fields) : field? key fields = some value := by
  induction fields with
  | nil => cases hmem
  | cons field fields ih =>
      obtain ⟨k, v⟩ := field
      rw [field?_cons]
      rcases List.mem_cons.mp hmem with heq | hmem
      · cases heq
        exact if_pos rfl
      · have hk : k ≠ key := ne_of_lt ((List.pairwise_cons.mp h).1 _ hmem)
        rw [if_neg hk, ih h.tail hmem]

/-- Sorted fields are determined by the values of the keys. -/
theorem ext {fields others : List (String × Json)} (h : SortedKeys fields)
    (hothers : SortedKeys others) (heq : ∀ key, field? key fields = field? key others) :
    fields = others := by
  have : Std.Antisymm fun field later : String × Json => field.1 < later.1 :=
    ⟨fun _ _ hlt hgt => absurd hgt (lt_asymm hlt)⟩
  have : Std.Irrefl fun field later : String × Json => field.1 < later.1 :=
    ⟨fun _ => lt_irrefl _⟩
  refine List.Pairwise.eq_of_mem_iff h hothers ?_
  intro field
  constructor
  · intro hfield
    exact mem_of_field? (heq field.1 ▸ h.field?_of_mem hfield)
  · intro hfield
    exact mem_of_field? (heq field.1 ▸ hothers.field?_of_mem hfield)

end SortedKeys

/-! ## Setting fields -/

theorem mem_insertField {key : String} {value : Json} {fields : List (String × Json)}
    {field : String × Json} (h : field ∈ insertField key value fields) :
    field = (key, value) ∨ field ∈ fields := by
  induction fields with
  | nil => exact Or.inl (List.mem_singleton.mp h)
  | cons other fields ih =>
      obtain ⟨k, v⟩ := other
      rw [insertField] at h
      split at h
      · rcases List.mem_cons.mp h with heq | h
        · exact Or.inl heq
        · exact Or.inr (List.mem_cons_of_mem _ h)
      · split at h
        · exact List.mem_cons.mp h
        · rcases List.mem_cons.mp h with heq | h
          · exact Or.inr (heq ▸ List.mem_cons_self ..)
          · exact (ih h).imp_right (List.mem_cons_of_mem _)

theorem SortedKeys.insertField {fields : List (String × Json)} (h : SortedKeys fields)
    (key : String) (value : Json) : SortedKeys (insertField key value fields) := by
  induction fields with
  | nil => exact List.pairwise_singleton _ _
  | cons other fields ih =>
      obtain ⟨k, v⟩ := other
      obtain ⟨hfirst, hrest⟩ := List.pairwise_cons.mp h
      rw [Json.insertField]
      split
      · rename_i hk
        subst hk
        exact List.pairwise_cons.mpr ⟨hfirst, hrest⟩
      · rename_i hne
        split
        · rename_i hlt
          refine List.pairwise_cons.mpr ⟨?_, h⟩
          intro field hfield
          rcases List.mem_cons.mp hfield with heq | hfield
          · rw [heq]
            exact hlt
          · exact lt_trans hlt (hfirst field hfield)
        · rename_i hnlt
          have hlt : k < key := lt_of_le_of_ne (not_lt.mp hnlt) (Ne.symm hne)
          refine List.pairwise_cons.mpr ⟨?_, ih hrest⟩
          intro field hfield
          rcases mem_insertField hfield with heq | hfield
          · rw [heq]
            exact hlt
          · exact hfirst field hfield

theorem ordered_insertField {key : String} {value : Json} {fields : List (String × Json)}
    (hfields : ∀ field ∈ fields, Ordered field.2) (hvalue : Ordered value) :
    ∀ field ∈ insertField key value fields, Ordered field.2 := by
  intro field hfield
  rcases mem_insertField hfield with heq | hfield
  · rw [heq]
    exact hvalue
  · exact hfields field hfield

/-- An object made of ordered values is ordered, whatever order its fields come in. -/
theorem ordered_ofFields {fields : List (String × Json)} (h : ∀ field ∈ fields, Ordered field.2) :
    Ordered (ofFields fields) := by
  -- the fields set so far are sorted and ordered
  have hinserted : ∀ done : List (String × Json), SortedKeys done →
      (∀ field ∈ done, Ordered field.2) →
        Ordered (.object (fields.foldl (fun object field => insertField field.1 field.2 object)
          done)) := by
    induction fields with
    | nil => intro done hkeys hvalues; exact .object hkeys hvalues
    | cons field fields ih =>
        intro done hkeys hvalues
        have hfirst := h field (List.mem_cons_self ..)
        have hrest : ∀ field ∈ fields, Ordered field.2 := fun other hother =>
          h other (List.mem_cons_of_mem _ hother)
        exact ih hrest _ (hkeys.insertField _ _) (ordered_insertField hvalues hfirst)
  exact hinserted [] List.Pairwise.nil (by simp)

/-! ## Values that are read -/

namespace Document

mutual

theorem ordered_of_value? : ∀ {depth : Nat} {d : Document} {j : Json},
    value? depth d = some j → Ordered j
  | _, .null, _, h => by
      cases h
      exact .null
  | _, .bool b, _, h => by
      cases h
      exact .bool b
  | _, .number n, _, h => by
      rw [value?] at h
      obtain ⟨value, -, rfl⟩ := Option.map_eq_some_iff.mp h
      exact .number value
  | _, .string s, _, h => by
      rw [value?] at h
      obtain ⟨value, -, rfl⟩ := Option.map_eq_some_iff.mp h
      exact .string value
  | _, .array items, _, h => by
      rw [value?] at h
      split at h
      · cases h
      · obtain ⟨values, hvalues, rfl⟩ := Option.map_eq_some_iff.mp h
        exact .array (ordered_of_values? hvalues)
  | _, .object fields, _, h => by
      rw [value?] at h
      split at h
      · cases h
      · obtain ⟨values, hvalues, rfl⟩ := Option.map_eq_some_iff.mp h
        exact ordered_ofFields (ordered_of_fieldValues? hvalues)

theorem ordered_of_values? : ∀ {depth : Nat} {items : List Document} {values : List Json},
    values? depth items = some values → ∀ value ∈ values, Ordered value
  | _, [], _, h => by
      cases h
      simp
  | _, d :: rest, _, h => by
      rw [values?] at h
      obtain ⟨first, hfirst, h⟩ := Option.bind_eq_some_iff.mp h
      obtain ⟨others, hothers, h⟩ := Option.bind_eq_some_iff.mp h
      cases h
      exact List.forall_mem_cons.mpr ⟨ordered_of_value? hfirst, ordered_of_values? hothers⟩

theorem ordered_of_fieldValues? : ∀ {depth : Nat} {fields : List (Option String × Document)}
    {values : List (String × Json)}, fieldValues? depth fields = some values →
      ∀ field ∈ values, Ordered field.2
  | _, [], _, h => by
      cases h
      simp
  | _, (key, d) :: rest, _, h => by
      rw [fieldValues?] at h
      obtain ⟨name, -, h⟩ := Option.bind_eq_some_iff.mp h
      obtain ⟨first, hfirst, h⟩ := Option.bind_eq_some_iff.mp h
      obtain ⟨others, hothers, h⟩ := Option.bind_eq_some_iff.mp h
      cases h
      exact List.forall_mem_cons.mpr ⟨ordered_of_value? hfirst, ordered_of_fieldValues? hothers⟩

end

end Document

/-- The value that a text spells is ordered. -/
theorem ordered_of_ofText? {cs : List Char} {j : Json} (h : ofText? cs = some j) : Ordered j := by
  obtain ⟨d, -, hvalue⟩ := Option.bind_eq_some_iff.mp h
  exact Document.ordered_of_value? hvalue

end BoundSql.Json
