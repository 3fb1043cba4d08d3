import BoundSql.Json.Merge
import BoundSql.Proofs.Json.Ordered

/-!
# What merging does at each path

A path of keys leads into nested objects (`at?`). Laying one value over another decides path
by path: what the upper value has there counts, objects on both sides are put together, and
where the upper value says nothing the value below shows through (`Overrides`). `merge_overrides`
says that merging does this to all ordered values, that laying the same value on top again
changes nothing, and that the empty object changes no object.

All of it rests on what one step does to one key (`field?_merge_of_none` and
`field?_merge_of_some`). A key that is missing below counts as null there, since every value
replaces null.
-/

namespace BoundSql.Json

/-! ## Paths -/

/-- The fields of an object; another value has none. -/
def fields : Json → List (String × Json)
  | .object fields => fields
  | _ => []

@[simp] theorem fields_object (fields : List (String × Json)) : (object fields).fields = fields :=
  rfl

/-- Whether a value is an object. -/
def isObject : Json → Bool
  | .object _ => true
  | _ => false

/-- The value at a path of keys. -/
def at? : List String → Json → Option Json
  | [], j => some j
  | key :: path, j => (field? key j.fields).bind (at? path)

@[simp] theorem at?_nil (j : Json) : at? [] j = some j := rfl

theorem at?_cons (key : String) (path : List String) (j : Json) :
    at? (key :: path) j = (field? key j.fields).bind (at? path) := rfl

/-- Only an object has a key. -/
theorem isSome_field?_fields_iff {key : String} {j : Json} :
    (field? key j.fields).isSome ↔ ∃ under, j = .object under ∧ (field? key under).isSome := by
  cases j with
  | object under => simp
  | _ => simp [fields, field?]

theorem at?_null {path : List String} (h : path ≠ []) : at? path .null = none := by
  cases path with
  | nil => exact absurd rfl h
  | cons key path => rfl

theorem fields_of_isObject_eq_false {j : Json} (h : j.isObject = false) : j.fields = [] := by
  cases j <;> first | rfl | cases h

/-- What a value laid over another one has at each path. -/
structure Overrides (base upper merged : Json) : Prop where
  /-- A value of the upper side that is no object is taken over. -/
  value : ∀ path v, at? path upper = some v → v.isObject = false → at? path merged = some v
  /-- An object of the upper side gets the keys of the object below, if there is one. -/
  object : ∀ path upperFields, at? path upper = some (.object upperFields) →
    ∃ all, at? path merged = some (.object all) ∧ ∀ key, (field? key all).isSome ↔
      (field? key upperFields).isSome ∨
        ∃ under, at? path base = some (.object under) ∧ (field? key under).isSome
  /-- Where an object of the upper side lacks a key, the lower side shows through. -/
  absent : ∀ path key rest upperFields, at? path upper = some (.object upperFields) →
    field? key upperFields = none →
      at? (path ++ key :: rest) merged = at? (path ++ key :: rest) base
  /-- A value of the upper side that is no object hides everything below it. -/
  hidden : ∀ path key rest v, at? path upper = some v → v.isObject = false →
    at? (path ++ key :: rest) merged = none

/-! ## One key -/

@[simp] theorem merge_null (upper : Json) : merge .null upper = upper := by
  cases upper <;> rfl

theorem merge_of_isObject_eq_false {upper : Json} (h : upper.isObject = false) (base : Json) :
    merge base upper = upper := by
  cases upper <;> first | rfl | cases h

theorem mergeFields_cons (under : List (String × Json)) (key : String) (value : Json)
    (rest : List (String × Json)) :
    mergeFields under ((key, value) :: rest) =
      mergeFields (insertField key (merge ((field? key under).getD .null) value) under) rest := by
  rw [mergeFields]
  cases field? key under <;> simp

/-- A key that is not set keeps its value. -/
theorem field?_mergeFields_of_none {key : String} {under fields : List (String × Json)}
    (h : field? key fields = none) : field? key (mergeFields under fields) = field? key under := by
  induction fields generalizing under with
  | nil => rw [mergeFields]
  | cons field fields ih =>
      obtain ⟨k, v⟩ := field
      rw [field?_cons] at h
      split at h
      · cases h
      · rename_i hne
        rw [mergeFields_cons, ih h, field?_insertField_of_ne (Ne.symm hne)]

/-- A key that is set gets its value, laid over the value that it had. -/
theorem field?_mergeFields_of_some {key : String} {value : Json}
    {under fields : List (String × Json)} (hkeys : SortedKeys fields)
    (h : field? key fields = some value) :
    field? key (mergeFields under fields) =
      some (merge ((field? key under).getD .null) value) := by
  induction fields generalizing under with
  | nil => cases h
  | cons field fields ih =>
      obtain ⟨k, v⟩ := field
      rw [field?_cons] at h
      split at h
      · rename_i hk
        cases h
        subst hk
        rw [mergeFields_cons, field?_mergeFields_of_none hkeys.field?_head_eq_none,
          field?_insertField_self]
      · rename_i hne
        rw [mergeFields_cons, ih hkeys.tail h, field?_insertField_of_ne (Ne.symm hne)]

theorem isSome_field?_mergeFields_iff {key : String} {under fields : List (String × Json)}
    (hkeys : SortedKeys fields) : (field? key (mergeFields under fields)).isSome ↔
      (field? key fields).isSome ∨ (field? key under).isSome := by
  cases hkey : field? key fields with
  | none => simp [field?_mergeFields_of_none hkey]
  | some value => simp [field?_mergeFields_of_some hkeys hkey]

theorem SortedKeys.mergeFields {under fields : List (String × Json)} (h : SortedKeys under) :
    SortedKeys (mergeFields under fields) := by
  induction fields generalizing under with
  | nil => rwa [Json.mergeFields]
  | cons field fields ih =>
      rw [mergeFields_cons]
      exact ih (h.insertField _ _)

theorem mergeFields_nil {fields : List (String × Json)} (h : SortedKeys fields) :
    mergeFields [] fields = fields := by
  refine SortedKeys.ext (SortedKeys.mergeFields List.Pairwise.nil) h ?_
  intro key
  cases hkey : field? key fields with
  | none => rw [field?_mergeFields_of_none hkey]; rfl
  | some value =>
      rw [field?_mergeFields_of_some h hkey]
      simp [field?]

/-- An object laid over any value. -/
theorem merge_object {upperFields : List (String × Json)} (h : SortedKeys upperFields)
    (base : Json) :
    merge base (.object upperFields) = .object (mergeFields base.fields upperFields) := by
  cases base <;> simp only [merge, Json.fields, mergeFields_nil h]

theorem Ordered.sortedKeys {j : Json} (h : Ordered j) : SortedKeys j.fields := by
  cases h <;> first | assumption | exact List.Pairwise.nil

theorem Ordered.of_field? {key : String} {j value : Json} (h : Ordered j)
    (hvalue : field? key j.fields = some value) : Ordered value := by
  have hmem := mem_of_field? hvalue
  cases h with
  | object _ hvalues => exact hvalues _ hmem
  | _ => cases hmem

section Key

variable {base upper : Json} {key : String}

/-- A key that the upper object has gets the upper value, laid over the one below. -/
theorem field?_merge_of_some {value : Json} (hupper : Ordered upper)
    (h : field? key upper.fields = some value) :
    field? key (merge base upper).fields =
      some (merge ((field? key base.fields).getD .null) value) := by
  cases hupper with
  | object hkeys _ =>
      rw [merge_object hkeys]
      exact field?_mergeFields_of_some hkeys h
  | _ => cases h

/-- A key that the upper object lacks keeps the value below. -/
theorem field?_merge_of_none (hupper : Ordered upper) (hobject : upper.isObject = true)
    (h : field? key upper.fields = none) :
    field? key (merge base upper).fields = field? key base.fields := by
  cases hupper with
  | object hkeys _ =>
      rw [merge_object hkeys]
      exact field?_mergeFields_of_none h
  | _ => cases hobject

end Key

/-! ## All paths -/

/-- Below a key that may be missing, null stands for the missing value. -/
theorem at?_getD_null {path : List String} (h : path ≠ []) (present : Option Json) :
    at? path (present.getD .null) = present.bind (at? path) := by
  cases present with
  | none => exact at?_null h
  | some j => rfl

theorem at?_getD_null_eq_object {path : List String} {under : List (String × Json)}
    (present : Option Json) : at? path (present.getD .null) = some (.object under) ↔
      present.bind (at? path) = some (.object under) := by
  cases present with
  | none =>
      cases path with
      | nil => simp
      | cons key path => simp [at?_null]
  | some j => rfl

/-- A step of a path that the upper value takes leads to the values there, merged. -/
theorem at?_cons_merge {base upper value : Json} {key : String} (hupper : Ordered upper)
    (h : field? key upper.fields = some value) (path : List String) :
    at? (key :: path) (merge base upper) =
      at? path (merge ((field? key base.fields).getD .null) value) := by
  rw [at?_cons, field?_merge_of_some hupper h, Option.bind_some]

/-- Merging decides path by path. -/
theorem overrides_merge (base : Json) {upper : Json} (h : Ordered upper) :
    Overrides base upper (merge base upper) where
  value path v hv hobject := by
    induction path generalizing base upper with
    | nil =>
        cases hv
        rw [merge_of_isObject_eq_false hobject]
        rfl
    | cons key path ih =>
        obtain ⟨child, hchild, hv⟩ := Option.bind_eq_some_iff.mp hv
        rw [at?_cons_merge h hchild]
        exact ih _ (h.of_field? hchild) hv
  object path upperFields hfields := by
    induction path generalizing base upper with
    | nil =>
        cases hfields
        have hkeys : SortedKeys upperFields := h.sortedKeys
        refine ⟨mergeFields base.fields upperFields, ?_, fun key => ?_⟩
        · rw [merge_object hkeys, at?_nil]
        · simp only [at?_nil, Option.some.injEq, ← isSome_field?_fields_iff]
          exact isSome_field?_mergeFields_iff hkeys
    | cons key path ih =>
        obtain ⟨child, hchild, hfields⟩ := Option.bind_eq_some_iff.mp hfields
        obtain ⟨all, hall, hkeys⟩ := ih ((field? key base.fields).getD .null) (h.of_field? hchild)
          hfields
        rw [at?_cons_merge h hchild]
        refine ⟨all, hall, fun k => ?_⟩
        simp only [hkeys, at?_getD_null_eq_object, at?_cons]
  absent path key rest upperFields hfields hkey := by
    induction path generalizing base upper with
    | nil =>
        cases hfields
        rw [List.nil_append, at?_cons, at?_cons, field?_merge_of_none h rfl hkey]
    | cons k path ih =>
        obtain ⟨child, hchild, hfields⟩ := Option.bind_eq_some_iff.mp hfields
        rw [List.cons_append, at?_cons_merge h hchild, ih _ (h.of_field? hchild) hfields,
          at?_getD_null (by simp)]
        rfl
  hidden path key rest v hv hobject := by
    induction path generalizing base upper with
    | nil =>
        cases hv
        rw [List.nil_append, at?_cons, merge_of_isObject_eq_false hobject,
          fields_of_isObject_eq_false hobject]
        rfl
    | cons k path ih =>
        obtain ⟨child, hchild, hv⟩ := Option.bind_eq_some_iff.mp hv
        rw [List.cons_append, at?_cons_merge h hchild]
        exact ih _ (h.of_field? hchild) hv

/-! ## The same value again -/

theorem Ordered.getD_field? {j : Json} (h : Ordered j) (key : String) :
    Ordered ((field? key j.fields).getD .null) := by
  cases hvalue : field? key j.fields with
  | none => exact .null
  | some value => exact h.of_field? hvalue

/-- Merging keeps values ordered. -/
theorem Ordered.merge {base upper : Json} (hbase : Ordered base) (hupper : Ordered upper) :
    Ordered (merge base upper) := by
  induction hupper generalizing base with
  | object hkeys hvalues ih =>
      rename_i upperFields
      have hmerged : SortedKeys (mergeFields base.fields upperFields) :=
        SortedKeys.mergeFields hbase.sortedKeys
      rw [merge_object hkeys]
      refine .object hmerged fun field hfield => ?_
      obtain ⟨key, v⟩ := field
      have hvalue := hmerged.field?_of_mem hfield
      cases hkey : field? key upperFields with
      | none =>
          rw [field?_mergeFields_of_none hkey] at hvalue
          exact hbase.of_field? hvalue
      | some value =>
          rw [field?_mergeFields_of_some hkeys hkey] at hvalue
          cases hvalue
          exact ih _ (mem_of_field? hkey) (hbase.getD_field? key)
  | null => exact .null
  | bool b => exact .bool b
  | number n => exact .number n
  | string s => exact .string s
  | array hitems _ => exact .array hitems

/-- Laying a value on top again changes nothing. -/
theorem merge_merge {base upper : Json} (hbase : Ordered base) (hupper : Ordered upper) :
    merge (merge base upper) upper = merge base upper := by
  induction hupper generalizing base with
  | object hkeys hvalues ih =>
      rename_i upperFields
      have hmerged : SortedKeys (mergeFields base.fields upperFields) :=
        SortedKeys.mergeFields hbase.sortedKeys
      rw [merge_object hkeys, merge_object hkeys, fields_object]
      congr 1
      refine SortedKeys.ext (SortedKeys.mergeFields hmerged) hmerged ?_
      intro key
      cases hkey : field? key upperFields with
      | none => exact field?_mergeFields_of_none hkey
      | some value =>
          have hvalue : field? key (mergeFields base.fields upperFields) =
              some (Json.merge ((field? key base.fields).getD .null) value) :=
            field?_mergeFields_of_some hkeys hkey
          rw [field?_mergeFields_of_some hkeys hkey, hvalue, Option.getD_some,
            ih _ (mem_of_field? hkey) (hbase.getD_field? key)]
  | _ => rfl

/-- The empty object changes no object, on either side. -/
theorem merge_empty {j : Json} (h : Ordered j) (hobject : j.isObject = true) :
    merge (.object []) j = j ∧ merge j (.object []) = j := by
  cases h with
  | object hkeys _ =>
      constructor
      · rw [merge_object hkeys, fields_object, mergeFields_nil hkeys]
      · rw [merge_object List.Pairwise.nil, fields_object, mergeFields]
  | _ => cases hobject

/-- One value laid over another overrides it path by path. The same value on top again
changes nothing, and the empty object changes no object. -/
theorem merge_overrides {base upper : Json} (hbase : Ordered base) (hupper : Ordered upper) :
    Overrides base upper (merge base upper) ∧ Ordered (merge base upper) ∧
      merge (merge base upper) upper = merge base upper ∧
      (base.isObject = true → merge (.object []) base = base ∧ merge base (.object []) = base) :=
  ⟨overrides_merge base hupper, hbase.merge hupper, merge_merge hbase hupper,
    merge_empty hbase⟩

theorem merge_overrides_nested :
    let base : Json := .object
      [("a", .object [("b", .bool true), ("c", .number (.int 2))]), ("d", .string "x")]
    let upper : Json := .object
      [("a", .object [("c", .object [("e", .null)])]), ("d", .object [("f", .array [])])]
    let merged : Json := .object
      [("a", .object [("b", .bool true), ("c", .object [("e", .null)])]),
        ("d", .object [("f", .array [])])]
    Ordered base ∧ Ordered upper ∧ merge base upper = merged ∧ Overrides base upper merged ∧
      Ordered merged ∧ merge merged upper = merged ∧ base.isObject = true ∧
      merge (.object []) base = base ∧ merge base (.object []) = base := by
  intro base upper merged
  have hinner : SortedKeys [("b", .bool true), ("c", .number (.int 2))] := by decide
  have hkeys : SortedKeys base.fields := by decide
  have hkeys' : SortedKeys upper.fields := by decide
  have hbase : Ordered base := by
    refine .object hkeys ?_
    simp [hinner]
  have hupper : Ordered upper := by
    refine .object hkeys' ?_
    simp [SortedKeys]
  have hmerged : merge base upper = merged := rfl
  have h := merge_overrides hbase hupper
  rw [hmerged] at h
  exact ⟨hbase, hupper, hmerged, h.1, h.2.1, h.2.2.1, rfl, h.2.2.2 rfl⟩

end BoundSql.Json
