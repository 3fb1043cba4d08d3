import BoundSql.Proofs.Json.Merged
import BoundSql.Proofs.Toml.Ordered
import BoundSql.Settings.Document

/-!
# Settings that are written and loaded again

Settings are written as an object of five keys. Loaded again, they are what they were; where
keys of the document were deleted, the defaults stand for those settings and for no other
(`Settings.defaulted`), and keys that no setting has are not seen.

A load reads five keys of the document laid over the defaults, so that it depends on the
document only through these keys (`overDefaults?_object`). What is under `extra` is data: it may
hold keys named like settings. Its keys are sorted in all settings that are loaded from a text
(`sortedKeys_of_ofText`), so those are restored (`overDefaults?_toJson_of_ofText`).
-/

namespace BoundSql

/-! ## Deleting keys -/

namespace Json

/-- An object without some of its keys. -/
def without (dropped : List String) : Json → Json
  | .object fields => .object (fields.filter fun field => field.1 ∉ dropped)
  | other => other

/-- An object with the value of one key changed. -/
def adjust (key : String) (change : Json → Json) : Json → Json
  | .object fields =>
      .object (fields.map fun field =>
        (field.1, if field.1 = key then change field.2 else field.2))
  | other => other

theorem sortedKeys_iff {fields : List (String × Json)} :
    SortedKeys fields ↔ (fields.map (·.1)).Pairwise (· < ·) :=
  List.pairwise_map.symm

theorem SortedKeys.filter {fields : List (String × Json)} (h : SortedKeys fields)
    (keep : String × Json → Bool) : SortedKeys (fields.filter keep) :=
  List.Pairwise.filter keep h

/-- Filtering by keys keeps the values of the keys that are kept. -/
theorem field?_filter (keep : String → Bool) (key : String) (fields : List (String × Json)) :
    field? key (fields.filter fun field => keep field.1) =
      if keep key then field? key fields else none := by
  induction fields with
  | nil => simp [field?]
  | cons field fields ih =>
      obtain ⟨k, v⟩ := field
      rw [List.filter_cons]
      by_cases hk : k = key
      · subst hk
        cases hkeep : keep k <;> simp [field?_cons, hkeep, ih]
      · cases keep k <;> simp [field?_cons, hk, ih]

end Json

namespace Settings

open Json (SortedKeys field? merge mergeFields)

/-! ## The keys of a load -/

/-- The keys that settings are read from. -/
def keys : List String := ["debug", "default_dialect", "extra", "log_level", "quote_cache"]

/-- The value of a key in a document laid over the defaults. -/
def layered (fields : List (String × Json)) (key : String) : Json :=
  (field? key (mergeFields default.toJson.fields fields)).getD .null

theorem isSome_field?_default : ∀ key ∈ keys, (field? key default.toJson.fields).isSome := by
  decide

theorem layered_of_none {fields : List (String × Json)} {key : String}
    (h : field? key fields = none) :
    layered fields key = (field? key default.toJson.fields).getD .null := by
  rw [layered, Json.field?_mergeFields_of_none h]

theorem layered_of_some {fields : List (String × Json)} {key : String} {value : Json}
    (hkeys : SortedKeys fields) (h : field? key fields = some value) :
    layered fields key = merge ((field? key default.toJson.fields).getD .null) value := by
  rw [layered, Json.field?_mergeFields_of_some hkeys h, Option.getD_some]

/-- A load reads the five keys of the document laid over the defaults. -/
theorem overDefaults?_object {fields : List (String × Json)} (h : SortedKeys fields) :
    overDefaults? (.object fields) =
      ofValues? (layered fields "debug") (layered fields "default_dialect")
        (layered fields "quote_cache") (layered fields "log_level") (layered fields "extra") := by
  have hlayered : ∀ key ∈ keys,
      field? key (mergeFields default.toJson.fields fields) = some (layered fields key) := by
    intro key hkey
    have hsome : (field? key (mergeFields default.toJson.fields fields)).isSome :=
      (Json.isSome_field?_mergeFields_iff h).mpr (Or.inr (isSome_field?_default key hkey))
    obtain ⟨value, hvalue⟩ := Option.isSome_iff_exists.mp hsome
    rw [layered, hvalue]
    rfl
  rw [overDefaults?, Json.merge_object h, ofJson?, hlayered "debug" (by decide),
    hlayered "default_dialect" (by decide), hlayered "quote_cache" (by decide),
    hlayered "log_level" (by decide), hlayered "extra" (by decide)]
  rfl

/-- Keys that no setting has are not seen. -/
theorem overDefaults?_filter {fields : List (String × Json)} (h : SortedKeys fields) :
    overDefaults? (.object (fields.filter fun field => field.1 ∈ keys)) =
      overDefaults? (.object fields) := by
  have hkept : ∀ key ∈ keys, layered (fields.filter fun field => field.1 ∈ keys) key =
      layered fields key := by
    intro key hkey
    have hfield := Json.field?_filter (· ∈ keys) key fields
    rw [if_pos (by simpa using hkey)] at hfield
    cases hvalue : field? key fields with
    | none => rw [layered_of_none hvalue, layered_of_none (hfield.trans hvalue)]
    | some value =>
        rw [layered_of_some h hvalue, layered_of_some (h.filter _) (hfield.trans hvalue)]
  rw [overDefaults?_object h, overDefaults?_object (h.filter _), hkept _ (by decide),
    hkept _ (by decide), hkept _ (by decide), hkept _ (by decide), hkept _ (by decide)]

/-! ## Written settings -/

/-- The settings with the defaults in the place of those whose keys are dropped: keys of the
document, and keys of the cache inside it. -/
def defaulted (s : Settings) (dropped inner : List String) : Settings where
  debug := if "debug" ∈ dropped then default.debug else s.debug
  defaultDialect := if "default_dialect" ∈ dropped then default.defaultDialect else s.defaultDialect
  preload :=
    if "quote_cache" ∈ dropped ∨ "preload" ∈ inner then default.preload else s.preload
  logLevel := if "log_level" ∈ dropped then default.logLevel else s.logLevel
  extra := if "extra" ∈ dropped then default.extra else s.extra

/-- The document of settings without some of its keys, and without some of those of the
cache. -/
def partialJson (s : Settings) (dropped inner : List String) : Json :=
  (s.toJson.adjust "quote_cache" (Json.without inner)).without dropped

theorem stringsOf?_map (names : List String) : stringsOf? (names.map .string) = some names := by
  induction names with
  | nil => rfl
  | cons name names ih => simp [stringsOf?, stringOf?, ih]

theorem ofValues?_eq_some {debug dialect cache level extra : Json} {s : Settings}
    (hdebug : boolOf? debug = some s.debug) (hdialect : stringOf? dialect = some s.defaultDialect)
    (hpreload : preloadOf? cache = some s.preload) (hlevel : stringOf? level = some s.logLevel)
    (hextra : fieldsOf? extra = some s.extra) :
    ofValues? debug dialect cache level extra = some s := by
  rw [ofValues?, hdebug, hdialect, hpreload, hlevel, hextra]
  rfl

/-- The value of a key in a document of which some keys were dropped. -/
theorem layered_dropped {fields : List (String × Json)} {key : String} {value : Json}
    (hkeys : SortedKeys fields) (h : field? key fields = some value) (dropped : List String) :
    layered (fields.filter fun field => field.1 ∉ dropped) key =
      if key ∈ dropped then (field? key default.toJson.fields).getD .null
      else merge ((field? key default.toJson.fields).getD .null) value := by
  have hfield := Json.field?_filter (· ∉ dropped) key fields
  split
  · rename_i hdropped
    exact layered_of_none (hfield.trans (if_neg (by simpa using hdropped)))
  · rename_i hkept
    rw [if_pos (by simpa using hkept)] at hfield
    exact layered_of_some (hkeys.filter _) (hfield.trans h)

/-- The cache of the settings, without some of its keys, laid over the default one. -/
theorem preloadOf?_merge (names inner : List String) :
    preloadOf? (merge (.object [("preload", .array [])])
      (Json.without inner (.object [("preload", .array (names.map .string))]))) =
        some (if "preload" ∈ inner then default.preload else names) := by
  split
  · rename_i h
    rw [Json.without, List.filter_cons_of_neg (by simpa using h)]
    rfl
  · rename_i h
    rw [Json.without, List.filter_cons_of_pos (by simpa using h)]
    exact stringsOf?_map names

/-- Loading a document of settings of which keys were dropped gives the settings with the
defaults for these keys. -/
theorem overDefaults?_partialJson {s : Settings} (hextra : SortedKeys s.extra)
    (dropped inner : List String) :
    overDefaults? (s.partialJson dropped inner) = some (s.defaulted dropped inner) := by
  let cache := Json.without inner (.object [("preload", .array (s.preload.map .string))])
  let fields : List (String × Json) :=
    [("debug", .bool s.debug), ("default_dialect", .string s.defaultDialect),
      ("extra", .object s.extra), ("log_level", .string s.logLevel), ("quote_cache", cache)]
  have hdocument : s.partialJson dropped inner =
      .object (fields.filter fun field => field.1 ∉ dropped) := rfl
  have hkeys : SortedKeys fields :=
    Json.sortedKeys_iff.mpr (by decide : keys.Pairwise (· < ·))
  have hdebug : field? "debug" fields = some (.bool s.debug) := rfl
  have hdialect : field? "default_dialect" fields = some (.string s.defaultDialect) := rfl
  have hcache : field? "quote_cache" fields = some cache := rfl
  have hlevel : field? "log_level" fields = some (.string s.logLevel) := rfl
  have hdata : field? "extra" fields = some (.object s.extra) := rfl
  rw [hdocument, overDefaults?_object (hkeys.filter _), layered_dropped hkeys hdebug,
    layered_dropped hkeys hdialect, layered_dropped hkeys hcache, layered_dropped hkeys hlevel,
    layered_dropped hkeys hdata]
  refine ofValues?_eq_some ?_ ?_ ?_ ?_ ?_
  · rw [defaulted]
    split <;> rfl
  · rw [defaulted]
    split <;> rfl
  · have hloaded := preloadOf?_merge s.preload inner
    by_cases hdropped : "quote_cache" ∈ dropped
    · rw [defaulted, if_pos hdropped]
      simp only [hdropped, true_or, if_true]
      rfl
    · rw [defaulted, if_neg hdropped]
      simp only [hdropped, false_or]
      exact hloaded
  · rw [defaulted]
    split <;> rfl
  · rw [defaulted]
    split
    · rfl
    · show fieldsOf? (.object (mergeFields [] s.extra)) = _
      rw [Json.mergeFields_nil hextra]
      rfl

theorem overDefaults?_toJson {s : Settings} (hextra : SortedKeys s.extra) :
    overDefaults? s.toJson = some s := by
  -- nothing is dropped from the whole document
  have hwhole : s.partialJson [] [] = s.toJson := rfl
  rw [← hwhole]
  exact overDefaults?_partialJson hextra [] []

/-- Settings that are written are loaded again, and what was deleted from the document is
loaded as the default: any of its keys, and the key inside the cache. Keys of a document
that no setting has do not change what is loaded from it. -/
theorem overDefaults?_restores {s : Settings} (hextra : SortedKeys s.extra) :
    overDefaults? s.toJson = some s ∧
      (∀ dropped inner,
        overDefaults? (s.partialJson dropped inner) = some (s.defaulted dropped inner)) ∧
      ∀ fields, SortedKeys fields →
        overDefaults? (.object (fields.filter fun field => field.1 ∈ keys)) =
          overDefaults? (.object fields) :=
  ⟨overDefaults?_toJson hextra, overDefaults?_partialJson hextra,
    fun _ hfields => overDefaults?_filter hfields⟩

theorem overDefaults?_restores_lookalikes :
    let s : Settings :=
      ⟨false, "sqlite", ["users", "id"], "warn",
        [("debug", .bool true), ("quote_cache", .object [("preload", .array [.string "x"])])]⟩
    let document : List (String × Json) :=
      [("Debug", .bool true), ("debug", .bool false), ("preload", .array [.string "x"])]
    SortedKeys s.extra ∧ overDefaults? s.toJson = some s ∧
      overDefaults? (s.partialJson ["debug", "log_level"] ["preload"]) =
        some ⟨true, "sqlite", [], "info", s.extra⟩ ∧
      SortedKeys document ∧
      overDefaults? (.object [("debug", .bool false)]) = overDefaults? (.object document) := by
  intro s document
  have hextra : SortedKeys s.extra := by decide
  have hdocument : SortedKeys document := by decide
  have h := overDefaults?_restores hextra
  exact ⟨hextra, h.1, h.2.1 _ _, hdocument, h.2.2 document hdocument⟩

/-! ## Loaded settings -/

theorem extra_of_ofValues? {debug dialect cache level extra : Json} {s : Settings}
    (h : ofValues? debug dialect cache level extra = some s) : extra = .object s.extra := by
  obtain ⟨_, -, h⟩ := Option.bind_eq_some_iff.mp h
  obtain ⟨_, -, h⟩ := Option.bind_eq_some_iff.mp h
  obtain ⟨_, -, h⟩ := Option.bind_eq_some_iff.mp h
  obtain ⟨_, -, h⟩ := Option.bind_eq_some_iff.mp h
  obtain ⟨fields, hfields, h⟩ := Option.bind_eq_some_iff.mp h
  cases h
  rw [fieldsOf?.eq_def] at hfields
  split at hfields
  · cases hfields
    rfl
  · cases hfields

/-- The data of settings is one of the values of their document. -/
theorem sortedKeys_of_ofJson? {j : Json} {s : Settings} (hj : j.Ordered)
    (h : ofJson? j = some s) : SortedKeys s.extra := by
  rw [ofJson?.eq_def] at h
  split at h
  · obtain ⟨_, -, h⟩ := Option.bind_eq_some_iff.mp h
    obtain ⟨_, -, h⟩ := Option.bind_eq_some_iff.mp h
    obtain ⟨_, -, h⟩ := Option.bind_eq_some_iff.mp h
    obtain ⟨_, -, h⟩ := Option.bind_eq_some_iff.mp h
    obtain ⟨extra, hfield, h⟩ := Option.bind_eq_some_iff.mp h
    have hextra : Json.Ordered extra := hj.of_field? hfield
    rw [extra_of_ofValues? h] at hextra
    exact hextra.sortedKeys
  · rename_i debug dialect cache level extra
    have hextra : Json.Ordered extra := Json.ordered_array_iff.mp hj extra (by simp)
    rw [extra_of_ofValues? h] at hextra
    exact hextra.sortedKeys
  · cases h

theorem ordered_default : default.toJson.Ordered := by
  refine Json.ordered_ofFields ?_
  simp [default, SortedKeys]

/-- The data of settings that are loaded from a text is sorted. -/
theorem sortedKeys_of_ofText {format : DocumentFormat} {text : String} {s : Settings}
    (h : ofText format text = .ok s) : SortedKeys s.extra := by
  simp only [ofText] at h
  split at h
  · cases h
  · rename_i document hread
    have hdocument : Json.Ordered document := by
      cases format with
      | toml => exact Toml.ordered_of_read? hread
      | json => exact Json.ordered_of_ofText? hread
    split at h
    · rename_i loaded hload
      cases h
      exact sortedKeys_of_ofJson? (ordered_default.merge hdocument) hload
    · cases h

/-- What was loaded from a text is loaded again after it was written. -/
theorem overDefaults?_toJson_of_ofText {format : DocumentFormat} {text : String} {s : Settings}
    (h : ofText format text = .ok s) : overDefaults? s.toJson = some s :=
  overDefaults?_toJson (sortedKeys_of_ofText h)

end Settings

end BoundSql
