import BoundSql.Json.Merge
import BoundSql.Json.Reader
import BoundSql.Settings.Basic
import BoundSql.Toml.Reader

/-!
# Settings from documents

A document is laid over the default settings as JSON, and the result is read as
settings. So a document names only what differs from the defaults, and keys that
no setting has do no harm.

A document that is not an object replaces the defaults as a whole; an array is
then read as the settings in their order.
-/

namespace BoundSql.Settings

/-! ## Fields -/

/-- A boolean. -/
def boolOf? : Json → Option Bool
  | .bool b => some b
  | _ => none

/-- A string. -/
def stringOf? : Json → Option String
  | .string s => some s
  | _ => none

/-- Strings in order. -/
def stringsOf? : List Json → Option (List String)
  | [] => some []
  | j :: rest =>
      match stringOf? j with
      | some s => (stringsOf? rest).map (s :: ·)
      | none => none

/-- The strings of an array. -/
def stringListOf? : Json → Option (List String)
  | .array items => stringsOf? items
  | _ => none

/-- The identifiers to preload, alone in an object or in an array. -/
def preloadOf? : Json → Option (List String)
  | .object fields => (Json.field? "preload" fields).bind stringListOf?
  | .array [preload] => stringListOf? preload
  | _ => none

/-- The fields of an object. -/
def fieldsOf? : Json → Option (List (String × Json))
  | .object fields => some fields
  | _ => none

/-! ## Documents -/

/-- Settings from their five values. -/
def ofValues? (debug dialect cache level extra : Json) : Option Settings := do
  return ⟨← boolOf? debug, ← stringOf? dialect, ← preloadOf? cache, ← stringOf? level,
    ← fieldsOf? extra⟩

/-- Settings from a whole document. -/
def ofJson? : Json → Option Settings
  | .object fields => do
      ofValues? (← Json.field? "debug" fields) (← Json.field? "default_dialect" fields)
        (← Json.field? "quote_cache" fields) (← Json.field? "log_level" fields)
        (← Json.field? "extra" fields)
  | .array [debug, dialect, cache, level, extra] => ofValues? debug dialect cache level extra
  | _ => none

/-- Settings from a document laid over the defaults. -/
def overDefaults? (document : Json) : Option Settings :=
  ofJson? (Json.merge default.toJson document)

/-- Settings from a text in one of the formats. -/
def ofText (format : DocumentFormat) (text : String) : Except Error Settings :=
  let document :=
    match format with
    | .toml => Toml.read? text
    | .json => Json.ofText? text.toList
  match document with
  | none => .error (.configuration (.malformed format))
  | some j =>
      match overDefaults? j with
      | some s => .ok s
      | none => .error (.configuration (.unfit format))

/-- Settings from a TOML file, given what it holds if it exists. -/
def ofTomlFile (path : String) (content : Option String) : Except Error Settings :=
  match content with
  | some text => ofText .toml text
  | none => .error (.configuration (.missingFile path))

end BoundSql.Settings
