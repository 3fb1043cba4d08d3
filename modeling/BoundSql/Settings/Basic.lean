import BoundSql.Dialect
import BoundSql.Json.Basic

/-!
# Settings

What can be configured: whether to debug, the backend used when none is named,
the identifiers to quote ahead of time, the level of the log, and anything else
under `extra`.

`SettingsCell` holds settings that can be set once.
-/

namespace BoundSql

/-- The settings. -/
structure Settings where
  debug : Bool
  defaultDialect : String
  preload : List String
  logLevel : String
  extra : List (String × Json)
  deriving Repr

namespace Settings

/-- The settings of a program that configures nothing. -/
def default : Settings where
  debug := true
  defaultDialect := "postgresql"
  preload := []
  logLevel := "info"
  extra := []

instance : Inhabited Settings := ⟨default⟩

/-- The settings as a document. -/
def toJson (s : Settings) : Json :=
  .ofFields
    [("debug", .bool s.debug), ("default_dialect", .string s.defaultDialect),
      ("quote_cache", .object [("preload", .array (s.preload.map .string))]),
      ("log_level", .string s.logLevel), ("extra", .object s.extra)]

/-- The dialect that the settings name, with the identifiers to preload written
once. -/
def dialect (s : Settings) : Except Error Dialect :=
  (Backend.parse s.defaultDialect).map fun b => (Dialect.fresh b).noteAll s.preload

end Settings

/-- A place for settings that can be set once. -/
structure SettingsCell where
  value? : Option Settings
  deriving Repr

namespace SettingsCell

/-- A cell that is not set. -/
def empty : SettingsCell := ⟨none⟩

/-- Whether the cell is set. -/
def isConfigured (cell : SettingsCell) : Bool :=
  cell.value?.isSome

/-- Sets the cell, unless it is set. -/
def configure (cell : SettingsCell) (s : Settings) : Except Error Unit × SettingsCell :=
  match cell.value? with
  | none => (.ok (), ⟨some s⟩)
  | some _ => (.error (.configuration .alreadyConfigured), cell)

end SettingsCell

end BoundSql
