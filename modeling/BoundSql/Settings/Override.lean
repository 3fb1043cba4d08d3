import BoundSql.Settings.Basic
import BoundSql.Text.Lowercase

/-!
# Overriding settings

Named variables, of an environment or of any other source, that take the place
of settings. A variable that is not set changes nothing.
-/

namespace BoundSql.Settings

/-- The texts that mean yes, in lowercase. Every other text means no. -/
def affirmations : List String := ["true", "1", "yes"]

/-- The parts of a text between commas, without blanks around them and without
empty ones. -/
def commaList (s : String) : List String :=
  let parts := s.toList.splitOn ','
  (parts.map fun part => String.ofList (Text.trim part)).filter (· ≠ "")

/-- The settings with every variable applied that `lookup` knows. -/
def applyOverrides (lookup : String → Option String) (s : Settings) : Settings where
  debug := (lookup "QUARRY_DEBUG").elim s.debug fun v => Text.lowercase v ∈ affirmations
  logLevel := (lookup "QUARRY_LOG_LEVEL").getD s.logLevel
  defaultDialect :=
    (lookup "QUARRY_DIALECT").elim s.defaultDialect fun v => Text.lowercase (Text.trimString v)
  preload := (lookup "QUARRY_QUOTE_PRELOAD").elim s.preload commaList
  extra := s.extra

end BoundSql.Settings
