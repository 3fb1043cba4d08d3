import BoundSql.Proofs.Text.Lowercase
import BoundSql.Proofs.Text.Trim
import BoundSql.Settings.Override

/-!
# A dialect from a variable

A variable that overrides the dialect is trimmed and lowercased before it is stored, and the
stored text is trimmed and lowercased once more when the dialect is built, the first time by
the full map and the second time by that of ASCII letters. A variable that is used directly is
only read in the second way. Both ways lead to the same backend
(`Settings.dialect_applyOverrides_iff`): names of backends are ASCII, and there is no `k` in
them, so that not even a Kelvin sign is taken for one of their letters.
-/

namespace BoundSql

namespace Backend

/-- The texts that are looked up as backends. -/
def spellings : List String :=
  ["postgresql", "postgres", "pg", "mysql", "sqlite", "sqlite3"]

theorem ascii_of_mem_spellings :
    ∀ word ∈ spellings, ∀ d ∈ word.toList, d.toNat < 128 ∧ d ≠ 'k' := by
  have hall : spellings.all fun word =>
      word.toList.all fun d => decide (d.toNat < 128) && d != 'k' := by decide
  simpa using hall

/-- Two texts that equal the same spellings stand for the same backend. -/
theorem ofSpelling?_congr {s t : String} (h : ∀ word ∈ spellings, s = word ↔ t = word) :
    ofSpelling? s = ofSpelling? t := by
  have hpostgresql := h "postgresql" (by decide)
  have hpostgres := h "postgres" (by decide)
  have hpg := h "pg" (by decide)
  have hmysql := h "mysql" (by decide)
  have hsqlite := h "sqlite" (by decide)
  have hsqlite3 := h "sqlite3" (by decide)
  simp only [ofSpelling?, hpostgresql, hpostgres, hpg, hmysql, hsqlite, hsqlite3]

theorem normalise_eq_iff (s word : String) :
    normalise s = word ↔ (Text.trim s.toList).map Char.toLower = word.toList := by
  rw [← String.toList_inj, normalise, Text.asciiLowercase, String.toList_map,
    Text.toList_trimString]

/-- Lowercasing first does not change which spelling a text is normalised to. -/
theorem normalise_lowercase_eq_iff {word : String} (h : word ∈ spellings) (s : String) :
    normalise (Text.lowercase (Text.trimString s)) = word ↔ normalise s = word := by
  have htrimmed : Text.Trimmed (Text.trim s.toList) := (Text.trim_eq_iff.mp rfl).1
  rw [normalise_eq_iff, normalise_eq_iff, Text.lowercase, String.toList_ofList,
    Text.toList_trimString, (htrimmed.lowercaseFrom []).trim]
  exact Text.map_toLower_lowercaseFrom_eq_iff [] (ascii_of_mem_spellings word h)

theorem parse_eq_ok_iff {s : String} {b : Backend} :
    parse s = .ok b ↔ ofSpelling? (normalise s) = some b := by
  rw [parse]
  cases ofSpelling? (normalise s) <;> simp

/-- Lowercasing first does not change which backend a text stands for. -/
theorem parse_lowercase_iff (s : String) (b : Backend) :
    parse (Text.lowercase (Text.trimString s)) = .ok b ↔ parse s = .ok b := by
  have hspelling : ofSpelling? (normalise (Text.lowercase (Text.trimString s))) =
      ofSpelling? (normalise s) :=
    ofSpelling?_congr fun _ hword => normalise_lowercase_eq_iff hword s
  rw [parse_eq_ok_iff, parse_eq_ok_iff, hspelling]

end Backend

namespace Settings

/-- A dialect is built for the backend that the settings name. -/
theorem exists_dialect_iff (s : Settings) (b : Backend) :
    (∃ d, s.dialect = .ok d ∧ d.backend = b) ↔ Backend.parse s.defaultDialect = .ok b := by
  rw [dialect]
  cases Backend.parse s.defaultDialect with
  | error e => simp [Except.map]
  | ok found => simp [Except.map, Dialect.fresh]

/-- A variable that overrides the dialect of any settings leads to the backend that its text
stands for by itself, and to none if it stands for none. -/
theorem dialect_applyOverrides_iff (s : Settings) {lookup : String → Option String} {v : String}
    (h : lookup "QUARRY_DIALECT" = some v) (b : Backend) :
    (∃ d, (s.applyOverrides lookup).dialect = .ok d ∧ d.backend = b) ↔
      Backend.parse v = .ok b := by
  have hstored : (s.applyOverrides lookup).defaultDialect =
      Text.lowercase (Text.trimString v) := by
    rw [applyOverrides, h]
    rfl
  rw [exists_dialect_iff, hstored, Backend.parse_lowercase_iff]

theorem dialect_applyOverrides_iff_dotted :
    let named (v name : String) : Option String := if name = "QUARRY_DIALECT" then some v else none
    let padded := "\u3000SQLite3\t"
    let dotted := "SQL\u0130TE"
    named padded "QUARRY_DIALECT" = some padded ∧ named dotted "QUARRY_DIALECT" = some dotted ∧
      (∃ d, (default.applyOverrides (named padded)).dialect = .ok d ∧ d.backend = .sqlite) ∧
      ∀ b, ¬∃ d, (default.applyOverrides (named dotted)).dialect = .ok d ∧ d.backend = b := by
  intro named padded dotted
  have hpadded : named padded "QUARRY_DIALECT" = some padded := rfl
  have hdotted : named dotted "QUARRY_DIALECT" = some dotted := rfl
  have haccepted : Backend.parse padded = .ok .sqlite := by cbv
  have hrefused : Backend.parse dotted =
      .error (.configuration (.unknownBackend "sql\u0130te")) := by cbv
  refine ⟨hpadded, hdotted, ?_, ?_⟩
  · exact (dialect_applyOverrides_iff default hpadded .sqlite).mpr haccepted
  · intro b
    rw [dialect_applyOverrides_iff default hdotted b, hrefused]
    intro h
    cases h

end Settings

end BoundSql
