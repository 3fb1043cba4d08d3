import BoundSql.Text.Blank
import BoundSql.Text.Digits
import BoundSql.Text.Lowercase
import BoundSql.Binary64.Text
import BoundSql.Text.Integer
import BoundSql.Decimal.Binary
import BoundSql.Calendar.Reader
import BoundSql.Json.Reader
import BoundSql.Lexical.Marker
import BoundSql.Identifier
import BoundSql.Bind.Conversion
import BoundSql.Wire
import BoundSql.ArrayLiteral
import BoundSql.Operator
import BoundSql.Error
import BoundSql.Wire.Encoding
import BoundSql.Wire.Decoding
import BoundSql.Dialect
import BoundSql.Sql.Compiled
import BoundSql.Sql.Field
import BoundSql.Sql.Raw
import BoundSql.Sql.Expr
import BoundSql.Sql.Query
import BoundSql.Sql.Piece
import BoundSql.Sql.Statement
import BoundSql.Executor
import BoundSql.Json.Tagged
import BoundSql.Bind.Stored
import BoundSql.Wire.Stored
import BoundSql.Sql.Stored
import BoundSql.Toml.Reader
import BoundSql.Json.Merge
import BoundSql.Settings.Document
import BoundSql.Settings.Override
import BoundSql.Proofs.Lexical.Runs
import BoundSql.Proofs.Lexical.Closed
import BoundSql.Proofs.Lexical.Automaton
import BoundSql.Proofs.Lexical.IndexLoop
import BoundSql.Proofs.Lexical.Seam
import BoundSql.Proofs.Lexical.Cut
import BoundSql.Proofs.Lexical.Rebase
import BoundSql.Proofs.Lexical.Renumber
import BoundSql.Proofs.Lexical.Occurrence
import BoundSql.Proofs.Lexical.Joined
import BoundSql.Proofs.Identifier.Delimited
import BoundSql.Proofs.Identifier.Token
import BoundSql.Proofs.Sql.Parts
import BoundSql.Proofs.Sql.Pieces
import BoundSql.Proofs.Sql.Declared
import BoundSql.Proofs.Sql.Faults
import BoundSql.Proofs.Sql.Faithful
import BoundSql.Proofs.Sql.Parametric
import BoundSql.Proofs.Identifier.Erasure
import BoundSql.Proofs.Numbering.Mark
import BoundSql.Proofs.Numbering.Between
import BoundSql.Proofs.Numbering.Silent
import BoundSql.Proofs.Identifier.Raised
import BoundSql.Proofs.Identifier.Reads
import BoundSql.Proofs.Numbering.Tidy
import BoundSql.Proofs.Numbering.Weave
import BoundSql.Proofs.Numbering.Clean
import BoundSql.Proofs.Numbering.Parity
import BoundSql.Proofs.Numbering.Reference
import BoundSql.Proofs.Numbering.Gate
import BoundSql.Proofs.Splicing.Moved
import BoundSql.Proofs.Splicing.Site
import BoundSql.Proofs.Numbering.Pointwise
import BoundSql.Proofs.Splicing.Slices
import BoundSql.Proofs.Numbering.Composition
import BoundSql.Proofs.Numbering.SelectList
import BoundSql.Proofs.Condition.NormalForm
import BoundSql.Proofs.Condition.Reading
import BoundSql.Proofs.Condition.Unambiguous
import BoundSql.Proofs.Identifier.Opaque
import BoundSql.Proofs.Json.Grammar
import BoundSql.Proofs.Json.Meaning
import BoundSql.Proofs.Json.Printed
import BoundSql.Proofs.Json.Ordered
import BoundSql.Proofs.Json.Merged
import BoundSql.Proofs.Toml.Ordered
import BoundSql.Proofs.Settings.Restored
import BoundSql.Proofs.Bind.Stored
import BoundSql.Proofs.Sql.Stored
import BoundSql.Proofs.Sql.Accepted
import BoundSql.Proofs.Text.Value
import BoundSql.Proofs.Text.Trim
import BoundSql.Proofs.Text.Lowercase
import BoundSql.Proofs.Settings.Overridden
import BoundSql.Proofs.Identifier.Unquoted
import BoundSql.Proofs.Wire.Literal
import BoundSql.Proofs.Wire.Grammar
import BoundSql.Proofs.Decimal.Printed
import BoundSql.Proofs.Calendar.Printed
import BoundSql.Proofs.Wire.Roundtrip
import BoundSql.Proofs.Wire.Survival
import BoundSql.Proofs.Sql.Unprepared
import BoundSql.Proofs.Sql.History
import BoundSql.Proofs.Identifier.Enclosed
import BoundSql.Proofs.Execution.Forwarding
import BoundSql.Proofs.Condition.Truth
