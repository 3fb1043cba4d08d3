import BoundSql.Toml.Scalar
import BoundSql.Toml.Table

/-!
# Reading TOML

A document is read line by line: comments, headers and assignments. The tables
that it describes are kept as `Entries` and turned into one JSON object at the
end, so the rest of the library knows JSON only.
-/

namespace BoundSql.Toml

/-- How many containers may stand inside each other, and how many keys may be
joined by dots. -/
def depthLimit : Nat := 79

/-! ## Lines and keys -/

/-- The text behind a comment, if one follows. -/
def skipComment : List Char → List Char
  | '#' :: cs => cs.dropWhile isPrintable
  | cs => cs

/-- The text behind the end of a line, which may hold blanks and a comment. -/
def endLine? (cs : List Char) : Option (List Char) :=
  match skipComment (skipSpace cs) with
  | [] => some []
  | rest => afterNewline? rest

/-- Blanks, line ends and comments between the items of an array. Each round
takes a line, so the length of the text bounds the rounds. -/
def skipLines : Nat → List Char → Option (List Char)
  | 0, cs => some cs
  | rounds + 1, cs =>
      match skipBlankLines cs with
      | '#' :: rest => (afterNewline? (rest.dropWhile isPrintable)).bind (skipLines rounds)
      | rest => some rest

/-- Characters of keys without quotes. -/
def isBareKey (c : Char) : Bool :=
  c.isAlphanum || c == '_' || c == '-'

/-- One key: bare, or a string on one line. -/
def simpleKey? : List Char → Option (String × List Char)
  | '"' :: cs => (basicBody? cs).map fun r => (String.ofList r.1, r.2)
  | '\'' :: cs => (literalBody? cs).map fun r => (String.ofList r.1, r.2)
  | cs =>
      let key := cs.takeWhile isBareKey
      if key.isEmpty then none else some (String.ofList key, cs.drop key.length)

/-- A dotted key of at most `limit` keys: all but the last, the last, and the
text behind. -/
def dottedKey? : Nat → List Char → Option (List String × String × List Char)
  | 0, _ => none
  | limit + 1, cs => do
      let (key, rest) ← simpleKey? (skipSpace cs)
      match skipSpace rest with
      | '.' :: more =>
          let (keys, last, tail) ← dottedKey? limit more
          return (key :: keys, last, tail)
      | tail => return ([], key, tail)

/-! ## Values -/

mutual

/-- A value with containers nested at most `depth` deep. Every call takes a
character off the text before it calls again, so the length of the text bounds
the number of nested calls. -/
def value? : Nat → Nat → List Char → Option (Json × List Char)
  | 0, _, _ => none
  | fuel + 1, depth, cs =>
      match cs with
      | '[' :: rest => if depth = 0 then none else items? fuel (depth - 1) [] rest
      | '{' :: rest =>
          if depth = 0 then none
          else
            match skipSpace rest with
            | '}' :: tail => some (.object [], tail)
            | body => pairs? fuel (depth - 1) [] body
      | _ => scalarValue? cs

/-- The items of an array behind those in `done`, the latest of them first. A
comma may stand behind the last item. -/
def items? : Nat → Nat → List Json → List Char → Option (Json × List Char)
  | 0, _, _, _ => none
  | fuel + 1, depth, done, cs => do
      match ← skipLines cs.length cs with
      | ']' :: tail => return (.array done.reverse, tail)
      | body =>
          let (item, rest) ← value? fuel depth body
          match ← skipLines rest.length rest with
          | ',' :: tail => items? fuel depth (item :: done) tail
          | ']' :: tail => return (.array (item :: done).reverse, tail)
          | _ => none

/-- The assignments of an inline table behind those in `done`. -/
def pairs? : Nat → Nat → Entries → List Char → Option (Json × List Char)
  | 0, _, _, _ => none
  | fuel + 1, depth, done, cs => do
      let (keys, last, rest) ← dottedKey? depthLimit cs
      let body ← after? '=' rest
      let (value, behind) ← value? fuel depth (skipSpace body)
      let entries ← assign? keys last value done
      match skipSpace behind with
      | ',' :: tail => pairs? fuel depth entries tail
      | '}' :: tail => return (.ofFields (fieldsOf entries), tail)
      | _ => none

end

/-! ## Documents -/

/-- The tables read so far, and the header under which assignments stand. -/
structure State where
  root : Entries
  header : List String

namespace State

/-- Before the first line. -/
def start : State := ⟨[], []⟩

/-- Opens the table of a header. -/
def enter? (s : State) (parents : List String) (last : String) : Option State :=
  (openTable? parents last s.root).map (⟨·, parents ++ [last]⟩)

/-- Opens one more table of an array. -/
def enterItem? (s : State) (parents : List String) (last : String) : Option State :=
  (openItem? parents last s.root).map (⟨·, parents ++ [last]⟩)

/-- Sets a value under the present header. -/
def assign? (s : State) (keys : List String) (last : String) (value : Json) : Option State :=
  (assignUnder? s.header keys last value s.root).map (⟨·, s.header⟩)

end State

/-- One line that is not empty, and the text behind it. -/
def line? (s : State) : List Char → Option (State × List Char)
  | '[' :: '[' :: cs => do
      let (keys, last, rest) ← dottedKey? depthLimit cs
      let tail ← (after? ']' rest).bind (after? ']') |>.bind endLine?
      return (← s.enterItem? keys last, tail)
  | '[' :: cs => do
      let (keys, last, rest) ← dottedKey? depthLimit cs
      let tail ← (after? ']' rest).bind endLine?
      return (← s.enter? keys last, tail)
  | cs => do
      let (keys, last, rest) ← dottedKey? depthLimit cs
      let body ← after? '=' rest
      let (value, behind) ← value? (2 * body.length + 2) depthLimit (skipSpace body)
      let tail ← endLine? behind
      return (← s.assign? keys last value, tail)

/-- All lines. Every round takes at least one character off the text. -/
def lines? : Nat → State → List Char → Option State
  | 0, s, cs => if cs.isEmpty then some s else none
  | rounds + 1, s, cs =>
      match skipSpace cs with
      | [] => some s
      | '#' :: rest => (endLine? ('#' :: rest)).bind (lines? rounds s)
      | '\n' :: rest => lines? rounds s rest
      | '\r' :: '\n' :: rest => lines? rounds s rest
      | rest => (line? s rest).bind fun (next, tail) => lines? rounds next tail

/-- A byte order mark at the start of a document is skipped. -/
def skipByteOrderMark : List Char → List Char
  | c :: cs => if c.toNat = 0xfeff then cs else c :: cs
  | [] => []

/-- The object that a document describes. -/
def read? (text : String) : Option Json :=
  let cs := skipByteOrderMark text.toList
  (lines? (cs.length + 1) .start cs).map fun s => .ofFields (fieldsOf s.root)

end BoundSql.Toml
