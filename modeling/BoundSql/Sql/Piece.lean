import BoundSql.Dialect

/-!
# Pieces of SQL

A statement for a backend is a list of pieces: fixed text, identifiers, binds
and whole compiled queries, none of them written out yet. A piece can also be a
failure, which ends the statement where it stands.

Four views of the same list make a compiled query: `failure?` finds the first
failure, `Piece.binds` collects the binds, `names` the identifiers up to a
failure, and `Piece.chars` writes the text. Only `Piece.chars` numbers binds: the
number of a marker is the number of binds before it, plus one. Each view of an
appended list is put together from the views of its parts.
-/

namespace BoundSql

/-- A piece of a statement. -/
inductive Piece where
  | text (s : String)
  | name (ident : String)
  /-- An identifier that is looked up and not written. -/
  | mention (ident : String)
  | bind (value : Bind)
  | fragment (query : Compiled)
  | fail (error : Error)

namespace Piece

/-- The binds of a piece. -/
def ownBinds : Piece → List Bind
  | .bind value => [value]
  | .fragment query => query.binds
  | _ => []

/-- The binds of a list of pieces. -/
def binds (ps : List Piece) : List Bind :=
  ps.flatMap ownBinds

/-- The error of a piece that is a failure. -/
def error? : Piece → Option Error
  | .fail e => some e
  | _ => none

/-- The first failure. -/
def failure? (ps : List Piece) : Option Error :=
  ps.findSome? error?

/-- The identifiers up to the first failure, in order. -/
def names : List Piece → List String
  | [] => []
  | .name ident :: ps => ident :: names ps
  | .mention ident :: ps => ident :: names ps
  | .fail _ :: _ => []
  | _ :: ps => names ps

/-- The text of a piece behind `count` binds, given how identifiers are
written. -/
def ownText (form : String → String) (b : Backend) (count : Nat) : Piece → List Char
  | .text s => s.toList
  | .name ident => (form ident).toList
  | .mention _ => []
  | .bind _ => (b.marker (count + 1)).toList
  | .fragment query => (query.rebasedSql count).toList
  | .fail _ => []

/-- The text of a list of pieces behind `count` binds. -/
def chars (form : String → String) (b : Backend) (count : Nat) : List Piece → List Char
  | [] => []
  | p :: ps => p.ownText form b count ++ chars form b (count + p.ownBinds.length) ps

/-- The compiled query of a list of pieces, or its first failure. -/
def assemble (form : String → String) (b : Backend) (ps : List Piece) : Except Error Compiled :=
  match failure? ps with
  | some e => .error e
  | none => .ok ⟨String.ofList (chars form b 0 ps), binds ps, b⟩

/-- The pieces of lists with commas between them. -/
def commaSeparated : List (List Piece) → List Piece
  | [] => []
  | [ps] => ps
  | ps :: rest => ps ++ .text ", " :: commaSeparated rest

/-! ## Views of appended lists -/

@[simp] theorem binds_nil : binds [] = [] := rfl

@[simp] theorem binds_cons (p : Piece) (ps : List Piece) :
    binds (p :: ps) = p.ownBinds ++ binds ps := rfl

@[simp] theorem binds_append (ps qs : List Piece) : binds (ps ++ qs) = binds ps ++ binds qs :=
  List.flatMap_append

@[simp] theorem failure?_nil : failure? [] = none := rfl

@[simp] theorem failure?_append (ps qs : List Piece) :
    failure? (ps ++ qs) = (failure? ps).or (failure? qs) := by
  simp [failure?, List.findSome?_append]

@[simp] theorem chars_nil (form : String → String) (b : Backend) (count : Nat) :
    chars form b count [] = [] := rfl

@[simp] theorem chars_cons (form : String → String) (b : Backend) (count : Nat) (p : Piece)
    (ps : List Piece) :
    chars form b count (p :: ps) =
      p.ownText form b count ++ chars form b (count + p.ownBinds.length) ps := rfl

theorem chars_append (form : String → String) (b : Backend) (count : Nat) (ps qs : List Piece) :
    chars form b count (ps ++ qs) =
      chars form b count ps ++ chars form b (count + (binds ps).length) qs := by
  induction ps generalizing count with
  | nil => simp
  | cons p ps ih => simp [ih, Nat.add_assoc]

end Piece

end BoundSql
