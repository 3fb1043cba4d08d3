import BoundSql.Json.Basic

/-!
# Tables under construction

A TOML document names the same table in several places, and whether it may do so
depends on how the table came to be. A `Node` remembers that until the document
is read; `Node.toJson` then forgets it.

`update` walks down a path of keys, creating tables on its way, and changes the
entries of the table at its end.
-/

namespace BoundSql.Toml

/-- How a table came to be: by its own header, as a part of the header of
another table, or by a dotted key. -/
inductive Origin where
  | header
  | implied
  | dotted
  deriving DecidableEq, Repr

/-- A value, a table or an array of tables. The last table of an array is the
one that further headers speak of. -/
inductive Node where
  | leaf (value : Json)
  | table (origin : Origin) (entries : List (String × Node))
  | tables (items : List (List (String × Node)))
  deriving Inhabited

/-- The entries of a table. -/
abbrev Entries : Type := List (String × Node)

namespace Entries

/-- The node of a key. -/
def find? (key : String) (es : Entries) : Option Node :=
  es.lookup key

/-- Sets the node of a key. -/
def put (key : String) (node : Node) : Entries → Entries
  | [] => [(key, node)]
  | (k, n) :: rest => if k = key then (k, node) :: rest else (k, n) :: put key node rest

/-- Adds a key that is not there yet. -/
def add? (key : String) (node : Node) (es : Entries) : Option Entries :=
  match es.find? key with
  | none => some (es.put key node)
  | some _ => none

end Entries

/-- Changes the last of several things. -/
def updateLast? {α : Type} (f : α → Option α) : List α → Option (List α)
  | [] => none
  | [x] => (f x).map ([·])
  | x :: rest => (updateLast? f rest).map (x :: ·)

/-- Changes the entries at the end of a path, given the origin of their table.
The keys are those of a header or, if `dotted`, of a dotted key; a dotted key
may not enter a table that has its own header. -/
def update? (dotted : Bool) (change : Origin → Entries → Option Entries) :
    List String → Origin → Entries → Option Entries
  | [], origin, es => change origin es
  | key :: path, _, es =>
      match es.find? key with
      | none =>
          let origin : Origin := if dotted then .dotted else .implied
          (update? dotted change path origin []).map fun inner =>
            es.put key (.table origin inner)
      | some (.leaf _) => none
      | some (.table origin entries) =>
          if dotted && origin == .header then none
          else
            (update? dotted change path origin entries).map fun inner =>
              es.put key (.table origin inner)
      | some (.tables items) =>
          (updateLast? (update? dotted change path .header) items).map fun changed =>
            es.put key (.tables changed)

/-- Sets a value under a dotted key. A table made by a header takes plain keys
only, one made by dotted keys takes dotted keys only. -/
def assign? (keys : List String) (last : String) (value : Json) (es : Entries) :
    Option Entries :=
  update? true
    (fun origin inner =>
      if (origin == .dotted) == keys.isEmpty then none else inner.add? last (.leaf value))
    keys .header es

/-- Opens the table of a header. It may exist as a part of other headers. -/
def openTable? (parents : List String) (last : String) (root : Entries) : Option Entries :=
  update? false
    (fun _ es =>
      match es.find? last with
      | none => some (es.put last (.table .header []))
      | some (.table .implied inner) => some (es.put last (.table .header inner))
      | some _ => none)
    parents .header root

/-- Opens one more table of an array of tables. -/
def openItem? (parents : List String) (last : String) (root : Entries) : Option Entries :=
  update? false
    (fun _ es =>
      match es.find? last with
      | none => some (es.put last (.tables [[]]))
      | some (.tables items) => some (es.put last (.tables (items ++ [[]])))
      | some _ => none)
    parents .header root

/-- Sets a value under a dotted key in the table of a header. -/
def assignUnder? (header keys : List String) (last : String) (value : Json) (root : Entries) :
    Option Entries :=
  update? false (fun _ es => assign? keys last value es) header .header root

mutual

/-- A node without its history. -/
def Node.toJson : Node → Json
  | .leaf value => value
  | .table _ entries => .ofFields (fieldsOf entries)
  | .tables items => .array (objectsOf items)

/-- The fields of a table. -/
def fieldsOf : List (String × Node) → List (String × Json)
  | [] => []
  | (key, node) :: rest => (key, node.toJson) :: fieldsOf rest

/-- The tables of an array as objects. -/
def objectsOf : List (List (String × Node)) → List Json
  | [] => []
  | entries :: rest => .ofFields (fieldsOf entries) :: objectsOf rest

end

end BoundSql.Toml
