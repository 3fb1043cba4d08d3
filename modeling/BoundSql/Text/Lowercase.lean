import BoundSql.Text.Lowercase.Table

/-!
# Lowercasing

Two maps to lowercase. `asciiLowercase` changes the letters `A` to `Z` and
nothing else; `lowercase` is the full Unicode map, in which a dotted capital I
becomes two characters and a capital sigma depends on its place in the word.
-/

namespace BoundSql.Text

/-- The letters `A` to `Z` in lowercase, every other character as it is. -/
def asciiLowercase (s : String) : String :=
  s.map Char.toLower

/-- Whether a character is cased, for the place of a sigma in its word. -/
def isCased (c : Char) : Bool :=
  casedRanges.any (·.covers c.toNat)

/-- Whether a character is passed over when the end of a word is looked for. -/
def isCaseIgnorable (c : Char) : Bool :=
  ignorableRanges.any (·.covers c.toNat)

/-- Whether the nearest character that is not passed over is cased. -/
def meetsCased (cs : List Char) : Bool :=
  match cs.dropWhile isCaseIgnorable with
  | [] => false
  | c :: _ => isCased c

/-- The lowercase of a character out of context. -/
def lowercaseChar (c : Char) : List Char :=
  if c.toNat = 0x130 then ['i', Char.ofNat 0x307]
  else
    match caseRuns.find? (·.covers c.toNat) with
    | some run => [Char.ofNat (c.toNat + run.shift).toNat]
    | none => [c]

/-- Lowercasing with the characters already passed, nearest first. A capital
sigma that ends its word becomes the final form. -/
def lowercaseFrom (before : List Char) : List Char → List Char
  | [] => []
  | c :: after =>
      let here :=
        if c.toNat = 0x3a3 then
          if meetsCased before && !meetsCased after then [Char.ofNat 0x3c2]
          else [Char.ofNat 0x3c3]
        else lowercaseChar c
      here ++ lowercaseFrom (c :: before) after

/-- The full Unicode lowercase of a text. -/
def lowercase (s : String) : String :=
  String.ofList (lowercaseFrom [] s.toList)

end BoundSql.Text
