/-!
# Blank characters

The characters with the Unicode property `White_Space`, and trimming of texts
by them. Every reader of this library that ignores surrounding blanks uses this
set, so a text padded with an ideographic space reads like one padded with an
ASCII space.

`trim` removes blanks at both ends and nothing else;
`trimRight_append_singleton` says that a text ending in any other character is
left alone at its end.
-/

namespace BoundSql.Text

/-- The Unicode property `White_Space`. -/
def isBlank (c : Char) : Bool :=
  let n := c.toNat
  (0x09 ≤ n && n ≤ 0x0d) || n == 0x20 || n == 0x85 || n == 0xa0 || n == 0x1680 ||
    (0x2000 ≤ n && n ≤ 0x200a) || n == 0x2028 || n == 0x2029 || n == 0x202f ||
    n == 0x205f || n == 0x3000

/-- A text without the blanks it starts with. -/
def trimLeft (cs : List Char) : List Char :=
  cs.dropWhile isBlank

/-- A text without the blanks it ends with. -/
def trimRight : List Char → List Char
  | [] => []
  | c :: cs =>
      match trimRight cs with
      | [] => if isBlank c then [] else [c]
      | rest => c :: rest

/-- A text without the blanks around it. -/
def trim (cs : List Char) : List Char :=
  trimRight (trimLeft cs)

/-- `trim` on strings. -/
def trimString (s : String) : String :=
  String.ofList (trim s.toList)

@[simp] theorem toList_trimString (s : String) :
    (trimString s).toList = trim s.toList := by
  simp [trimString]

@[simp] theorem trimRight_nil : trimRight [] = [] := rfl

/-- A text whose last character is not blank keeps all its characters. -/
theorem trimRight_append_singleton {cs : List Char} {c : Char} (h : isBlank c = false) :
    trimRight (cs ++ [c]) = cs ++ [c] := by
  induction cs with
  | nil => simp [trimRight, h]
  | cons d cs ih =>
      simp only [List.cons_append, trimRight, ih]
      cases hcs : cs ++ [c] with
      | nil => simp at hcs
      | cons e es => rfl

end BoundSql.Text
