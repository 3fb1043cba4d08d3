import BoundSql.Binary64.Text

/-!
# JSON values

A JSON value with its numbers told apart as integers and floats. The fields of
an object are kept in ascending order of their keys, each key once; `insertField`
keeps that order, so equal objects are equal lists.

`Json.text` writes a value without spaces.
-/

namespace BoundSql

/-- A JSON number: an integer of at most sixty-four bits, or a finite float. -/
inductive JsonNumber where
  | int (n : Int)
  | float (x : Binary64)
  deriving DecidableEq, Repr

/-- A JSON value. -/
inductive Json where
  | null
  | bool (b : Bool)
  | number (n : JsonNumber)
  | string (s : String)
  | array (items : List Json)
  | object (fields : List (String × Json))
  deriving Repr, Inhabited

/-- Equality of numbers: an integer never equals a float. -/
def JsonNumber.sameValue : JsonNumber → JsonNumber → Bool
  | .int m, .int n => m == n
  | .float x, .float y => x == y
  | _, _ => false

namespace Json

/-! ## Equality -/

mutual

/-- Equality of values, floats compared as numbers. -/
def sameValue : Json → Json → Bool
  | .null, .null => true
  | .bool a, .bool b => a == b
  | .number a, .number b => a.sameValue b
  | .string a, .string b => a == b
  | .array xs, .array ys => sameItems xs ys
  | .object xs, .object ys => sameFields xs ys
  | _, _ => false

/-- Equality of item lists. -/
def sameItems : List Json → List Json → Bool
  | [], [] => true
  | x :: xs, y :: ys => sameValue x y && sameItems xs ys
  | _, _ => false

/-- Equality of field lists. -/
def sameFields : List (String × Json) → List (String × Json) → Bool
  | [], [] => true
  | (k, x) :: xs, (l, y) :: ys => k == l && sameValue x y && sameFields xs ys
  | _, _ => false

end

instance : BEq Json := ⟨sameValue⟩

/-! ## Objects -/

/-- The value of a key. -/
def field? (key : String) : List (String × Json) → Option Json
  | [] => none
  | (k, v) :: rest => if k = key then some v else field? key rest

/-- Sets the value of a key, in the place that the order of keys gives it. -/
def insertField (key : String) (value : Json) : List (String × Json) → List (String × Json)
  | [] => [(key, value)]
  | (k, v) :: rest =>
      if key = k then (key, value) :: rest
      else if key < k then (key, value) :: (k, v) :: rest
      else (k, v) :: insertField key value rest

/-- An object from fields in any order; of a repeated key the last value counts. -/
def ofFields (fields : List (String × Json)) : Json :=
  .object (fields.foldl (fun object (k, v) => insertField k v object) [])

/-- The number for a float: JSON has no infinities and no NaN. -/
def ofBinary64 (x : Binary64) : Json :=
  if x.isFinite then .number (.float x) else .null

@[simp] theorem field?_insertField_self (key : String) (value : Json)
    (fields : List (String × Json)) :
    field? key (insertField key value fields) = some value := by
  induction fields with
  | nil => simp [insertField, field?]
  | cons entry rest ih =>
      obtain ⟨k, v⟩ := entry
      simp only [insertField]
      split
      · simp [field?]
      · split
        · simp [field?]
        · rename_i h _
          simp [field?, Ne.symm h, ih]

theorem field?_insertField_of_ne {key other : String} (h : other ≠ key) (value : Json)
    (fields : List (String × Json)) :
    field? other (insertField key value fields) = field? other fields := by
  induction fields with
  | nil => simp [insertField, field?, Ne.symm h]
  | cons entry rest ih =>
      obtain ⟨k, v⟩ := entry
      simp only [insertField]
      split
      · rename_i hk
        subst hk
        simp [field?, Ne.symm h]
      · split
        · simp [field?, Ne.symm h]
        · simp [field?, ih]

/-! ## Writing -/

/-- The lowercase hexadecimal digit of a number below sixteen. -/
def hexDigit (n : Nat) : Char :=
  if n < 10 then Char.ofNat ('0'.toNat + n) else Char.ofNat ('a'.toNat + n - 10)

/-- A character inside a string. Quotes, backslashes and the controls below a
space are escaped, nothing else is. -/
def escapeChar (c : Char) : List Char :=
  if c = '"' then ['\\', '"']
  else if c = '\\' then ['\\', '\\']
  else if c.toNat = 0x08 then ['\\', 'b']
  else if c.toNat = 0x09 then ['\\', 't']
  else if c.toNat = 0x0a then ['\\', 'n']
  else if c.toNat = 0x0c then ['\\', 'f']
  else if c.toNat = 0x0d then ['\\', 'r']
  else if c.toNat < 0x20 then
    ['\\', 'u', '0', '0', hexDigit (c.toNat / 16), hexDigit (c.toNat % 16)]
  else [c]

/-- A string in quotes. -/
def stringChars (s : String) : List Char :=
  '"' :: s.toList.flatMap escapeChar ++ ['"']

/-- A number. -/
def numberChars : JsonNumber → List Char
  | .int n => Text.signedDigits n
  | .float x => if x.isFinite then FloatLayout.json.text x else ['n', 'u', 'l', 'l']

/-- Texts with commas between them. -/
def commaJoined : List (List Char) → List Char
  | [] => []
  | [x] => x
  | x :: rest => x ++ ',' :: commaJoined rest

/-- An array of items that are written already. -/
def arrayChars (items : List (List Char)) : List Char :=
  '[' :: commaJoined items ++ [']']

/-- An object of values that are written already, in the given order. -/
def objectChars (fields : List (String × List Char)) : List Char :=
  '{' :: commaJoined (fields.map fun field => stringChars field.1 ++ ':' :: field.2) ++ ['}']

mutual

/-- A value without spaces. -/
def chars : Json → List Char
  | .null => ['n', 'u', 'l', 'l']
  | .bool true => ['t', 'r', 'u', 'e']
  | .bool false => ['f', 'a', 'l', 's', 'e']
  | .number n => numberChars n
  | .string s => stringChars s
  | .array items => arrayChars (itemTexts items)
  | .object fields => objectChars (fieldTexts fields)

/-- The items of an array, each written. -/
def itemTexts : List Json → List (List Char)
  | [] => []
  | x :: rest => chars x :: itemTexts rest

/-- The fields of an object, each value written. -/
def fieldTexts : List (String × Json) → List (String × List Char)
  | [] => []
  | (k, v) :: rest => (k, chars v) :: fieldTexts rest

end

/-- The text of a value. -/
def text (j : Json) : String :=
  String.ofList j.chars

end Json

end BoundSql
