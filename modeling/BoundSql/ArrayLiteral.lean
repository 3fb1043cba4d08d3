import BoundSql.Text.Blank

/-!
# Array literals

The text form of a one-dimensional array: elements between braces, separated by
commas. An element is null, a bare text, or a text in double quotes in which a
backslash makes the next character an ordinary one.

`render` writes all elements bare or all of them quoted; `parse` reads both
forms, also mixed. A bare element is read without the blanks around it, so only
quoted elements can hold every text.
-/

namespace BoundSql

/-- Why a text is not an array literal. -/
inductive ArrayFault where
  | noBraces
  | unterminated
  | nested
  | emptyElement
  | stray (c : Char)
  deriving DecidableEq, Repr

/-- The wording of a fault of the given literal. -/
def ArrayFault.message (literal : String) : ArrayFault → String
  | .noBraces => "Not an array literal: " ++ literal
  | .unterminated => "Unterminated quoted element in array literal: " ++ literal
  | .nested => "Unsupported array literal (nested or malformed): " ++ literal
  | .emptyElement => "Empty element in array literal: " ++ literal
  | .stray c => "Unexpected '" ++ String.ofList [c] ++ "' in array literal: " ++ literal

namespace ArrayLiteral

/-! ## Writing -/

/-- The element that stands for null. -/
def nullToken : List Char := ['N', 'U', 'L', 'L']

/-- Puts a backslash before quotes and backslashes. -/
def escape : List Char → List Char
  | [] => []
  | c :: cs => if c = '"' ∨ c = '\\' then '\\' :: c :: escape cs else c :: escape cs

/-- An element, in quotes if `quoted`. Null is never quoted. -/
def element (quoted : Bool) : Option String → List Char
  | none => nullToken
  | some s => if quoted then '"' :: escape s.toList ++ ['"'] else s.toList

/-- Elements with commas between them. -/
def elements (quoted : Bool) : List (Option String) → List Char
  | [] => []
  | [e] => element quoted e
  | e :: rest => element quoted e ++ ',' :: elements quoted rest

/-- The literal of a list of elements. -/
def render (quoted : Bool) (es : List (Option String)) : String :=
  String.ofList ('{' :: elements quoted es ++ ['}'])

/-! ## Reading -/

/-- The text up to the closing quote, and what follows the quote. -/
def readQuoted? : List Char → Option (List Char × List Char)
  | [] => none
  | '"' :: cs => some ([], cs)
  | '\\' :: c :: cs => (readQuoted? cs).map fun r => (c :: r.1, r.2)
  | c :: cs => if c = '\\' then none else (readQuoted? cs).map fun r => (c :: r.1, r.2)

/-- Characters that a bare element may not hold. -/
def isReserved (c : Char) : Bool :=
  c == '{' || c == '}' || c == '"'

/-- Whether a text spells null, in any case. -/
def isNullToken (cs : List Char) : Bool :=
  cs.map Char.toUpper == nullToken

/-- The value of a bare element. -/
def bareValue (run : List Char) : Except ArrayFault (Option String) :=
  if run.any isReserved then .error .nested
  else
    match Text.trim run with
    | [] => .error .emptyElement
    | text => if isNullToken text then .ok none else .ok (some (String.ofList text))

/-- One element and the text behind it. -/
def readElement (cs : List Char) : Except ArrayFault (Option String × List Char) :=
  match Text.trimLeft cs with
  | '"' :: body =>
      match readQuoted? body with
      | some (text, rest) => .ok (some (String.ofList text), Text.trimLeft rest)
      | none => .error .unterminated
  | run =>
      (bareValue (run.takeWhile (· != ','))).map fun e => (e, run.dropWhile (· != ','))

theorem length_readQuoted? {cs text rest : List Char} (h : readQuoted? cs = some (text, rest)) :
    rest.length < cs.length := by
  fun_induction readQuoted? cs generalizing text with
  | case1 => simp at h
  | case2 cs => simp at h; simp [h.2]
  | case3 c cs ih =>
      obtain ⟨r, hr, heq⟩ := Option.map_eq_some_iff.1 h
      obtain ⟨_, rfl⟩ := Prod.mk.inj heq
      have := ih hr
      simp only [List.length_cons]
      omega
  | case4 => simp at h
  | case5 c cs _ _ _ ih =>
      obtain ⟨r, hr, heq⟩ := Option.map_eq_some_iff.1 h
      obtain ⟨_, rfl⟩ := Prod.mk.inj heq
      have := ih hr
      simp only [List.length_cons]
      omega

theorem length_trimLeft_le (cs : List Char) : (Text.trimLeft cs).length ≤ cs.length :=
  (List.dropWhile_sublist _).length_le

/-- An element takes no characters but those of the text. -/
theorem length_readElement {cs rest : List Char} {e : Option String}
    (h : readElement cs = .ok (e, rest)) : rest.length ≤ cs.length := by
  have hcs := length_trimLeft_le cs
  unfold readElement at h
  split at h
  · rename_i body hbody
    rw [hbody] at hcs
    split at h
    · rename_i text tail htail
      simp only [Except.ok.injEq, Prod.mk.injEq] at h
      have h1 := length_readQuoted? htail
      have h2 := length_trimLeft_le tail
      rw [h.2] at h2
      simp only [List.length_cons] at hcs
      omega
    · cases h
  · rename_i run _
    cases hv : bareValue (Text.trimLeft cs |>.takeWhile (· != ',')) with
    | error f => rw [hv] at h; cases h
    | ok v =>
        rw [hv] at h
        simp only [Except.map, Except.ok.injEq, Prod.mk.injEq] at h
        rw [← h.2]
        exact Nat.le_trans (List.dropWhile_sublist _).length_le hcs

/-- Elements up to the end of the text. -/
def readElements (cs : List Char) : Except ArrayFault (List (Option String)) :=
  match _cut : readElement cs with
  | .error fault => .error fault
  | .ok (e, []) => .ok [e]
  | .ok (e, c :: rest) =>
      if c = ',' then (readElements rest).map (e :: ·) else .error (.stray c)
termination_by cs.length
decreasing_by
  have := length_readElement ‹_›
  simp only [List.length_cons] at this
  omega

/-- The text between the braces of a literal, blanks around it ignored. -/
def interior? (cs : List Char) : Option (List Char) :=
  match Text.trim cs with
  | '{' :: body => if body.getLast? = some '}' then some body.dropLast else none
  | _ => none

/-- The elements of a literal. -/
def parse (literal : String) : Except ArrayFault (List (Option String)) :=
  match interior? literal.toList with
  | none => .error .noBraces
  | some inner => if (Text.trim inner).isEmpty then .ok [] else readElements inner

end ArrayLiteral

end BoundSql
