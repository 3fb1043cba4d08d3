import BoundSql.Json.Reader

/-!
# Tagged documents

How a document names one case of several. In the outer form the case is a string
or an object with one field, the name of the case; in the paired form an object
has one field for the name and one for the content.

A content that comes before its name has to be kept until the name is known.
What was kept is read a little differently. An empty object may stand for the
missing content of a name in the outer form, and an array may name a case by its
position among the cases. But nothing in it may lack a value, whereas an ignored
field need only be well formed.
-/

namespace BoundSql.Json.Document

/-- The values of a key, in order. -/
def valuesOf (key : String) (fields : List (Option String × Document)) : List Document :=
  (fields.filter (·.1 == some key)).map (·.2)

/-- Whether every key of an object has a value. -/
def keysRead (fields : List (Option String × Document)) : Bool :=
  fields.all (·.1.isSome)

/-- Whether a document is null. -/
def isNull : Document → Bool
  | .null => true
  | _ => false

/-- Whether a document stands for the missing content of a name in the outer
form. `early` says that it was kept. -/
def isUnit (early : Bool) : Document → Bool
  | .null => true
  | .object fields => early && fields.isEmpty
  | _ => false

/-- A case in the outer form: its name, and its content if it has one. -/
def variant? : Document → Option (String × Option Document)
  | .string name => name.map (·, none)
  | .object [(name, content)] => name.map (·, some content)
  | _ => none

/-- The name of a case that has no content. -/
def unitVariant? (early : Bool) (d : Document) : Option String :=
  match d.variant? with
  | some (name, content) => if content.all (isUnit early) then some name else none
  | none => none

/-- The name of a case in an array: a string, or in what was kept also a position
in `names`. -/
def arrayTag? (early : Bool) (names : List String) : Document → Option String
  | .string name => name
  | .number n =>
      match n.value? with
      | some (.int (.ofNat i)) => if early then names[i]? else none
      | _ => none
  | _ => none

/-- A case in the paired form. -/
structure Tagged where
  tag : String
  content : Option Document
  early : Bool
  deriving Repr

/-- Whether the first of the two keys to occur is `second`. -/
def comesFirst (second first : String) (fields : List (Option String × Document)) : Bool :=
  match fields.find? fun field => field.1 == some first || field.1 == some second with
  | some field => field.1 == some second
  | none => false

/-- A case in the paired form: an object in which the name occurs once and the
content at most once, or an array of the two. The cases are `names`, in order;
inside, containers may be nested at most `depth` deep. -/
def tagged? (early : Bool) (depth : Nat) (names : List String) (tagKey contentKey : String) :
    Document → Option Tagged
  | .array [tag, content] => (tag.arrayTag? early names).map (⟨·, some content, early⟩)
  | .object fields =>
      if keysRead fields then
        match valuesOf tagKey fields, valuesOf contentKey fields with
        | [tag], [] => (tag.unitVariant? early).map (⟨·, none, early⟩)
        | [tag], [content] =>
            let kept := comesFirst contentKey tagKey fields
            if kept && (content.value? depth).isNone then none
            else (tag.unitVariant? early).map (⟨·, some content, early || kept⟩)
        | _, _ => none
      else none
  | _ => none

/-! ## Scalars -/

/-- A boolean. -/
def bool? : Document → Option Bool
  | .bool b => some b
  | _ => none

/-- A string. -/
def string? : Document → Option String
  | .string s => s
  | _ => none

/-- An integer of sixty-four bits; a number with a point or an exponent is
none. -/
def int64? : Document → Option Int64
  | .number n =>
      match n.value? with
      | some (.int k) =>
          if Int64.minValue.toInt ≤ k ∧ k ≤ Int64.maxValue.toInt then some (Int64.ofInt k)
          else none
      | _ => none
  | _ => none

/-- A float, also from an integer. -/
def float? : Document → Option Binary64
  | .number n =>
      match n.value? with
      | some (.int k) => some (.ofInt k)
      | some (.float x) => some x
      | none => none
  | _ => none

/-- The items of an array. -/
def items? : Document → Option (List Document)
  | .array items => some items
  | _ => none

/-- Reads items in order, null as none. -/
def optionItems? {α : Type} (read : Document → Option α) :
    List Document → Option (List (Option α))
  | [] => some []
  | .null :: rest => (optionItems? read rest).map (none :: ·)
  | d :: rest =>
      match read d with
      | some value => (optionItems? read rest).map (some value :: ·)
      | none => none

end BoundSql.Json.Document
