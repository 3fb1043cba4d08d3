import BoundSql.Backend

/-!
# Quoted identifiers

An identifier is written between two quote characters, with every quote
character inside it doubled. A `QuoteCache` remembers written forms by
identifier; the first form recorded for an identifier stays.
-/

namespace BoundSql

namespace Identifier

/-- The characters of an identifier with the quote character doubled. -/
def double (quote : Char) : List Char → List Char
  | [] => []
  | c :: cs => if c = quote then quote :: quote :: double quote cs else c :: double quote cs

/-- An identifier between quote characters. -/
def quoteWith (quote : Char) (name : String) : String :=
  String.ofList (quote :: double quote name.toList ++ [quote])

/-- An identifier as a backend writes it. -/
def quoted (b : Backend) (name : String) : String :=
  quoteWith b.quoteChar name

@[simp] theorem toList_quoteWith (quote : Char) (name : String) :
    (quoteWith quote name).toList = quote :: double quote name.toList ++ [quote] := by
  simp [quoteWith]

@[simp] theorem double_nil (quote : Char) : double quote [] = [] := rfl

end Identifier

/-- Written forms by identifier, the latest identifier first. -/
structure QuoteCache where
  entries : List (String × String)
  deriving DecidableEq, Repr

namespace QuoteCache

/-- The cache without entries. -/
def empty : QuoteCache := ⟨[]⟩

/-- The written form recorded for an identifier. -/
def find? (cache : QuoteCache) (name : String) : Option String :=
  cache.entries.lookup name

/-- Whether a written form is recorded for an identifier. -/
def contains (cache : QuoteCache) (name : String) : Bool :=
  (cache.find? name).isSome

/-- The number of identifiers recorded. -/
def size (cache : QuoteCache) : Nat :=
  cache.entries.length

/-- Records a written form unless the identifier has one already. -/
def insertNew (cache : QuoteCache) (name form : String) : QuoteCache :=
  if cache.contains name then cache else ⟨(name, form) :: cache.entries⟩

/-- The written form of an identifier: the recorded one, or `form`. -/
def getD (cache : QuoteCache) (name form : String) : String :=
  (cache.find? name).getD form

theorem find?_insertNew_self (cache : QuoteCache) (name form : String) :
    (cache.insertNew name form).find? name = some (cache.getD name form) := by
  unfold insertNew contains getD
  cases h : cache.find? name with
  | none => simp [find?]
  | some f => simp [h]

theorem find?_insertNew_of_ne {name other : String} (hne : other ≠ name) (cache : QuoteCache)
    (form : String) : (cache.insertNew name form).find? other = cache.find? other := by
  unfold insertNew
  split
  · rfl
  · have h : (other == name) = false := by simpa using hne
    simp [find?, List.lookup_cons, h]

end QuoteCache

end BoundSql
