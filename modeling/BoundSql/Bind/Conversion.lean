import BoundSql.Bind.Basic

/-!
# Values as binds

The types whose values can be used as binds directly. A missing value is null;
narrower integers are widened; a list is an array of its element kind.
-/

namespace BoundSql

/-- A type whose values can be used as binds. -/
class ToBind (α : Type) where
  toBind : α → Bind

export ToBind (toBind)

/-- A type whose values can be used as array elements. -/
class ToBindArray (α : Type) where
  toBindArray : List (Option α) → BindArray

namespace ToBind

instance : ToBind Bind := ⟨id⟩
instance : ToBind Bool := ⟨.bool⟩
instance : ToBind Int16 := ⟨fun n => .int n.toInt64⟩
instance : ToBind Int32 := ⟨fun n => .int n.toInt64⟩
instance : ToBind Int64 := ⟨.int⟩
instance : ToBind Binary64 := ⟨.float⟩
instance : ToBind Decimal := ⟨.decimal⟩
instance : ToBind String := ⟨.string⟩
instance : ToBind Timestamp := ⟨.timestamp⟩
instance : ToBind Date := ⟨.date⟩
instance : ToBind Json := ⟨.json⟩
instance : ToBind BindArray := ⟨.array⟩

instance {α : Type} [ToBind α] : ToBind (Option α) where
  toBind
    | some value => toBind value
    | none => .null

end ToBind

namespace ToBindArray

instance : ToBindArray Bool := ⟨.bool⟩
instance : ToBindArray Int64 := ⟨.int⟩
instance : ToBindArray Binary64 := ⟨.float⟩
instance : ToBindArray Decimal := ⟨.decimal⟩
instance : ToBindArray String := ⟨.string⟩
instance : ToBindArray Timestamp := ⟨.timestamp⟩
instance : ToBindArray Date := ⟨.date⟩

end ToBindArray

/-- A list of values, some of them missing, as an array bind. -/
def BindArray.ofOptions {α : Type} [ToBindArray α] (items : List (Option α)) : BindArray :=
  ToBindArray.toBindArray items

/-- A list of values as an array bind. -/
def BindArray.ofList {α : Type} [ToBindArray α] (items : List α) : BindArray :=
  BindArray.ofOptions (items.map some)

end BoundSql
