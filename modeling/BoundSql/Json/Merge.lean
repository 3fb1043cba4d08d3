import BoundSql.Json.Basic

/-!
# Merging JSON values

One value laid over another. Objects are merged key by key, at every depth; any
other value replaces what lies under it.
-/

namespace BoundSql.Json

mutual

/-- `upper` laid over `base`. -/
def merge (base upper : Json) : Json :=
  match upper with
  | .object fields =>
      match base with
      | .object under => .object (mergeFields under fields)
      | _ => .object fields
  | other => other

/-- Fields laid over the fields of an object, one after the other. -/
def mergeFields (under : List (String × Json)) :
    List (String × Json) → List (String × Json)
  | [] => under
  | (key, value) :: rest =>
      let merged :=
        match field? key under with
        | some present => merge present value
        | none => value
      mergeFields (insertField key merged under) rest

end

end BoundSql.Json
