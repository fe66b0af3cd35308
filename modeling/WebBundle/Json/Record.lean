import WebBundle.Json.Basic

/-!
# Records in JSON

A record is written as an object with a field for every part, or as the list of its parts. Fields
of other names are passed over.
-/

namespace WebBundle.Json

/-- The values of the parts of a record: the fields of an object, each at most once, or the items
of a list, whose last parts may be missing. -/
def parts? (names : List String) : Json → Option (List (Option Json))
  | .object fields =>
      names.mapM fun name =>
        match valuesOf name fields with
        | [] => some none
        | [value] => some (some value)
        | _ => none
  | .array items =>
      if items.length ≤ names.length then
        some (items.map some ++ List.replicate (names.length - items.length) none)
      else none
  | _ => none

/-- A part that may be missing. -/
def optionalPart? {α : Type} (missing : α) (read : Json → Option α) : Option Json → Option α
  | none => some missing
  | some value => read value

end WebBundle.Json
