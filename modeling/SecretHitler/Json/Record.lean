import SecretHitler.Json.Value
/-!
# Records and variants in JSON

A record is an object with a member for every field, or the array of its
fields in order. Unknown members are passed over; a known one may not repeat.
A variant is its name, or an object whose one member is named for it and
holds its parts.
-/

namespace SecretHitler

namespace Json

/-- The members of a record with some fields, of which the last `optional`
ones may be missing from an array. -/
def record? (j : Json) (fields : List String) (optional : Nat := 0) : Option Json :=
  match j with
  | object members =>
    if fields.all fun f => (members.filter (·.1 == f)).length ≤ 1 then some j else none
  | array items =>
    if items.length ≤ fields.length ∧ fields.length ≤ items.length + optional then
      some (object (fields.zip items))
    else none
  | _ => none

/-- The name of a variant, and its parts if it has any. -/
def variant? : Json → Option (String × Option Json)
  | string name => some (name, none)
  | object [(name, parts)] => some (name, some parts)
  | _ => none

/-- One of some variants without parts, by its name. -/
def choice? {α : Type} (j : Json) (names : List (String × α)) : Option α :=
  match j.variant? with
  | some (name, none) => names.lookup name
  | some (name, some null) => names.lookup name
  | _ => none

end Json

end SecretHitler
