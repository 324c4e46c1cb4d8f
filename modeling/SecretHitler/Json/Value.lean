import SecretHitler.Json.Numeral
/-!
# JSON values

A JSON value as its text gives it. Members keep their order and may repeat;
a number that is not a plain natural one keeps its numeral. A string may spell
something that is no text, such as half of a surrogate pair: what it spells
cannot be read, but may stand where nothing is read.
-/

namespace SecretHitler

/-- A JSON value. -/
inductive Json
  | null
  | bool (b : Bool)
  | natural (n : Nat)
  | numeral (n : Numeral)
  | string (s : String)
  | array (items : List Json)
  | object (members : List (String × Json))
  /-- A string that spells no text, or an object with such a name in it. -/
  | unreadable
deriving Inhabited

namespace Json

/-- The member of an object under a name; there is none in other values. -/
def member? (j : Json) (name : String) : Option Json :=
  match j with
  | object members => members.lookup name
  | _ => none

/-- A number as a double. -/
def toFloat? : Json → Option Float
  | natural n =>
    if n < UInt64.size then some (UInt64.ofNat n).toFloat else (Numeral.ofNat n).toFloat?
  | numeral n => n.toFloat?
  | _ => none

end Json

end SecretHitler
