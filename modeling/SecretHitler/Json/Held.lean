import SecretHitler.Json.Value
/-!
# Values that are held

A value may be read as its text goes by, or be held whole before any of it is
read. Only a sound value can be held: its texts and numbers are all there and
it is not nested too deeply. A tree is a value whose objects have their
members in the order of their names, the last one of every name (`tree?`). A
part that is set aside until a later part tells its type keeps its form, but
an empty object in it may stand for null (`emptyAsNull`).
-/

namespace SecretHitler

namespace Json

/-- How many arrays and objects may stand in one another. -/
def deepest : Nat := 127

mutual

/-- Whether all of a value can be read and at most so many arrays and objects
stand in one another. -/
def soundWithin (depth : Nat) : Json → Bool
  | natural n => n < UInt64.size || (Numeral.ofNat n).isFinite
  | numeral n => n.isFinite
  | array items => 0 < depth && itemsSound (depth - 1) items
  | object members => 0 < depth && membersSound (depth - 1) members
  | unreadable => false
  | _ => true

/-- Whether items are sound. -/
def itemsSound (depth : Nat) : List Json → Bool
  | [] => true
  | j :: rest => soundWithin depth j && itemsSound depth rest

/-- Whether members are sound. -/
def membersSound (depth : Nat) : List (String × Json) → Bool
  | [] => true
  | (_, j) :: rest => soundWithin depth j && membersSound depth rest

end

/-- Whether a value can be held. -/
def isSound (j : Json) : Bool := soundWithin deepest j

/-- Puts a member among members in the order of their names. One of that name
among them stands. -/
def putMember (name : String) (j : Json) : List (String × Json) → List (String × Json)
  | [] => [(name, j)]
  | (other, k) :: rest =>
    if name = other then (other, k) :: rest
    else if name < other then (name, j) :: (other, k) :: rest
    else (other, k) :: putMember name j rest

mutual

/-- A value with its members in order. -/
def settle : Json → Json
  | array items => array (settleItems items)
  | object members => object (settleMembers members)
  | j => j

/-- Items with their members in order. -/
def settleItems : List Json → List Json
  | [] => []
  | j :: rest => settle j :: settleItems rest

/-- Members in order. -/
def settleMembers : List (String × Json) → List (String × Json)
  | [] => []
  | (name, j) :: rest => putMember name (settle j) (settleMembers rest)

end

/-- The tree of a value. -/
def tree? (j : Json) : Option Json := if j.isSound then some j.settle else none

/-- A part that was set aside, with null where it holds an empty object for
it. -/
def emptyAsNull : Json → Json
  | object [(name, object [])] => object [(name, null)]
  | j => j

/-- Whether an object has a member of one name before any of another. -/
def precedes (j : Json) (first second : String) : Bool :=
  match j with
  | object members => (members.map (·.1)).idxOf first < (members.map (·.1)).idxOf second
  | _ => false

end Json

end SecretHitler
