import SecretHitler.Toml.Value
/-!
# The tree of a document

A document is built key by key. A table remembers how it came to be: a header
names a table once, a dotted key adds only to tables that dotted keys opened,
and a value that is set stays as it is.
-/

namespace SecretHitler

namespace Toml

/-- How a table came to be: named by a header, implied by a longer header, or
opened by a dotted key. -/
inductive Origin
  | header
  | implied
  | dotted
deriving DecidableEq

/-- A place in the tree. -/
inductive Node
  | value (v : Value)
  | table (origin : Origin) (members : List (String × Node))
  /-- The tables of an array that headers fill, last one first. -/
  | tables (items : List (List (String × Node)))

/-- The members of a table. -/
abbrev Members := List (String × Node)

/-- Puts a node under a key, in the place of the one that was there. -/
def Members.set (ms : Members) (key : String) (n : Node) : Members :=
  if ms.any (·.1 == key) then ms.map fun m => if m.1 == key then (key, n) else m
  else ms ++ [(key, n)]

/-- Changes what is under a key. -/
def Members.modify (ms : Members) (key : String) (f : Option Node → Option Node) :
    Option Members :=
  (f (ms.lookup key)).map (ms.set key)

/-- Enters a table on the way of a header, and makes it if it is not there.
Of an array of tables the last one is entered. -/
def Node.enter (f : Members → Option Members) : Option Node → Option Node
  | none => (f []).map (.table .implied)
  | some (.table origin ms) => (f ms).map (.table origin)
  | some (.tables (last :: earlier)) => (f last).map fun ms => .tables (ms :: earlier)
  | some _ => none

/-- Follows the path of a header and does something in the table it leads
to. -/
def Members.within (path : List String) (f : Members → Option Members) (ms : Members) :
    Option Members :=
  match path with
  | [] => f ms
  | key :: rest => ms.modify key (Node.enter (Members.within rest f))

/-- Names a table. One that longer headers implied keeps what they put into
it; any other must be new. -/
def Members.openTable (key : String) (ms : Members) : Option Members :=
  ms.modify key fun
    | none => some (.table .header [])
    | some (.table .implied sub) => some (.table .header sub)
    | some _ => none

/-- Adds a table to an array of tables. -/
def Members.pushTable (key : String) (ms : Members) : Option Members :=
  ms.modify key fun
    | none => some (.tables [[]])
    | some (.tables items) => some (.tables ([] :: items))
    | some _ => none

/-- Sets the value of a key that may be dotted. The table that it ends in must
be one that dotted keys opened, or the one it starts from. -/
def Members.assign (v : Value) (path : List String) (ms : Members) : Option Members :=
  match path with
  | [] => none
  | [key] => if (ms.lookup key).isSome then none else some (ms ++ [(key, .value v)])
  | key :: next :: rest =>
    ms.modify key fun
      | none => (Members.assign v (next :: rest) []).map (.table .dotted)
      | some (.table origin sub) =>
        if origin = .header ∨ (rest = [] ∧ origin ≠ .dotted) then none
        else (Members.assign v (next :: rest) sub).map (.table origin)
      | some (.tables (last :: earlier)) =>
        if rest = [] then none
        else (Members.assign v (next :: rest) last).map fun sub => .tables (sub :: earlier)
      | some _ => none

mutual

/-- The value of a place. -/
def Node.toValue : Node → Value
  | .value v => v
  | .table _ ms => .table (membersToValues ms)
  | .tables items => .array (tablesToValues items).reverse

/-- The values of the members of a table. -/
def membersToValues : List (String × Node) → List (String × Value)
  | [] => []
  | (key, n) :: rest => (key, n.toValue) :: membersToValues rest

/-- The tables of an array, in the order given. -/
def tablesToValues : List (List (String × Node)) → List Value
  | [] => []
  | ms :: rest => .table (membersToValues ms) :: tablesToValues rest

end

end Toml

end SecretHitler
