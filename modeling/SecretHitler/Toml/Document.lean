import SecretHitler.Toml.Text
import SecretHitler.Toml.Tree
/-!
# Documents

The reader of TOML documents, version 1.0: lines with a key and its value, a
header of a table, or a header of one more table of an array.
-/

namespace SecretHitler

namespace Toml

/-- Values are nested less deep than this, and keys have fewer parts. -/
def maxDepth : Nat := 80

/-- Whether a character can stand in a bare scalar. -/
def isScalar (c : Char) : Bool :=
  c.isAlphanum || c = '_' || c = '+' || c = '-' || c = '.' || c = ':'

/-- A bare scalar. A blank may stand between a date and a time. -/
def bareScalar (cs : List Char) : Option (Value × List Char) :=
  let word := cs.takeWhile isScalar
  let rest := cs.dropWhile isScalar
  match rest with
  | ' ' :: more =>
    match dateTime? (word ++ ' ' :: more.takeWhile isScalar) with
    | some v => some (v, more.dropWhile isScalar)
    | none => (scalar? word).map fun v => (v, rest)
  | _ => (scalar? word).map fun v => (v, rest)

mutual

/-- A value. The fuel exceeds what its characters can use up; the depth counts
the brackets it stands in. -/
def value : Nat → Nat → List Char → Option (Value × List Char)
  | 0, _, _ => none
  | n + 1, depth, cs =>
    match cs with
    | '"' :: _ => (text? cs).map fun (s, rest) => (.string s, rest)
    | '\x27' :: _ => (text? cs).map fun (s, rest) => (.string s, rest)
    | '[' :: rest =>
      if maxDepth ≤ depth + 1 then none
      else (items n (depth + 1) rest).map fun (vs, rest) => (.array vs, rest)
    | '\x7b' :: rest =>
      if maxDepth ≤ depth + 1 then none
      else
        match skipBlanks rest with
        | '\x7d' :: rest => some (.table [], rest)
        | rest => (pairs n (depth + 1) [] rest).map fun (ms, rest) =>
            (.table (membersToValues ms), rest)
    | cs => bareScalar cs

/-- The items of an array and its closing bracket. -/
def items : Nat → Nat → List Char → Option (List Value × List Char)
  | 0, _, _ => none
  | n + 1, depth, cs =>
    match skipLines cs.length cs with
    | ']' :: rest => some ([], rest)
    | cs => do
      let (v, rest) ← value n depth cs
      match skipLines rest.length rest with
      | ']' :: rest => some ([v], rest)
      | ',' :: rest => do
        let (vs, rest) ← items n depth rest
        return (v :: vs, rest)
      | _ => none

/-- The keys and values of an inline table, added to those read before, and
its closing brace. -/
def pairs : Nat → Nat → Members → List Char → Option (Members × List Char)
  | 0, _, _, _ => none
  | n + 1, depth, ms, cs => do
    let (path, rest) ← key? (maxDepth - 1) cs
    let rest ← expect '=' rest
    let (v, rest) ← value n depth (skipBlanks rest)
    let ms ← ms.assign v path
    match skipBlanks rest with
    | '\x7d' :: rest => some (ms, rest)
    | ',' :: rest => pairs n depth ms rest
    | _ => none

end

/-- A value with fuel for the characters ahead. -/
def valueAhead (cs : List Char) : Option (Value × List Char) := value (2 * cs.length + 2) 0 cs

/-- The path of a header and what follows its closing brackets. -/
def headerPath (closing : List Char) (cs : List Char) : Option (List String × List Char) := do
  let (path, rest) ← key? (maxDepth - 1) cs
  let rest ← closing.foldlM (fun rest c => expect c rest) rest
  let rest ← endLine? rest
  return (path, rest)

/-- What has been read of a document: its tree, and the path of the table
that lines add to. -/
structure Reading where
  tree : Members
  path : List String

/-- The reading behind the header of a table. -/
def Reading.table (r : Reading) (path : List String) : Option Reading := do
  let key ← path.getLast?
  return ⟨← r.tree.within path.dropLast (Members.openTable key), path⟩

/-- The reading behind the header of one more table of an array. -/
def Reading.tables (r : Reading) (path : List String) : Option Reading := do
  let key ← path.getLast?
  return ⟨← r.tree.within path.dropLast (Members.pushTable key), path⟩

/-- The reading behind a key and its value. -/
def Reading.pair (r : Reading) (path : List String) (v : Value) : Option Reading := do
  return { r with tree := ← r.tree.within r.path (Members.assign v path) }

/-- One line of a document. -/
def line (r : Reading) (cs : List Char) : Option (Reading × List Char) :=
  match skipBlanks cs with
  | '[' :: '[' :: rest => do
    let (path, rest) ← headerPath [']', ']'] rest
    return (← r.tables path, rest)
  | '[' :: rest => do
    let (path, rest) ← headerPath [']'] rest
    return (← r.table path, rest)
  | cs =>
    match endLine? cs with
    | some rest => some (r, rest)
    | none => do
      let (path, rest) ← key? (maxDepth - 1) cs
      let rest ← expect '=' rest
      let (v, rest) ← valueAhead (skipBlanks rest)
      let rest ← endLine? rest
      return (← r.pair path v, rest)

/-- The lines of a document. -/
def lines : Nat → Reading → List Char → Option Reading
  | 0, _, _ => none
  | n + 1, r, cs =>
    if cs.isEmpty then some r
    else do
      let (r, rest) ← line r cs
      lines n r rest

/-- The members of the top table of a document. A byte order mark before it
is passed over. -/
def document? (text : String) : Option (List (String × Value)) :=
  let cs := match text.toList with
    | '\ufeff' :: rest => rest
    | cs => cs
  (lines (cs.length + 1) ⟨[], []⟩ cs).map fun r => membersToValues r.tree

end Toml

end SecretHitler
