import SecretHitler.Json.Value
/-!
# Reading JSON

A reader of JSON texts in UTF-8. A text is read byte by byte, each byte taken
for the character of its code: the bytes beyond ASCII stand in strings only,
and are put together again when a string ends. Each function takes the bytes
ahead and gives what it read with the bytes left. A text is one value with
blanks around it and nothing else.
-/

namespace SecretHitler

namespace Json

/-- Blanks between the parts of a text. -/
def isBlank (c : Char) : Bool := c = ' ' || c = '\t' || c = '\n' || c = '\r'

/-- What follows the blanks ahead. -/
def skipBlanks (cs : List Char) : List Char := cs.dropWhile isBlank

/-- The value of a hexadecimal digit. -/
def hexValue? (c : Char) : Option Nat :=
  if '0' ≤ c ∧ c ≤ '9' then some (c.toNat - '0'.toNat)
  else if 'a' ≤ c ∧ c ≤ 'f' then some (c.toNat - 'a'.toNat + 10)
  else if 'A' ≤ c ∧ c ≤ 'F' then some (c.toNat - 'A'.toNat + 10)
  else none

/-- Four hexadecimal digits. -/
def readUnit : List Char → Option (Nat × List Char)
  | a :: b :: c :: d :: rest => do
    let a ← hexValue? a
    let b ← hexValue? b
    let c ← hexValue? c
    let d ← hexValue? d
    return (((a * 16 + b) * 16 + c) * 16 + d, rest)
  | _ => none

/-- The bytes of a character. -/
def bytesOf (c : Char) : List UInt8 := (String.singleton c).toUTF8.data.toList

/-- A byte that is in no text. It stands for half of a surrogate pair. -/
def strayByte : UInt8 := 255

/-- A character escaped by its code: one unit, or the two of a surrogate
pair. -/
def readCode (cs : List Char) : Option (List UInt8 × List Char) := do
  let (unit, rest) ← readUnit cs
  if unit < 0xD800 ∨ 0xE000 ≤ unit then return (bytesOf (Char.ofNat unit), rest)
  let paired := match rest with
    | '\\' :: 'u' :: rest => readUnit rest
    | _ => none
  match paired with
  | some (low, more) =>
    if unit < 0xDC00 ∧ 0xDC00 ≤ low ∧ low < 0xE000 then
      return (bytesOf (Char.ofNat (0x10000 + (unit - 0xD800) * 0x400 + (low - 0xDC00))), more)
    else return ([strayByte], rest)
  | none => return ([strayByte], rest)

/-- A character that a letter stands for behind a backslash. -/
def simpleEscape? (c : Char) : Option Char :=
  match c with
  | '"' => some '"'
  | '\\' => some '\\'
  | '/' => some '/'
  | 'b' => some '\x08'
  | 'f' => some '\x0c'
  | 'n' => some '\n'
  | 'r' => some '\r'
  | 't' => some '\t'
  | _ => none

/-- The rest of a string behind its opening quote; its bytes so far come in
reverse. -/
def readString : Nat → List UInt8 → List Char → Option (List UInt8 × List Char)
  | 0, _, _ => none
  | n + 1, seen, cs =>
    match cs with
    | '"' :: rest => some (seen.reverse, rest)
    | '\\' :: 'u' :: rest => do
      let (bytes, rest) ← readCode rest
      readString n (bytes.reverse ++ seen) rest
    | '\\' :: c :: rest => do
      let c ← simpleEscape? c
      readString n (.ofNat c.toNat :: seen) rest
    | c :: rest => if c.toNat < 32 then none else readString n (.ofNat c.toNat :: seen) rest
    | [] => none

/-- The text of some bytes, if they are one. -/
def textOf? (bytes : List UInt8) : Option String := String.fromUTF8? ⟨bytes.toArray⟩

/-- A string behind its opening quote, and the text that it spells. -/
def readText (cs : List Char) : Option (Option String × List Char) := do
  let (bytes, rest) ← readString (cs.length + 1) [] cs
  return (textOf? bytes, rest)

/-- A name behind its opening quote. One that needs escapes to spell a number
is kept as it is spelled: it is no decimal key. -/
def readName (cs : List Char) : Option (Option String × List Char) := do
  let (name, rest) ← readText cs
  let spelled := String.ofList (cs.takeWhile (· ≠ '"'))
  return (name.map fun name => if name.all Char.isDigit then spelled else name, rest)

/-- The digits ahead. -/
def spanDigits (cs : List Char) : List Char × List Char :=
  (cs.takeWhile Char.isDigit, cs.dropWhile Char.isDigit)

/-- Digits that are there. -/
def readDigits (cs : List Char) : Option (List Char × List Char) :=
  match spanDigits cs with
  | ([], _) => none
  | read => some read

/-- The whole part of a number: no digit follows a leading zero. -/
def readWhole (cs : List Char) : Option (List Char × List Char) := do
  match ← readDigits cs with
  | ('0' :: _ :: _, _) => none
  | read => some read

/-- The places of a number, if a point is ahead. -/
def readPlaces : List Char → Option (List Char × List Char)
  | '.' :: rest => do
    let (digits, rest) ← readDigits rest
    return (digits, rest)
  | cs => some ([], cs)

/-- The exponent of a number, if one is ahead. -/
def readExponent : List Char → Option (Option Int × List Char)
  | e :: rest =>
    if e = 'e' ∨ e = 'E' then do
      let (negative, rest) := match rest with
        | '-' :: rest => (true, rest)
        | '+' :: rest => (false, rest)
        | rest => (false, rest)
      let (digits, rest) ← readDigits rest
      let size : Int := Nat.ofDigitChars 10 digits 0
      return (some (if negative then -size else size), rest)
    else some (none, e :: rest)
  | [] => some (none, [])

/-- A number. Digits alone make a natural number. -/
def readNumber (cs : List Char) : Option (Json × List Char) := do
  let (negative, cs) := match cs with
    | '-' :: rest => (true, rest)
    | cs => (false, cs)
  let (whole, cs) ← readWhole cs
  let (places, cs) ← readPlaces cs
  let (exponent, cs) ← readExponent cs
  if !negative && places.isEmpty && exponent.isNone then
    return (natural (Nat.ofDigitChars 10 whole 0), cs)
  else return (numeral ⟨negative, whole, places, exponent⟩, cs)

/-- An object of some members. One whose name cannot be read makes it
unreadable. -/
def ofMembers (members : List (Option String × Json)) : Json :=
  match members.mapM fun (name, j) => name.map fun name => (name, j) with
  | some members => object members
  | none => unreadable

mutual

/-- A value. The fuel exceeds what its characters can use up. -/
def readValue : Nat → List Char → Option (Json × List Char)
  | 0, _ => none
  | n + 1, cs =>
    match skipBlanks cs with
    | 'n' :: 'u' :: 'l' :: 'l' :: rest => some (null, rest)
    | 't' :: 'r' :: 'u' :: 'e' :: rest => some (bool true, rest)
    | 'f' :: 'a' :: 'l' :: 's' :: 'e' :: rest => some (bool false, rest)
    | '"' :: rest => do
      let (s, rest) ← readText rest
      return ((s.map string).getD unreadable, rest)
    | '[' :: rest =>
      match skipBlanks rest with
      | ']' :: rest => some (array [], rest)
      | rest => do
        let (items, rest) ← readItems n rest
        return (array items, rest)
    | '\x7b' :: rest =>
      match skipBlanks rest with
      | '\x7d' :: rest => some (object [], rest)
      | rest => do
        let (members, rest) ← readMembers n rest
        return (ofMembers members, rest)
    | cs => readNumber cs

/-- The items of an array and its closing bracket. -/
def readItems : Nat → List Char → Option (List Json × List Char)
  | 0, _ => none
  | n + 1, cs => do
    let (j, rest) ← readValue n cs
    match skipBlanks rest with
    | ']' :: rest => some ([j], rest)
    | ',' :: rest => do
      let (items, rest) ← readItems n rest
      return (j :: items, rest)
    | _ => none

/-- The members of an object and its closing brace. -/
def readMembers : Nat → List Char → Option (List (Option String × Json) × List Char)
  | 0, _ => none
  | n + 1, cs =>
    match skipBlanks cs with
    | '"' :: rest => do
      let (name, rest) ← readName rest
      match skipBlanks rest with
      | ':' :: rest => do
        let (j, rest) ← readValue n rest
        match skipBlanks rest with
        | '\x7d' :: rest => some ([(name, j)], rest)
        | ',' :: rest => do
          let (members, rest) ← readMembers n rest
          return ((name, j) :: members, rest)
        | _ => none
      | _ => none
    | _ => none

end

/-- The value of a text given by its bytes. -/
def readBytes? (text : ByteArray) : Option Json := do
  let cs := text.data.toList.map fun b => Char.ofNat b.toNat
  let (j, rest) ← readValue (2 * cs.length + 2) cs
  if (skipBlanks rest).isEmpty then some j else none

/-- The value of a text. -/
def read? (text : String) : Option Json := readBytes? text.toUTF8

end Json

end SecretHitler
