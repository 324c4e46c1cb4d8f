import SecretHitler.Json.Value
/-!
# Printing JSON

The text of a value, without blanks. Quotes, backslashes and control
characters are escaped; all other characters stand for themselves. What cannot
be read is written as null.
-/

namespace SecretHitler

namespace Json

/-- A hexadecimal digit. -/
def hexDigit (n : Nat) : Char := Nat.digitChar n

/-- A character between quotes. -/
def escape (c : Char) : List Char :=
  if c = '"' then ['\\', '"']
  else if c = '\\' then ['\\', '\\']
  else if c = '\n' then ['\\', 'n']
  else if c = '\r' then ['\\', 'r']
  else if c = '\t' then ['\\', 't']
  else if c.toNat < 32 then ['\\', 'u', '0', '0', hexDigit (c.toNat / 16), hexDigit (c.toNat % 16)]
  else [c]

/-- A text between quotes. -/
def quote (s : String) : String :=
  "\"" ++ String.ofList (s.toList.flatMap escape) ++ "\""

mutual

/-- Writes a value behind a text. -/
def write (out : String) : Json → String
  | null => out ++ "null"
  | bool b => out ++ if b then "true" else "false"
  | natural n => out ++ toString n
  | numeral n => out ++ n.text
  | string s => out ++ quote s
  | array items => writeItems (out ++ "[") items ++ "]"
  | object members => writeMembers (out ++ "\x7b") members ++ "\x7d"
  | unreadable => out ++ "null"

/-- Writes items with commas between them. -/
def writeItems (out : String) : List Json → String
  | [] => out
  | [j] => write out j
  | j :: rest => writeItems (write out j ++ ",") rest

/-- Writes members with commas between them. -/
def writeMembers (out : String) : List (String × Json) → String
  | [] => out
  | [(name, j)] => write (out ++ quote name ++ ":") j
  | (name, j) :: rest => writeMembers (write (out ++ quote name ++ ":") j ++ ",") rest

end

/-- The text of a value. -/
def render (j : Json) : String := write "" j

end Json

end SecretHitler
