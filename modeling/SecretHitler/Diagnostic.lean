import SecretHitler.Basic
/-!
# Diagnostic texts

How values are spelt in messages about faults: names between quotes, and a
heading with its parts.
-/

namespace SecretHitler

namespace Diagnostic

/-- The digits of a code point in base sixteen. -/
private def hex (c : Char) : String := String.ofList (Nat.toDigits 16 c.toNat)

/-- How a character stands between quotes: quotes, backslashes and control
characters are escaped. -/
private def escaped (c : Char) : String :=
  if c = '"' then "\\\""
  else if c = '\\' then "\\\\"
  else if c = '\n' then "\\n"
  else if c = '\r' then "\\r"
  else if c = '\t' then "\\t"
  else if c.toNat = 0 then "\\0"
  else if c.toNat < 32 ∨ c.toNat = 127 then "\\u\x7b" ++ hex c ++ "\x7d"
  else c.toString

/-- A name between quotes. -/
def quoted (name : String) : String :=
  "\"" ++ String.join (name.toList.map escaped) ++ "\""

/-- A heading with its named parts between braces. -/
def labelled (heading : String) (parts : List (String × String)) : String :=
  heading ++ " \x7b " ++ ", ".intercalate (parts.map fun p => p.1 ++ ": " ++ p.2) ++ " \x7d"

end Diagnostic

end SecretHitler
