/-!
# TOML values

What a TOML document says: a table of values by key. A float and a date keep
the text they were written with; nothing here calculates with them.
-/

namespace SecretHitler

namespace Toml

/-- A TOML value. -/
inductive Value
  | string (s : String)
  | integer (n : Int)
  | float (text : String)
  | boolean (b : Bool)
  | dateTime (text : String)
  | array (items : List Value)
  | table (members : List (String × Value))
deriving Inhabited

end Toml

end SecretHitler
