import SecretHitler.Decimal.Double
import SecretHitler.Toml.Value
/-!
# Bare scalars

The values that are written without quotes or brackets: booleans, numbers,
dates and times. Each is told from its whole text. Underscores may stand
between digits; a decimal number has no leading zero; an integer fits in 64
bits; a date names a day that exists.
-/

namespace SecretHitler

namespace Toml

/-- The value of a digit in base sixteen. -/
def digit? (c : Char) : Option Nat :=
  if '0' ≤ c ∧ c ≤ '9' then some (c.toNat - '0'.toNat)
  else if 'a' ≤ c ∧ c ≤ 'f' then some (c.toNat - 'a'.toNat + 10)
  else if 'A' ≤ c ∧ c ≤ 'F' then some (c.toNat - 'A'.toNat + 10)
  else none

/-- The digits of a numeral in a base, each underscore having a digit on both
sides. -/
def digits? (base : Nat) : List Char → Option (List Nat)
  | [] => none
  | [c] => (digit? c).bind fun d => if d < base then some [d] else none
  | c :: '_' :: rest => do
    let d ← digit? c
    if d < base then return d :: (← digits? base rest) else none
  | c :: rest => do
    let d ← digit? c
    if d < base then return d :: (← digits? base rest) else none

/-- The number of a row of digits. -/
def number (base : Nat) (digits : List Nat) : Nat := digits.foldl (fun n d => n * base + d) 0

/-- Decimal digits without a leading zero. -/
def whole? (cs : List Char) : Option (List Nat) :=
  match digits? 10 cs with
  | some (0 :: _ :: _) => none
  | read => read

/-- A sign, and what follows it. -/
def sign (cs : List Char) : Bool × List Char :=
  match cs with
  | '-' :: rest => (true, rest)
  | '+' :: rest => (false, rest)
  | cs => (false, cs)

/-- An integer in the range of 64-bit words. -/
def inRange (n : Int) : Option Value :=
  if Int64.minValue.toInt ≤ n ∧ n ≤ Int64.maxValue.toInt then some (.integer n) else none

/-- An integer: decimal with a sign, or in base 16, 8 or 2 without. -/
def integer? (cs : List Char) : Option Value :=
  match cs with
  | '0' :: 'x' :: rest => (digits? 16 rest).bind fun ds => inRange (number 16 ds)
  | '0' :: 'o' :: rest => (digits? 8 rest).bind fun ds => inRange (number 8 ds)
  | '0' :: 'b' :: rest => (digits? 2 rest).bind fun ds => inRange (number 2 ds)
  | cs =>
    let (negative, cs) := sign cs
    (whole? cs).bind fun ds =>
      inRange (if negative then -(number 10 ds : Int) else (number 10 ds : Int))

/-- Whether a character begins an exponent. -/
def isExponentMark (c : Char) : Bool := c = 'e' || c = 'E'

/-- The exponent of a float, from its mark on; none is zero. -/
def exponent? : List Char → Option Int
  | [] => some 0
  | _ :: rest =>
    let (negative, cs) := sign rest
    (digits? 10 cs).map fun ds =>
      if negative then -(number 10 ds : Int) else (number 10 ds : Int)

/-- Whether digits times a power of ten lie beyond every finite double. -/
def isHuge (mantissa : Nat) (exponent : Int) : Bool :=
  let magnitude : Int := exponent + (Nat.toDigits 10 mantissa).length
  if mantissa = 0 || magnitude < 309 then false
  else if 310 < magnitude then true
  else match exponent with
    | .ofNat e => Decimal.hugeFrom ≤ mantissa * Nat.pow 10 e
    | .negSucc e => Decimal.hugeFrom * Nat.pow 10 (e + 1) ≤ mantissa

/-- A float: a whole part, then places, an exponent or both. A positive one
must be finite when rounded. -/
def float? (text : List Char) : Option Value := do
  let (negative, cs) := sign text
  if cs = "inf".toList ∨ cs = "nan".toList then return .float (String.ofList text)
  let inWhole := fun c => c ≠ '.' && !isExponentMark c
  let whole ← whole? (cs.takeWhile inWhole)
  let rest := cs.dropWhile inWhole
  let (places, rest) ← match rest with
    | '.' :: rest => do
      let places ← digits? 10 (rest.takeWhile (!isExponentMark ·))
      pure (places, rest.dropWhile (!isExponentMark ·))
    | [] => none
    | rest => some ([], rest)
  let exponent ← exponent? rest
  if !negative && isHuge (number 10 (whole ++ places)) (exponent - places.length) then none
  else return .float (String.ofList text)

/-- A row of so many decimal digits ahead, as a number. -/
def fixed? (count : Nat) (cs : List Char) : Option (Nat × List Char) := do
  let ds := cs.take count
  if ds.length = count ∧ ds.all Char.isDigit then
    return (number 10 (ds.filterMap digit?), cs.drop count)
  else none

/-- What follows an expected character. -/
def expect (c : Char) : List Char → Option (List Char)
  | d :: rest => if c = d then some rest else none
  | [] => none

/-- How many days a month has. -/
def daysIn (year month : Nat) : Nat :=
  if month = 2 then
    if (year % 4 = 0 ∧ year % 100 ≠ 0) ∨ year % 400 = 0 then 29 else 28
  else if month = 4 ∨ month = 6 ∨ month = 9 ∨ month = 11 then 30
  else 31

/-- What follows a date. -/
def date? (cs : List Char) : Option (List Char) := do
  let (year, cs) ← fixed? 4 cs
  let cs ← expect '-' cs
  let (month, cs) ← fixed? 2 cs
  let cs ← expect '-' cs
  let (day, cs) ← fixed? 2 cs
  if 1 ≤ month ∧ month ≤ 12 ∧ 1 ≤ day ∧ day ≤ daysIn year month then some cs else none

/-- What follows a time of day. -/
def time? (cs : List Char) : Option (List Char) := do
  let (hour, cs) ← fixed? 2 cs
  let cs ← expect ':' cs
  let (minute, cs) ← fixed? 2 cs
  let cs ← expect ':' cs
  let (second, cs) ← fixed? 2 cs
  if hour < 24 ∧ minute < 60 ∧ second ≤ 60 then
    match cs with
    | '.' :: rest =>
      if (rest.takeWhile Char.isDigit).isEmpty then none
      else some (rest.dropWhile Char.isDigit)
    | cs => some cs
  else none

/-- Whether a text is an offset from universal time, or nothing. -/
def isOffset (cs : List Char) : Bool :=
  match cs with
  | [] => true
  | [c] => c = 'Z' || c = 'z'
  | c :: rest =>
    (c = '+' || c = '-') &&
      match (do
        let (hour, cs) ← fixed? 2 rest
        let cs ← expect ':' cs
        let (minute, cs) ← fixed? 2 cs
        return hour < 24 && minute < 60 && cs.isEmpty) with
      | some ok => ok
      | none => false

/-- A date, a time, or both with or without an offset. -/
def dateTime? (text : List Char) : Option Value :=
  let value := Value.dateTime (String.ofList text)
  match date? text with
  | some [] => some value
  | some (mark :: rest) =>
    if mark = 'T' ∨ mark = 't' ∨ mark = ' ' then
      (time? rest).bind fun cs => if isOffset cs then some value else none
    else none
  | none => (time? text).bind fun cs => if cs.isEmpty then some value else none

/-- The value of a text without quotes or brackets. -/
def scalar? (text : List Char) : Option Value :=
  if text = "true".toList then some (.boolean true)
  else if text = "false".toList then some (.boolean false)
  else dateTime? text <|> float? text <|> integer? text

end Toml

end SecretHitler
