import SecretHitler.Decimal.Double
/-!
# Numerals

A number that is more than digits has a sign, places or an exponent. It is
taken for a double by its leading digits: as many as fit into 64 bits make a
significand, which a power of ten scales. Both are doubles, so the result need
not be the double nearest to the numeral; it must be finite.
-/

namespace SecretHitler

/-- The parts of a number as they are written. -/
structure Numeral where
  negative : Bool
  /-- The digits before the point. -/
  whole : List Char
  /-- The digits behind the point, if there is one. -/
  places : List Char
  /-- The exponent, if one is written. -/
  exponent : Option Int

namespace Numeral

/-- A natural number. -/
def ofNat (n : Nat) : Numeral := ⟨false, Nat.toDigits 10 n, [], none⟩

/-- The text of a number. -/
def text (n : Numeral) : String :=
  (if n.negative then "-" else "") ++ String.ofList n.whole ++
    (if n.places.isEmpty then "" else "." ++ String.ofList n.places) ++
    match n.exponent with
    | some e => "e" ++ toString e
    | none => ""

/-- Adds digits to a significand of 64 bits, and gives those that no longer
fit. -/
def fill (significand : Nat) : List Char → Nat × List Char
  | [] => (significand, [])
  | c :: rest =>
    let more := Nat.ofDigitChars 10 [c] significand
    if more < UInt64.size then fill more rest else (significand, c :: rest)

/-- The significand of a number and the power of ten that scales it. A digit
of the whole part that is left out raises the power, a place that is kept
lowers it. -/
def scaled (n : Numeral) : Nat × Int :=
  let (significand, beyond) := fill 0 n.whole
  let (significand, dropped) := fill significand n.places
  (significand, n.exponent.getD 0 + beyond.length - (n.places.length - dropped.length : Nat))

/-- Whether a number stays finite when its significand is scaled. -/
def isFinite (n : Numeral) : Bool :=
  match n.scaled with
  | (significand, .ofNat e) =>
    significand = 0 ||
      (e ≤ 308 && Decimal.nearest significand * Decimal.nearest (Nat.pow 10 e) < Decimal.hugeFrom)
  | (_, .negSucc _) => true

/-- A power of ten as a double. -/
def tenTo (e : Nat) : Float := Float.ofScientific 1 false e

/-- Divides by a power of ten, in steps that are doubles. -/
def scaleDown (x : Float) (e : Nat) : Float :=
  if e ≤ 308 then x / tenTo e
  else if x == 0 then x
  else scaleDown (x / tenTo 308) (e - 308)
termination_by e

/-- The size of a number as a double. -/
def size (n : Numeral) : Float :=
  match n.scaled with
  | (0, _) => 0
  | (significand, .ofNat e) => (UInt64.ofNat significand).toFloat * tenTo e
  | (significand, .negSucc e) => scaleDown (UInt64.ofNat significand).toFloat (e + 1)

/-- A number as a double, if it is finite. -/
def toFloat? (n : Numeral) : Option Float :=
  if n.isFinite then some (if n.negative then -n.size else n.size) else none

end Numeral

end SecretHitler
