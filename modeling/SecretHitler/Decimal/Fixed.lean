/-!
# Fixed places

A binary floating-point number written with a fixed count of decimal places.
The number is taken for exactly the fraction it stands for, a mantissa times
a power of two, and rounded once, a tie going to the even neighbour.
-/

namespace SecretHitler

namespace Decimal

/-- The whole number nearest to a quotient; of two equally near the even
one. -/
def roundDiv (num den : Nat) : Nat :=
  let q := num / den
  let r := num % den
  if 2 * r < den then q
  else if den < 2 * r then q + 1
  else if q % 2 = 0 then q else q + 1

/-- A finite binary fraction: a mantissa times a power of two. -/
structure Dyadic where
  negative : Bool
  mantissa : Nat
  exponent : Int
deriving DecidableEq

/-- The fraction behind the bits of a double, if it is finite. -/
def Dyadic.ofBits (bits : UInt64) : Option Dyadic :=
  let b := bits.toNat
  let negative := b >>> 63 = 1
  let biased : Nat := b >>> 52 % 2048
  let fraction := b % 1 <<< 52
  if biased = 2047 then none
  else if biased = 0 then some ⟨negative, fraction, -1074⟩
  else some ⟨negative, 1 <<< 52 + fraction, Int.ofNat biased - 1075⟩

/-- The size of a fraction in units of the last of some decimal places. -/
def Dyadic.units (d : Dyadic) (places : Nat) : Nat :=
  match d.exponent with
  | .ofNat e => d.mantissa <<< e * Nat.pow 10 places
  | .negSucc e => roundDiv (d.mantissa * Nat.pow 10 places) (1 <<< (e + 1))

/-- A text filled up with zeros on its left. -/
def zeroFilled (width : Nat) (s : String) : String :=
  "".pushn '0' (width - s.length) ++ s

/-- A count of units written with a point before the last places. -/
def pointed (places units : Nat) : String :=
  if places = 0 then toString units
  else
    toString (units / Nat.pow 10 places) ++ "." ++
      zeroFilled places (toString (units % Nat.pow 10 places))

/-- A number with a fixed count of decimal places. -/
def fixed (places : Nat) (x : Float) : String :=
  match Dyadic.ofBits x.toBits with
  | some d => (if d.negative then "-" else "") ++ pointed places (d.units places)
  | none => if x.isNaN then "NaN" else if x < 0 then "-inf" else "inf"

/-- A text moved to the right end of a column. -/
def rightAligned (width : Nat) (s : String) : String :=
  "".pushn ' ' (width - s.length) ++ s

end Decimal

end SecretHitler
