import SecretHitler.Decimal.Fixed
/-!
# Doubles of whole numbers

A double keeps 53 binary digits of a whole number, and holds none that lies
half a unit or more beyond the greatest.
-/

namespace SecretHitler

namespace Decimal

/-- The least number that rounds to no finite double: half a unit beyond the
greatest one. -/
def hugeFrom : Nat := 1 <<< 1024 - 1 <<< 970

/-- The nearest number with 53 binary digits; of two equally near the one
whose last digit is even. -/
def nearest (n : Nat) : Nat :=
  let beyond := n.log2 + 1 - 53
  roundDiv n (1 <<< beyond) <<< beyond

end Decimal

end SecretHitler
