/-!
# Decimal numerals

A natural number has one numeral: no sign, no leading zero, nothing around
it. Reading accepts exactly what writing produces (`read?_eq_some_iff`).
-/

namespace SecretHitler

namespace Decimal

/-- The numeral of a number. -/
def write (n : Nat) : String := String.ofList (Nat.toDigits 10 n)

/-- The number of a numeral. -/
def read? (s : String) : Option Nat :=
  let n := Nat.ofDigitChars 10 s.toList 0
  if write n = s then some n else none

/-- Every numeral that is written is read back. -/
theorem read?_write (n : Nat) : read? (write n) = some n := by
  have h : Nat.ofDigitChars 10 (write n).toList 0 = n := by
    rw [write, String.toList_ofList, Nat.ofDigitChars_toDigits (by decide) (by decide)]
  simp [read?, h]

/-- **No other numeral is read.** -/
theorem read?_eq_some_iff {s : String} {n : Nat} : read? s = some n ↔ s = write n := by
  constructor
  · intro h
    simp only [read?] at h
    split at h
    · rename_i hw
      cases h
      exact hw.symm
    · cases h
  · rintro rfl
    exact read?_write n

end Decimal

end SecretHitler
