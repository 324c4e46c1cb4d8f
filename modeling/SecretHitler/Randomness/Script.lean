import SecretHitler.Randomness.Source
/-!
# The scripted source

A source that yields given words in order and then, for ever, the states of
a linear congruential generator. It makes a table's luck a matter of choice.
-/

namespace SecretHitler

/-- The words still to come, and the state behind them. -/
structure Script where
  words : List UInt32
  state : UInt32
deriving DecidableEq, Inhabited

namespace Script

/-- The script of some words. -/
def ofWords (words : List UInt32) : Script := ⟨words, 0x12345678⟩

/-- The next word. -/
def next : Script → UInt32 × Script
  | ⟨w :: rest, state⟩ => (w, ⟨rest, state⟩)
  | ⟨[], state⟩ =>
    let state := state * 1664525 + 1013904223
    (state, ⟨[], state⟩)

instance : RandomSource Script := ⟨next, 1 <<< 62⟩

end Script

end SecretHitler
