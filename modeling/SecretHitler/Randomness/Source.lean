/-!
# Random sources

A source yields 32-bit words and moves on. On top of the words stand a fair
number below a bound and a shuffle; each returns the source as it left it, so
a run can be repeated from its inputs. What the words are is left
open: the laws (`below_lt`, `shuffle_perm`) hold for every source.
-/

namespace SecretHitler

/-- Something that yields 32-bit words. Its patience is how many words a fair
draw may refuse before it settles for zero: each word is refused with a
chance below one half, so a large number is as good as none. -/
class RandomSource (σ : Type) where
  next : σ → UInt32 × σ
  patience : Nat

namespace RandomSource

variable {σ : Type} [RandomSource σ]

/-- A 32-bit word as a number. -/
def word32 (s : σ) : Nat × σ :=
  let (w, s) := next s
  (w.toNat, s)

/-- A 64-bit word as a number: a low word, then a high one. -/
def word64 (s : σ) : Nat × σ :=
  let (low, s) := next s
  let (high, s) := next s
  (low.toNat + high.toNat * UInt32.size, s)

theorem word32_lt (s : σ) : (word32 s).1 < UInt32.size := UInt32.toNat_lt _

theorem word64_lt (s : σ) : (word64 s).1 < UInt64.size := by
  have h₁ := UInt32.toNat_lt (next s).1
  have h₂ := UInt32.toNat_lt (next (next s).2).1
  simp only [word64, UInt32.size, UInt64.size] at *
  omega

/-- A number below `n` from words of `width` bits. The product of a word and
`n` carries the answer in its high half; its low half must fall in a zone
whose size is a multiple of `n`, which makes every answer equally likely. -/
def belowOf (width : Nat) (draw : σ → Nat × σ) (n : Nat) : Nat → σ → Nat × σ
  | 0, s => (0, s)
  | left + 1, s =>
    let (v, s) := draw s
    if v * n % 1 <<< width < n <<< (width - 1 - n.log2) then (v * n / 1 <<< width, s)
    else belowOf width draw n left s

/-- A fair number below `n`, from 32-bit words. -/
def below (n : Nat) (s : σ) : Nat × σ := belowOf 32 word32 n (patience σ) s

/-- A fair number below `n`, from 64-bit words. -/
def below64 (n : Nat) (s : σ) : Nat × σ := belowOf 64 word64 n (patience σ) s

omit [RandomSource σ] in
/-- A number drawn below `n` is below `n`, whatever the width. -/
theorem belowOf_lt {width n : Nat} {draw : σ → Nat × σ} (hn : 0 < n)
    (hw : ∀ s, (draw s).1 < 1 <<< width) (left : Nat) (s : σ) :
    (belowOf width draw n left s).1 < n := by
  induction left generalizing s with
  | zero => exact hn
  | succ left ih =>
    simp only [belowOf]
    split
    · exact Nat.div_lt_of_lt_mul (Nat.mul_lt_mul_of_pos_right (hw s) hn)
    · exact ih _

/-- A number drawn below `n` is below `n`. -/
theorem below_lt {n : Nat} (hn : 0 < n) (s : σ) : (below n s).1 < n :=
  belowOf_lt hn word32_lt _ s

/-- The same of a draw from 64-bit words. -/
theorem below64_lt {n : Nat} (hn : 0 < n) (s : σ) : (below64 n s).1 < n :=
  belowOf_lt hn word64_lt _ s

/-- Swaps each place from the `i`-th down with one drawn from those up to it. -/
def shuffleTo {α : Type} : Nat → Array α → σ → Array α × σ
  | 0, a, s => (a, s)
  | i + 1, a, s =>
    let (j, s) := below (i + 2) s
    shuffleTo i (a.swapIfInBounds (i + 1) j) s

/-- A list in random order. -/
def shuffle {α : Type} (l : List α) (s : σ) : List α × σ :=
  let (a, s) := shuffleTo (l.length - 1) l.toArray s
  (a.toList, s)

theorem shuffleTo_perm {α : Type} (i : Nat) (a : Array α) (s : σ) :
    (shuffleTo i a s).1.Perm a := by
  induction i generalizing a s with
  | zero => exact .refl _
  | succ i ih =>
    refine (ih _ _).trans ?_
    simp only [Array.swapIfInBounds]
    split
    · split
      · exact Array.swap_perm ..
      · exact .refl _
    · exact .refl _

/-- A shuffle keeps every card and adds none. -/
theorem shuffle_perm {α : Type} (l : List α) (s : σ) : (shuffle l s).1.Perm l :=
  (shuffleTo_perm _ l.toArray s).toList

end RandomSource

end SecretHitler
