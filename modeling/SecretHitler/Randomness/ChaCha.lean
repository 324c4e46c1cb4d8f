import SecretHitler.Randomness.Source
/-!
# The seeded source

ChaCha with twelve rounds as a stream of words: a key spread from a 64-bit
seed, blocks counted from zero, sixteen words a block.
-/

namespace SecretHitler

/-- A position in a seeded stream: the key, the number of the next block and
the words left of the last one. -/
structure ChaCha where
  key : List UInt32
  block : UInt64
  words : List UInt32
deriving DecidableEq, Inhabited

namespace ChaCha

/-- Sixteen words, worked on in place. -/
abbrev Grid := Vector UInt32 16

/-- A word turned left. -/
def rotate (x turn : UInt32) : UInt32 :=
  (x <<< turn) ||| (x >>> (32 - turn))

/-- The mixing step on four places of the grid. -/
def quarter (g : Grid) (a b c d : Fin 16) : Grid :=
  let g := g.set a (g[a] + g[b])
  let g := g.set d (rotate (g[d] ^^^ g[a]) 16)
  let g := g.set c (g[c] + g[d])
  let g := g.set b (rotate (g[b] ^^^ g[c]) 12)
  let g := g.set a (g[a] + g[b])
  let g := g.set d (rotate (g[d] ^^^ g[a]) 8)
  let g := g.set c (g[c] + g[d])
  g.set b (rotate (g[b] ^^^ g[c]) 7)

/-- A column round and a diagonal round. -/
def doubleRound (g : Grid) : Grid :=
  let g := quarter g 0 4 8 12
  let g := quarter g 1 5 9 13
  let g := quarter g 2 6 10 14
  let g := quarter g 3 7 11 15
  let g := quarter g 0 5 10 15
  let g := quarter g 1 6 11 12
  let g := quarter g 2 7 8 13
  quarter g 3 4 9 14

/-- The grid a block starts from: four constants, the key, the block's number
and two zeros. -/
def initial (key : List UInt32) (block : UInt64) : Grid :=
  let k := fun i => key.getD i 0
  #v[0x61707865, 0x3320646e, 0x79622d32, 0x6b206574,
    k 0, k 1, k 2, k 3, k 4, k 5, k 6, k 7,
    block.toUInt32, (block >>> 32).toUInt32, 0, 0]

/-- The words of a block. -/
def blockWords (key : List UInt32) (block : UInt64) : List UInt32 :=
  let start := initial key block
  let mixed := (List.range 6).foldl (fun g _ => doubleRound g) start
  (mixed.zipWith (· + ·) start).toList

/-- Key words spread from a 64-bit state: a linear step, then a word whose
bits are folded and turned by the state's top bits. -/
def spread : Nat → UInt64 → List UInt32
  | 0, _ => []
  | n + 1, state =>
    let state := state * 6364136223846793005 + 11634580027462260723
    let folded := (((state >>> 18) ^^^ state) >>> 27).toUInt32
    let turn := (state >>> 59).toUInt32
    ((folded >>> turn) ||| (folded <<< ((32 - turn) % 32))) :: spread n state

/-- The stream of a seed. -/
def ofSeed (seed : UInt64) : ChaCha := ⟨spread 8 seed, 0, []⟩

/-- The next word; a used-up block is followed by the next one. -/
def next (c : ChaCha) : UInt32 × ChaCha :=
  match c.words with
  | w :: rest => (w, { c with words := rest })
  | [] =>
    match blockWords c.key c.block with
    | w :: rest => (w, { c with block := c.block + 1, words := rest })
    | [] => (0, c)

instance : RandomSource ChaCha := ⟨next, 1 <<< 62⟩

end ChaCha

end SecretHitler
