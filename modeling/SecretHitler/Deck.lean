import SecretHitler.Event
import SecretHitler.Randomness.Draws
/-!
# The deck

A draw pile, front first, and a discard pile. A draw leaves at least three
cards behind or shuffles both piles into a new draw pile. The standard deck
holds seventeen cards.
-/

namespace SecretHitler

/-- Liberal cards in the standard deck. -/
def liberalCards : Nat := 6

/-- Fascist cards in the standard deck. -/
def fascistCards : Nat := 11

/-- How many cards of a kind the standard deck holds. -/
def Policy.cards : Policy → Nat
  | liberal => liberalCards
  | fascist => fascistCards

/-- The cards a president draws, and the fewest that the draw pile keeps
between turns. -/
def standardDraw : Nat := 3

/-- Two piles of cards. -/
structure Deck where
  drawPile : List Policy
  discardPile : List Policy
deriving DecidableEq, Inhabited

/-- Cards taken off a deck, the deck left behind, and whether it was
shuffled. -/
structure Drawn (α : Type) where
  cards : α
  deck : Deck
  reshuffled : Bool
deriving DecidableEq

namespace Deck

variable {σ : Type} [RandomSource σ]

/-- The seventeen cards in the order in which they are boxed. -/
def box : List Policy :=
  List.replicate liberalCards .liberal ++ List.replicate fascistCards .fascist

/-- A standard deck, freshly shuffled. -/
def standard (s : σ) : Deck × σ :=
  let (pile, s) := RandomSource.shuffle box s
  (⟨pile, []⟩, s)

/-- Cards of a kind in both piles. -/
def copies (d : Deck) (p : Policy) : Nat :=
  d.drawPile.count p + d.discardPile.count p

/-- The cards of a kind as they are counted: a number too large for a 32-bit word is
truncated to one. -/
def count (d : Deck) (p : Policy) : Nat := d.copies p % UInt32.size

/-- Lays a card on the discard pile. -/
def discard (d : Deck) (p : Policy) : Deck :=
  { d with discardPile := d.discardPile ++ [p] }

/-- Lays cards on the discard pile, first to last. -/
def discardAll (d : Deck) (ps : List Policy) : Deck :=
  { d with discardPile := d.discardPile ++ ps }

/-- Shuffles both piles into the draw pile when it holds fewer than three
cards. The flag tells whether it did. -/
def replenish (d : Deck) (s : σ) : (Deck × Bool) × σ :=
  if standardDraw ≤ d.drawPile.length then ((d, false), s)
  else
    let (pile, s) := RandomSource.shuffle (d.drawPile ++ d.discardPile) s
    ((⟨pile, []⟩, true), s)

/-- Takes three cards off the draw pile. -/
def drawHand (d : Deck) : Draws σ (Drawn Hand) :=
  match d.drawPile with
  | a :: b :: c :: rest => do
    let (deck, reshuffled) ← .draw (replenish { d with drawPile := rest })
    return ⟨⟨a, b, c⟩, deck, reshuffled⟩
  | short => .of (.fail (.shortDraw standardDraw short.length))

/-- Takes one card off the draw pile. -/
def drawSingle (d : Deck) : Draws σ (Drawn Policy) :=
  match d.drawPile with
  | a :: rest => do
    let (deck, reshuffled) ← .draw (replenish { d with drawPile := rest })
    return ⟨a, deck, reshuffled⟩
  | [] => .of (.fail (.shortDraw 1 0))

/-- The top three cards, left in place. -/
def peek (d : Deck) : Attempt Hand :=
  match d.drawPile with
  | a :: b :: c :: _ => .ok ⟨a, b, c⟩
  | short => .fail (.shortPeek short.length)

/-- The length of the draw pile as events report it. -/
def drawSize (d : Deck) : UInt64 := .ofNat d.drawPile.length

end Deck

end SecretHitler
