import SecretHitler.Game
/-!
# Coherence

What every running game must satisfy: all seventeen cards are accounted for
among the track, both piles and the cards in hand; the draw pile holds a full
draw unless somebody is choosing cards; the roles cover exactly the living
players; and there is one Hitler. A lobby and a finished game have nothing to
check.
-/

namespace SecretHitler

namespace Running

/-- Cards of a kind on the track, in both piles and in hand. -/
def cardCount (g : Running) (p : Policy) : Nat :=
  (g.board.track.count p).toNat + g.board.deck.count p + g.phase.cards.count p

/-- What is wrong with the cards of a kind. The sum is taken in 32-bit
words. -/
def cardViolation (g : Running) (p : Policy) : Attempt (Option Violation) :=
  if UInt32.size ≤ g.cardCount p then .fail .overflow
  else if g.cardCount p = p.cards then .ok none
  else .ok (some (.cardCount p p.cards (g.cardCount p)))

/-- What is wrong with the draw pile and the roles. -/
def tableViolation (g : Running) : Option Violation :=
  if g.board.deck.drawPile.length < standardDraw ∧ ¬ g.phase.isPolicyChoice then
    some (.drawPileTooSmall g.board.deck.drawPile.length)
  else if g.board.roles.seats ≠ g.board.seating.seats then some .roleMapMismatch
  else if g.board.roles.hitlers ≠ 1 then some (.hitlerCount g.board.roles.hitlers)
  else none

/-- The first thing that is wrong with a running game. -/
def violation (g : Running) : Attempt (Option Violation) := do
  match ← g.cardViolation .liberal with
  | some v => return some v
  | none =>
    match ← g.cardViolation .fascist with
    | some v => return some v
    | none => return g.tableViolation

end Running

/-- The first thing that is wrong with a game. -/
def Game.violation : Game → Attempt (Option Violation)
  | .running g => g.violation
  | _ => .ok none

end SecretHitler
