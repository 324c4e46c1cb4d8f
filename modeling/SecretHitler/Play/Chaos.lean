import SecretHitler.Play.Enactment
/-!
# Failed governments

A rejected or vetoed government counts as failed. When enough have failed in
a row the country falls into chaos: the top card is enacted without a power,
nobody is barred any more and the count starts over.
-/

namespace SecretHitler

namespace Board

variable {σ : Type} [RandomSource σ]

/-- The report of a reshuffle, if there was one. -/
def reshuffleEvents (d : Deck) (reshuffled : Bool) : List Event :=
  if reshuffled then [.deckReshuffled d.drawSize] else []

/-- Goes on from a policy that chaos enacted. -/
def afterChaos (enacted : Enacted) : Attempt Step :=
  match enacted with
  | .gameOver v => .ok (.gameOver v)
  | .continues b => b.nextElection
  | .unlocks b _ => b.nextElection

/-- Enacts the top card of the deck. -/
def countryInChaos (b : Board) : Draws σ Step := do
  let drawn ← b.deck.drawSingle
  let b := { b with deck := drawn.deck }
  let report ← b.enactedEvent drawn.cards .chaos
  let enacted ← b.enactByChaos drawn.cards
  let step ← afterChaos enacted
  return step.after <|
    .countryInChaos drawn.cards :: reshuffleEvents drawn.deck drawn.reshuffled ++ [report]

/-- Goes on from a government that was rejected or vetoed. -/
def afterFailedGovernment (b : Board) : Draws σ Step := do
  match ← b.election.fail b.config.chaosThreshold with
  | .advanced election => nextElection { b with election := election }
  | .chaos election => countryInChaos { b with election := election.unlimit }

end Board

end SecretHitler
