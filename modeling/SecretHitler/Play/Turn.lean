import SecretHitler.Game
/-!
# Turns

How a nomination opens: for the next player in turn, or for a candidate whom
a president has called. A special election leaves the turn where it was.
-/

namespace SecretHitler

namespace Board

/-- Opens the nomination of a candidate for president. -/
def beginElection (b : Board) (candidate : Seat) (special : Bool) : Step :=
  ⟨.running ⟨b, .nomination candidate⟩, [.electionStarted candidate special]⟩

/-- Passes the turn and opens the nomination of the player it falls to. -/
def nextElection (b : Board) : Attempt Step := do
  let election ← b.election.advance b.seating
  return beginElection { b with election := election } election.ticker false

end Board

end SecretHitler
