import SecretHitler.Seating
/-!
# Votes

The ballots cast on a proposed government. A vote is complete when every
living player has a ballot in, and elects by strict majority of all ballots.
-/

namespace SecretHitler

/-- The ballots cast so far. -/
structure Votes where
  ballots : Table Seat Ballot
deriving DecidableEq, Inhabited

namespace Votes

/-- No ballot cast. -/
def none : Votes := ⟨.empty⟩

/-- Whether a seat has cast its ballot. -/
def hasVoted (v : Votes) (s : Seat) : Bool := v.ballots.contains s

/-- Adds a ballot; a second one from the same seat is refused. -/
def cast (v : Votes) (s : Seat) (b : Ballot) : Attempt Votes :=
  if v.hasVoted s then .reject .alreadyVoted else .ok ⟨v.ballots.insert s b⟩

/-- Whether every living player has a ballot in. -/
def isComplete (v : Votes) (t : Seating) : Bool := t.seats.all v.hasVoted

/-- How many ballots of a kind are in. -/
def count (v : Votes) (b : Ballot) : Nat := v.ballots.values.count b

/-- Whether the government is elected: ties reject it. -/
def elects (v : Votes) : Bool := v.count .no < v.count .yes

end Votes

end SecretHitler
