import SecretHitler.Seating
/-!
# Elections

Who is next to be president, whom the last government bars from the
chancellery, and how many governments have failed in a row.
-/

namespace SecretHitler

/-- The state of the elections. -/
structure Election where
  /-- The last player whose turn it was to be president; special elections
  pass it by. -/
  ticker : Seat
  /-- The last government elected, while it bars its members. -/
  termLimited : Option Government
  /-- Governments that failed in a row. -/
  tracker : UInt32
deriving DecidableEq, Inhabited

/-- Where a failed government leaves the elections. -/
inductive FailedGovernment
  | advanced (election : Election)
  | chaos (election : Election)
deriving DecidableEq, Inhabited

namespace Election

/-- The elections before the first president's nomination. -/
def start (first : Seat) : Election := ⟨first, none, 0⟩

/-- Passes the turn to the next living player. -/
def advance (e : Election) (t : Seating) : Attempt Election := do
  let next ← t.nextAfter e.ticker
  return { e with ticker := next }

/-- Bars the members of a government. -/
def limit (e : Election) (g : Government) : Election := { e with termLimited := some g }

/-- Bars nobody. -/
def unlimit (e : Election) : Election := { e with termLimited := none }

/-- Starts the count of failed governments over. -/
def reset (e : Election) : Election := { e with tracker := 0 }

/-- Counts a failed government. At the threshold chaos breaks out and the
count starts over. -/
def fail (e : Election) (threshold : UInt32) : Attempt FailedGovernment := do
  let failed ← increment e.tracker
  if threshold ≤ failed then return .chaos e.reset
  else return .advanced { e with tracker := failed }

/-- Whether a seat is barred from the chancellery. With five or fewer living
players only the last chancellor is. -/
def isLimited (e : Election) (s : Seat) (living : Nat) : Bool :=
  match e.termLimited with
  | none => false
  | some g => if living ≤ 5 then g.chancellor == s else g.contains s

end Election

end SecretHitler
