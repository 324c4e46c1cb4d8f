import SecretHitler.Play.Turn
/-!
# Enactments

A policy goes onto its track. The goals are checked first; a fascist policy
that does not win may unlock a power, but only for a government: chaos
unlocks none.
-/

namespace SecretHitler

/-- What an enacted policy leads to. -/
inductive Enacted
  | gameOver (victory : Victory)
  | continues (board : Board)
  | unlocks (board : Board) (power : Power)
deriving DecidableEq

namespace Board

/-- Whether a track has reached its goal, and who wins by it. -/
def goalReached (b : Board) : Policy → Option Victory
  | .liberal => if b.config.liberalGoal ≤ b.track.liberal then some .liberalPolicyGoal else none
  | .fascist => if b.config.fascistGoal ≤ b.track.fascist then some .fascistPolicyGoal else none

/-- The power behind the space that a policy has just reached. -/
def unlocked (b : Board) : Policy → Option Power
  | .liberal => none
  | .fascist => b.config.powerAt b.track.fascist

/-- Enacts a policy on behalf of a government. -/
def enactByVote (b : Board) (p : Policy) : Attempt Enacted := do
  let b := { b with track := ← b.track.enact p }
  match b.goalReached p with
  | some v => return .gameOver v
  | none =>
    match b.unlocked p with
    | some power => return .unlocks b power
    | none => return .continues b

/-- Enacts a policy by chaos, which unlocks nothing. -/
def enactByChaos (b : Board) (p : Policy) : Attempt Enacted := do
  let b := { b with track := ← b.track.enact p }
  match b.goalReached p with
  | some v => return .gameOver v
  | none => return .continues b

/-- The report of a policy about to be enacted, with the counters as they
will stand. -/
def enactedEvent (b : Board) (p : Policy) (enactor : Enactor) : Attempt Event := do
  let track ← b.track.enact p
  return .policyEnacted p enactor track.liberal track.fascist

/-- Hands a power to the president. A power that needs a choice waits for it;
a peek shows the top of the deck and passes the turn. -/
def activatePower (b : Board) (power : Power) (president : Seat) : Attempt Step := do
  let activated : Event := .powerActivated power president
  match power.pending with
  | some pending => return ⟨.running ⟨b, .powerPending pending president⟩, [activated]⟩
  | none =>
    let hand ← b.deck.peek
    let step ← b.nextElection
    return step.after [activated, .policyPeek president hand]

/-- Enacts the policy that a chancellor chose. The count of failed
governments starts over before the goals are checked. -/
def enactByGovernment (b : Board) (president : Seat) (p : Policy) : Attempt Step := do
  let b := { b with election := b.election.reset }
  let report ← b.enactedEvent p .government
  match ← b.enactByVote p with
  | .gameOver v => return (Step.gameOver v).after [report]
  | .continues b => return (← b.nextElection).after [report]
  | .unlocks b power => return (← b.activatePower power president).after [report]

end Board

end SecretHitler
