import SecretHitler.Play.Turn
/-!
# Presidential powers

The powers that wait for the president's choice of another player: to see a
party, to call the next candidate, or to kill. Killing Hitler ends the game.
-/

namespace SecretHitler

namespace Board

/-- Shows the president a player's party. Nobody is investigated twice. -/
def investigate (b : Board) (president target : Seat) : Attempt Step := do
  if b.investigated.contains target then .reject .alreadyInvestigated
  else
    let party ← b.roles.partyOf target
    let step ← nextElection { b with investigated := b.investigated.insert target () }
    return step.after [.playerInvestigated president target, .partyRevealed president target party]

/-- Makes a player the next candidate, out of turn. -/
def callElection (b : Board) (president candidate : Seat) : Step :=
  (b.beginElection candidate true).after [.specialElectionCalled president candidate]

/-- Kills a player. -/
def execute (b : Board) (target : Seat) : Attempt Step := do
  let killed : Event := .playerExecuted target
  if (← b.roles.roleOf target) = .hitler then return (Step.gameOver .hitlerKilled).after [killed]
  else
    let roles ← b.roles.without target
    let b := { b with seating := b.seating.without target, roles := roles }
    b.assertRolesMatch
    return (← b.nextElection).after [killed]

/-- Uses the power that is pending. The president holds it, and the target is
some other living player. -/
def usePower (b : Board) (pending : PendingPower) (owner : Seat) (power : PendingPower)
    (actor target : String) : Attempt Step := do
  if power ≠ pending then .reject .notAwaited
  else
    let president ← b.seating.authorize actor owner
    let target ← b.seating.target target
    if target = president then .reject .invalidTarget
    else
      match power with
      | .investigateParty => b.investigate president target
      | .specialElection => return b.callElection president target
      | .execution => b.execute target

end Board

end SecretHitler
