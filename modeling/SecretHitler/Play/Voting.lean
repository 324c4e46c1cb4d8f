import SecretHitler.Play.Chaos
/-!
# Nominating and voting

A candidate for president nominates a chancellor, and all living players vote
on the pair. The last ballot decides: an elected government draws three
cards, unless Hitler's election wins on the spot; a rejected one has failed.
-/

namespace SecretHitler

namespace Board

variable {σ : Type} [RandomSource σ]

/-- Nominates a chancellor and opens the vote. -/
def nominate (b : Board) (candidate : Seat) (actor nominee : String) : Attempt Step := do
  let president ← b.seating.authorize actor candidate
  let chancellor ← b.seating.target nominee
  if (b.eligible president).contains chancellor then
    let government : Government := ⟨president, chancellor⟩
    return ⟨.running ⟨b, .voting government .none⟩, [.chancellorNominated government]⟩
  else .reject .ineligibleChancellor

/-- Whether electing a government makes Hitler chancellor when that wins. -/
def hitlerElected (b : Board) (g : Government) : Attempt Bool :=
  if b.config.hitlerWins b.track.fascist then do
    return (← b.roles.roleOf g.chancellor) == .hitler
  else .ok false

/-- Puts an elected government to work. -/
def elected (b : Board) (g : Government) : Draws σ Step := do
  if ← b.hitlerElected g then return .gameOver .hitlerElected
  else
    let b := { b with election := b.election.limit g }
    let drawn ← b.deck.drawHand
    let b := { b with deck := drawn.deck }
    return ⟨.running ⟨b, .presidentChoice g drawn.cards⟩,
      .policiesDrawn g.president drawn.cards :: reshuffleEvents drawn.deck drawn.reshuffled⟩

/-- Decides a vote in which every ballot is in. -/
def resolveVote (b : Board) (g : Government) (votes : Votes) : Draws σ Step := do
  if votes.elects then
    let step ← b.elected g
    return step.after [.governmentElected g votes.ballots]
  else
    let tracker ← increment b.election.tracker
    let step ← b.afterFailedGovernment
    return step.after [.governmentRejected g votes.ballots tracker]

/-- Casts a ballot. -/
def castVote (b : Board) (g : Government) (votes : Votes) (voter : String) (ballot : Ballot) :
    Draws σ Step := do
  let seat ← Attempt.orReject .actorNotPlayer (b.seating.seatOf? voter)
  let votes ← votes.cast seat ballot
  if votes.isComplete b.seating then
    let step ← b.resolveVote g votes
    return step.after [.voteCast seat]
  else return ⟨.running ⟨b, .voting g votes⟩, [.voteCast seat]⟩

end Board

end SecretHitler
