import SecretHitler.Play.Chaos
/-!
# The legislative session

The president discards one of three policies and passes two; the chancellor
enacts one of them and discards the other. Once the veto is unlocked the
chancellor may ask, once per agenda, to discard both; if the president
agrees the government has failed.
-/

namespace SecretHitler

/-- A card of a hand, and the two others in order. -/
def Hand.take (h : Hand) : Nat → Option (Policy × Agenda)
  | 0 => some (h.first, ⟨h.second, h.third⟩)
  | 1 => some (h.second, ⟨h.first, h.third⟩)
  | 2 => some (h.third, ⟨h.first, h.second⟩)
  | _ => none

/-- A card of an agenda, and the other one. -/
def Agenda.take (a : Agenda) : Nat → Option (Policy × Policy)
  | 0 => some (a.first, a.second)
  | 1 => some (a.second, a.first)
  | _ => none

namespace Board

variable {σ : Type} [RandomSource σ]

/-- Discards one of the president's cards and passes the others. -/
def presidentDiscard (b : Board) (g : Government) (hand : Hand) (actor : String)
    (index : UInt64) : Attempt Step := do
  let _ ← b.seating.authorize actor g.president
  let (discarded, agenda) ← .orReject (.invalidPolicyIndex index) (hand.take index.toNat)
  let b := { b with deck := b.deck.discard discarded }
  return ⟨.running ⟨b, .chancellorChoice g agenda .notRequested⟩, [.policiesPassed g.chancellor agenda]⟩

/-- Enacts one of the chancellor's cards and discards the other. -/
def chancellorEnact (b : Board) (g : Government) (agenda : Agenda) (veto : VetoStatus)
    (actor : String) (index : UInt64) : Attempt Step := do
  let _ ← b.seating.authorize actor g.chancellor
  if veto = .requested then .reject .vetoPending
  else
    let (enacted, discarded) ← .orReject (.invalidPolicyIndex index) (agenda.take index.toNat)
    enactByGovernment { b with deck := b.deck.discard discarded } g.president enacted

/-- Asks the president to agree to a veto. -/
def requestVeto (b : Board) (g : Government) (agenda : Agenda) (veto : VetoStatus)
    (actor : String) : Attempt Step := do
  let _ ← b.seating.authorize actor g.chancellor
  match veto with
  | .requested => .reject .vetoPending
  | .rejected => .reject .vetoAlreadyUsed
  | .notRequested =>
    if b.config.vetoUnlocked b.track.fascist then
      return ⟨.running ⟨b, .chancellorChoice g agenda .requested⟩, [.vetoRequested g]⟩
    else .reject .vetoNotUnlocked

/-- Discards an agenda that president and chancellor agree to veto. -/
def approveVeto (b : Board) (g : Government) (agenda : Agenda) : Draws σ Step := do
  let (deck, reshuffled) ← .draw (b.deck.discardAll agenda.toList).replenish
  let tracker ← increment b.election.tracker
  let step ← afterFailedGovernment { b with deck := deck }
  return step.after (.vetoApproved g tracker :: reshuffleEvents deck reshuffled)

/-- Answers a request for a veto. -/
def answerVeto (b : Board) (g : Government) (agenda : Agenda) (veto : VetoStatus)
    (actor : String) (approved : Bool) : Draws σ Step := do
  let _ ← b.seating.authorize actor g.president
  if veto ≠ .requested then Attempt.reject .notAwaited
  else if approved then b.approveVeto g agenda
  else return ⟨.running ⟨b, .chancellorChoice g agenda .rejected⟩, [.vetoRejected g]⟩

end Board

end SecretHitler
