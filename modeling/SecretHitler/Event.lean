import SecretHitler.Basic
/-!
# Events

What happened on the way to a new state, and who may be told. Cards in a
hand, cards on top of the deck and an investigated party are told to one
player; all else is public.
-/

namespace SecretHitler

/-- The three cards a president draws, front of the pile first. -/
structure Hand where
  first : Policy
  second : Policy
  third : Policy
deriving DecidableEq, Inhabited

/-- A hand as a list. -/
def Hand.toList (h : Hand) : List Policy := [h.first, h.second, h.third]

/-- The two cards a president passes to the chancellor. -/
structure Agenda where
  first : Policy
  second : Policy
deriving DecidableEq, Inhabited

/-- An agenda as a list. -/
def Agenda.toList (a : Agenda) : List Policy := [a.first, a.second]

/-- Who enacted a policy: an elected government, or chaos. -/
inductive Enactor
  | government
  | chaos
deriving DecidableEq, Inhabited

/-- Something that happened in a game. -/
inductive Event
  | playerJoined (name : String)
  | playerLeft (name : String)
  | gameStarted (players : UInt64)
  | electionStarted (candidate : Seat) (special : Bool)
  | chancellorNominated (government : Government)
  | voteCast (voter : Seat)
  | governmentElected (government : Government) (ballots : Table Seat Ballot)
  | governmentRejected (government : Government) (ballots : Table Seat Ballot) (tracker : UInt32)
  | policiesDrawn (president : Seat) (hand : Hand)
  | policiesPassed (chancellor : Seat) (agenda : Agenda)
  | deckReshuffled (drawPile : UInt64)
  | vetoRequested (government : Government)
  | vetoApproved (government : Government) (tracker : UInt32)
  | vetoRejected (government : Government)
  | countryInChaos (policy : Policy)
  | policyEnacted (policy : Policy) (enactor : Enactor) (liberal fascist : UInt32)
  | powerActivated (power : Power) (president : Seat)
  | policyPeek (president : Seat) (hand : Hand)
  | playerInvestigated (president target : Seat)
  | partyRevealed (president target : Seat) (party : Party)
  | specialElectionCalled (president candidate : Seat)
  | playerExecuted (target : Seat)
  | gameOver (victory : Victory)
deriving DecidableEq, Inhabited

/-- Who may be shown an event. -/
inductive Audience
  | everyone
  | only (seat : Seat)
deriving DecidableEq, Inhabited

namespace Event

/-- Hidden information goes to the one player entitled to it. -/
def audience : Event → Audience
  | policiesDrawn president _ => .only president
  | policyPeek president _ => .only president
  | partyRevealed president _ _ => .only president
  | policiesPassed chancellor _ => .only chancellor
  | _ => .everyone

/-- Whether everyone may be shown the event. -/
def isPublic (e : Event) : Bool := e.audience == .everyone

/-- Whether the player in a seat may be shown the event. -/
def visibleTo (e : Event) (s : Seat) : Bool :=
  match e.audience with
  | .everyone => true
  | .only owner => owner == s

end Event

end SecretHitler
