import SecretHitler.Deck
import SecretHitler.Election
import SecretHitler.RoleMap
import SecretHitler.Rules.Basic
import SecretHitler.Votes
/-!
# Games

A game is a lobby, a running game or a finished one. A running game is a
board and a phase: the one decision the board waits for. Transitions build
new games; nothing is changed in place.
-/

namespace SecretHitler

/-- The policies enacted so far. -/
structure Track where
  liberal : UInt32 := 0
  fascist : UInt32 := 0
deriving DecidableEq, Inhabited

namespace Track

/-- The policies of a kind. -/
def count (t : Track) : Policy → UInt32
  | .liberal => t.liberal
  | .fascist => t.fascist

/-- The track with one more policy on it. -/
def enact (t : Track) : Policy → Attempt Track
  | .liberal => return { t with liberal := ← increment t.liberal }
  | .fascist => return { t with fascist := ← increment t.fascist }

end Track

/-- Everything about a running game but the decision it waits for. -/
structure Board where
  config : Configuration
  seating : Seating
  roles : RoleMap
  track : Track
  deck : Deck
  election : Election
  investigated : SeatSet
deriving DecidableEq, Inhabited

namespace Board

/-- Checks that the role map covers exactly the seated players. -/
def assertRolesMatch (b : Board) : Attempt Unit :=
  if b.roles.seats = b.seating.seats then .ok ()
  else .fail (.rolesDiffer b.roles.seats b.seating.seats)

/-- A board before the first policy. -/
def setUp (config : Configuration) (seating : Seating) (roles : RoleMap) (deck : Deck)
    (election : Election) : Attempt Board := do
  let b : Board := ⟨config, seating, roles, {}, deck, election, .empty⟩
  b.assertRolesMatch
  return b

/-- How many players are alive. -/
def living (b : Board) : Nat := b.seating.size

/-- What the player in a seat was told about the roles. -/
def knowledgeOf (b : Board) (s : Seat) : Attempt Knowledge :=
  b.roles.knowledge s b.config.hitlerKnowsFascists

/-- Whom a candidate for president may nominate: any other living player who
is not barred. -/
def eligible (b : Board) (candidate : Seat) : List Seat :=
  b.seating.seats.filter fun s => s ≠ candidate && !b.election.isLimited s b.living

end Board

/-- How far the talk about a veto has come. -/
inductive VetoStatus
  | notRequested
  | requested
  | rejected
deriving DecidableEq, Inhabited

/-- The decision a running game waits for. -/
inductive Phase
  | nomination (candidate : Seat)
  | voting (government : Government) (votes : Votes)
  | presidentChoice (government : Government) (hand : Hand)
  | chancellorChoice (government : Government) (agenda : Agenda) (veto : VetoStatus)
  | powerPending (power : PendingPower) (president : Seat)
deriving DecidableEq, Inhabited

namespace Phase

/-- The cards held outside the deck. -/
def cards : Phase → List Policy
  | presidentChoice _ hand => hand.toList
  | chancellorChoice _ agenda _ => agenda.toList
  | _ => []

/-- Whether somebody is choosing among cards. -/
def isPolicyChoice (p : Phase) : Bool := !p.cards.isEmpty

end Phase

/-- A game under way. -/
structure Running where
  board : Board
  phase : Phase
deriving DecidableEq, Inhabited

/-- Players waiting for a game to start, in the order in which they joined. -/
structure Lobby where
  players : List String
  rules : Rules
deriving DecidableEq, Inhabited

namespace Lobby

/-- The empty lobby of a rule set. -/
def opened (rules : Rules) : Lobby := ⟨[], rules⟩

/-- Whether a name has joined. -/
def contains (l : Lobby) (name : String) : Bool := l.players.contains name

/-- Whether nobody else may join. -/
def isFull (l : Lobby) : Bool := l.rules.maxPlayers.toNat ≤ l.players.length

end Lobby

/-- A game, from its lobby to its end. -/
inductive Game
  | lobby (lobby : Lobby)
  | running (game : Running)
  | completed (victory : Victory)
deriving DecidableEq

namespace Game

/-- A game nobody has joined. -/
def new (rules : Rules) : Game := .lobby (.opened rules)

instance : Inhabited Game := ⟨new .standard⟩

/-- The game under way, if it is. -/
def running? : Game → Option Running
  | running g => some g
  | _ => none

/-- How the game was won, if it is over. -/
def victory? : Game → Option Victory
  | completed v => some v
  | _ => none

end Game

/-- A new state and what happened on the way there. -/
structure Step where
  game : Game
  events : List Event
deriving DecidableEq, Inhabited

namespace Step

/-- The end of a game. -/
def gameOver (v : Victory) : Step := ⟨.completed v, [.gameOver v]⟩

/-- A step that is led up to by earlier events. -/
def after (earlier : List Event) (s : Step) : Step := { s with events := earlier ++ s.events }

/-- The events the player in a seat may be shown: all public ones and its
own. -/
def eventsFor (s : Step) (seat : Seat) : List Event := s.events.filter (·.visibleTo seat)

end Step

end SecretHitler
