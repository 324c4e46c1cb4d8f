import SecretHitler.Game
/-!
# Strategies

A strategy picks one of the actions open to a player. The random one picks
any. The partisan one plays for its party with what its role lets it know:
it passes its own policies, a fascist backs governments with a fascist it
knows and pushes Hitler into the chancellery once that wins; among equally
good actions it picks any.
-/

namespace SecretHitler

/-- A way to pick among actions: from the game, the player and the actions
open to it. -/
abbrev Strategy (σ : Type) := Game → String → List Action → Draws σ Action

/-- What a partisan player goes by: the board in front of it and what it was
told. -/
structure View where
  party : Party
  /-- The players it knows to be fascist, itself and Hitler included. -/
  team : List Seat
  hitler : Option Seat
deriving DecidableEq

namespace View

/-- The view of a player that was told something. -/
def ofKnowledge (k : Knowledge) : View where
  party := k.role.party
  team := match k.role.party with
    | .liberal => k.knownFascists
    | .fascist => k.knownFascists ++ k.player :: k.knownHitler.toList
  hitler := if k.role = .hitler then some k.player else k.knownHitler

/-- Whether a name belongs to a known fascist. -/
def isTeam (v : View) (t : Seating) (name : String) : Bool :=
  match t.seatOf? name with
  | some s => v.team.contains s
  | none => false

/-- One for what is wanted, else zero. -/
def wanted (b : Bool) : Int := if b then 1 else 0

/-- Whether an agenda holds no card of the player's party. -/
def isHopeless (v : View) (a : Agenda) : Bool := a.toList.all (· ≠ v.party.policy)

/-- How much a fascist wants a nominee in the chancellery. -/
def scoreNominee (v : View) (b : Board) (nominee : String) : Int :=
  if b.config.hitlerWins b.track.fascist && v.hitler.isSome
      && b.seating.seatOf? nominee == v.hitler then 3
  else wanted (v.isTeam b.seating nominee)

/-- How much an action is wanted. -/
def score (v : View) (g : Running) (a : Action) : Int :=
  match g.phase, a with
  | .presidentChoice _ hand, .discard _ index =>
    wanted (hand.toList[index.toNat]?.any (· ≠ v.party.policy))
  | .chancellorChoice _ agenda _, .enact _ index =>
    wanted (agenda.toList[index.toNat]?.any (· = v.party.policy))
  | .chancellorChoice _ agenda _, .requestVeto _ => if v.isHopeless agenda then 2 else -1
  | .chancellorChoice _ agenda _, .answerVeto _ approved => wanted (approved == v.isHopeless agenda)
  | .voting government _, .vote _ ballot =>
    let friendly := match v.party with
      | .liberal => true
      | .fascist => v.team.any government.contains
    wanted ((ballot == .yes) == friendly)
  | _, .nominate _ nominee =>
    match v.party with
    | .liberal => 0
    | .fascist => v.scoreNominee g.board nominee
  | _, .usePower power _ target =>
    let ally := v.isTeam g.board.seating target
    match power with
    | .specialElection => wanted ally
    | .investigateParty => wanted !ally
    | .execution => wanted !ally
  | _, .leave _ => -10
  | _, _ => 0

/-- The most wanted of some actions, in their order. -/
def best (v : View) (g : Running) (options : List Action) : List Action :=
  options.filter fun a => options.all fun other => v.score g other ≤ v.score g a

end View

namespace Strategy

variable {σ : Type} [RandomSource σ]

/-- Picks any action. -/
def random : Strategy σ := fun _ _ options => Draws.choose options

/-- Picks any of the actions that serve the player's party best. Without a
seat in a game under way every action is as good as another. -/
def partisan : Strategy σ := fun game actor options =>
  match game with
  | .running g =>
    match g.board.seating.seatOf? actor with
    | some me => do
      let knowledge ← g.board.knowledgeOf me
      Draws.choose ((View.ofKnowledge knowledge).best g options)
    | none => Draws.choose options
  | _ => Draws.choose options

end Strategy

/-- The strategies that have a name. -/
inductive Bot
  | random
  | partisan
deriving DecidableEq, Inhabited

namespace Bot

/-- A strategy's name. -/
def name : Bot → String
  | random => "random"
  | partisan => "partisan"

/-- The strategy of a name. -/
def ofName? (name : String) : Option Bot :=
  if name = "random" then some random else if name = "partisan" then some partisan else none

/-- How a named strategy picks. -/
def strategy {σ : Type} [RandomSource σ] : Bot → Strategy σ
  | random => .random
  | partisan => .partisan

end Bot

end SecretHitler
