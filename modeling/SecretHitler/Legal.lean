import SecretHitler.Game
/-!
# Legal actions

Every action that some participant may take now, written down from the rules
and not from their execution. Joining is left out of lobbies: outside names
are without number.
-/

namespace SecretHitler

/-- The name on a seat that must be taken. -/
def Board.nameOf (b : Board) (s : Seat) : Attempt String :=
  .orFail (.unseated s) (b.seating.nameOf? s)

/-- What may be done in a lobby: anybody leaves, and anybody starts a game of
a size that the rules cover. -/
def Lobby.legalActions (l : Lobby) : List Action :=
  l.players.map .leave ++
    if (l.rules.configurationFor l.players.length).isSome then l.players.map .start else []

/-- Whom a president may aim a power at. -/
def Board.targets (b : Board) (power : PendingPower) (president : Seat) : List Seat :=
  b.seating.seats.filter fun s =>
    s ≠ president && (power ≠ .investigateParty || !b.investigated.contains s)

/-- What may be done in a game under way. -/
def Running.legalActions (g : Running) : Attempt (List Action) :=
  match g.phase with
  | .nomination candidate => do
    let actor ← g.board.nameOf candidate
    (g.board.eligible candidate).mapM fun s => return .nominate actor (← g.board.nameOf s)
  | .voting _ votes =>
    .ok <| (g.board.seating.names.entries.filter fun e => !votes.hasVoted e.1).flatMap
      fun e => [.vote e.2 .yes, .vote e.2 .no]
  | .presidentChoice government _ => do
    let actor ← g.board.nameOf government.president
    return [.discard actor 0, .discard actor 1, .discard actor 2]
  | .chancellorChoice government _ .requested => do
    let actor ← g.board.nameOf government.president
    return [.answerVeto actor true, .answerVeto actor false]
  | .chancellorChoice government _ veto => do
    let actor ← g.board.nameOf government.chancellor
    let mayAsk := veto == .notRequested && g.board.config.vetoUnlocked g.board.track.fascist
    return [.enact actor 0, .enact actor 1] ++ if mayAsk then [.requestVeto actor] else []
  | .powerPending power president => do
    let actor ← g.board.nameOf president
    (g.board.targets power president).mapM fun s =>
      return .usePower power actor (← g.board.nameOf s)

/-- What may be done in a game. -/
def Game.legalActions : Game → Attempt (List Action)
  | .lobby l => .ok l.legalActions
  | .running g => g.legalActions
  | .completed _ => .ok []

end SecretHitler
