import SecretHitler.Coherence
import SecretHitler.Play.Gathering
import SecretHitler.Play.Legislation
import SecretHitler.Play.Powers
import SecretHitler.Play.Voting
/-!
# Applying an action

The one way a game moves: an action is matched with the decision the game
waits for, carried out, and the new game is checked for coherence. The old
game is untouched, so a caller that was overtaken can simply ask again.
-/

namespace SecretHitler

variable {σ : Type} [RandomSource σ]

/-- Carries out an action on a game under way. -/
def Running.play (g : Running) (a : Action) : Draws σ Step :=
  match g.phase, a with
  | .nomination candidate, .nominate actor nominee =>
    .of (g.board.nominate candidate actor nominee)
  | .voting government votes, .vote voter ballot =>
    g.board.castVote government votes voter ballot
  | .presidentChoice government hand, .discard actor index =>
    .of (g.board.presidentDiscard government hand actor index)
  | .chancellorChoice government agenda veto, .enact actor index =>
    .of (g.board.chancellorEnact government agenda veto actor index)
  | .chancellorChoice government agenda veto, .requestVeto actor =>
    .of (g.board.requestVeto government agenda veto actor)
  | .chancellorChoice government agenda veto, .answerVeto actor approved =>
    g.board.answerVeto government agenda veto actor approved
  | .powerPending pending president, .usePower power actor target =>
    .of (g.board.usePower pending president power actor target)
  | _, _ => .of (.reject .notAwaited)

/-- Carries out an action in a lobby. -/
def Lobby.play (l : Lobby) (a : Action) : Draws σ Step :=
  match a with
  | .join name => .of (l.join name)
  | .leave name => .of (l.leave name)
  | .start actor => l.start actor
  | _ => .of (.reject .notAwaited)

namespace Game

/-- Carries out an action, without a look at the outcome. -/
def play : Game → Action → Draws σ Step
  | .lobby l, a => l.play a
  | .running g, a => g.play a
  | .completed _, _ => .of (.reject .gameCompleted)

/-- Carries out an action. An incoherent outcome is a fault. -/
def apply (g : Game) (a : Action) : Draws σ Step := do
  let step ← g.play a
  match ← step.game.violation with
  | none => return step
  | some v => Attempt.fail (.incoherent a v)

end Game

end SecretHitler
