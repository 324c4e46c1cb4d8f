import SecretHitler.Legal
import SecretHitler.Play.Apply
import SecretHitler.Randomness.ChaCha
import SecretHitler.SelfPlay.Strategy
/-!
# Self-play

A match seats strategies at a table, starts the game and plays it out: names
join in order, the first one starts, and then the first player with a
decision to take picks among its actions until somebody wins. An observer is
handed every state, numbered by the actions applied so far.
-/

namespace SecretHitler

/-- The most actions a match may take. -/
def maxSteps : Nat := 5000

/-- The strategies of the two parties. -/
structure Lineup (σ : Type) where
  liberal : Strategy σ
  fascist : Strategy σ

/-- The strategy of a party. -/
def Lineup.forParty {σ : Type} (l : Lineup σ) : Party → Strategy σ
  | .liberal => l.liberal
  | .fascist => l.fascist

/-- How a match ended. -/
structure Outcome where
  victory : Victory
  /-- The actions applied, joins and the start included. -/
  actions : Nat
  /-- The events they caused. -/
  events : Nat
  /-- The policies enacted before the last action. -/
  track : Track
deriving DecidableEq, Inhabited

/-- Why a match has no outcome. -/
inductive MatchError
  | rejected (step : Nat) (action : Action) (cause : Rejection)
  | incoherent (step : Nat) (violation : Violation)
  | stuck (step : Nat)
  | stepLimit (steps : Nat)
  | fault (cause : Fault)
deriving DecidableEq, Inhabited

/-- A failed match as it is reported. -/
def MatchError.message : MatchError → String
  | rejected step action _ =>
    "step " ++ toString step ++ ": legal action " ++ action.text ++ " was rejected"
  | incoherent step _ => "step " ++ toString step ++ ": incoherent state"
  | stuck step => "step " ++ toString step ++ ": no legal action in an unfinished game"
  | stepLimit steps => "no winner after " ++ toString steps ++ " steps"
  | fault cause => cause.message

/-- A failed match as diagnostics print it. -/
def MatchError.text : MatchError → String
  | rejected step action cause =>
    Diagnostic.labelled "Rejected"
      [("step", toString step), ("action", action.text), ("source", cause.text)]
  | incoherent step violation =>
    Diagnostic.labelled "Incoherent" [("step", toString step), ("source", violation.text)]
  | stuck step => Diagnostic.labelled "Stuck" [("step", toString step)]
  | stepLimit steps => "StepLimit(" ++ toString steps ++ ")"
  | fault cause => cause.message

/-- A halt during a step, as an error of the match. -/
def MatchError.ofHalt (step : Nat) (action : Action) : Halt → MatchError
  | .rejected cause => .rejected step action cause
  | .fault cause => .fault cause

/-- The names of a table of bots. -/
def botNames (count : Nat) : List String :=
  (List.range count).map fun i => "bot" ++ toString (i + 1)

namespace Match

variable {σ β : Type} [RandomSource σ]

/-- Everyone joins, and the first one starts. -/
def opening (names : List String) : List Action :=
  names.map .join ++ (names.head?.map .start).toList

/-- The action that the first player with a decision picks, if there is such
a player. -/
def pick (lineup : Lineup σ) (game : Game) : Draws σ (Option Action) :=
  match game with
  | .running g => do
    let legal ← g.legalActions
    match legal with
    | [] => return none
    | first :: _ =>
      let options := legal.filter fun a => a.actor = first.actor
      match g.board.seating.seatOf? first.actor with
      | none => return none
      | some seat =>
        let party ← g.board.roles.partyOf seat
        return some (← lineup.forParty party game first.actor options)
  | _ => return none

/-- Where a match stands: the game, the opening actions still to come, the
events so far and the policies of the last state under way. -/
structure Standing where
  game : Game
  opening : List Action
  events : Nat
  track : Track
deriving DecidableEq

/-- The standing before anybody has joined. -/
def Standing.first (rules : Rules) (names : List String) : Standing :=
  ⟨.new rules, Match.opening names, 0, {}⟩

/-- The standing with the policies of the present state noted. -/
def Standing.noted (s : Standing) : Standing :=
  match s.game with
  | .running g => { s with track := g.board.track }
  | _ => s

/-- The next action: from the opening, or else picked. -/
def nextAction (lineup : Lineup σ) (s : Standing) : Draws σ (Option (Action × List Action)) :=
  match s.opening with
  | a :: rest => return some (a, rest)
  | [] => return (← pick lineup s.game).map fun a => (a, [])

/-- Applies the `step`-th action. -/
def advance (lineup : Lineup σ) (step : Nat) (s : Standing) (rng : σ) :
    Except MatchError Standing × σ :=
  match nextAction lineup s rng with
  | (.error (.fault cause), rng) => (.error (.fault cause), rng)
  | (.error (.rejected _), rng) => (.error (.stuck step), rng)
  | (.ok none, rng) => (.error (.stuck step), rng)
  | (.ok (some (action, opening)), rng) =>
    match s.game.apply action rng with
    | (.error halt, rng) => (.error (MatchError.ofHalt step action halt), rng)
    | (.ok result, rng) =>
      match result.game.violation with
      | .error halt => (.error (MatchError.ofHalt step action halt), rng)
      | .ok (some v) => (.error (.incoherent step v), rng)
      | .ok none =>
        (.ok ⟨result.game, opening, s.events + result.events.length, s.track⟩, rng)

/-- Plays on for at most `left` actions, `step` having been applied. -/
def playOn (lineup : Lineup σ) (observe : β → Nat → Game → β) :
    (left step : Nat) → Standing → β → σ → Except MatchError Outcome × β
  | 0, step, _, seen, _ => (.error (.stepLimit step), seen)
  | left + 1, step, s, seen, rng =>
    match s.game with
    | .completed victory => (.ok ⟨victory, step, s.events, s.track⟩, seen)
    | _ =>
      match advance lineup step s.noted rng with
      | (.error e, _) => (.error e, seen)
      | (.ok s, rng) => playOn lineup observe left (step + 1) s (observe seen (step + 1) s.game) rng

/-- Plays a match from an empty lobby. -/
def play (rules : Rules) (names : List String) (lineup : Lineup σ)
    (observe : β → Nat → Game → β) (seen : β) (rng : σ) : Except MatchError Outcome × β :=
  playOn lineup observe maxSteps 0 (.first rules names) seen rng

/-- Plays a match on the luck of a seed. -/
def ofSeed (rules : Rules) (names : List String) (lineup : Lineup ChaCha) (seed : UInt64) :
    Except MatchError Outcome :=
  (play rules names lineup (fun _ _ _ => ()) () (ChaCha.ofSeed seed)).1

end Match

end SecretHitler
