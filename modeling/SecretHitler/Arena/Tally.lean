import SecretHitler.SelfPlay.Match
/-!
# The arena

Many matches on consecutive seeds, and the tally of their outcomes: wins by
party, reasons of victory, and the length of every match. An arena may have a
clock, which it looks at before and after a match.
-/

namespace SecretHitler

instance : Ranked Party where
  rank
    | .liberal => 0
    | .fascist => 1
  rank_inj {a b} h := by cases a <;> cases b <;> simp_all

instance : Ranked Victory where
  rank
    | .liberalPolicyGoal => 0
    | .hitlerKilled => 1
    | .fascistPolicyGoal => 2
    | .hitlerElected => 3
  rank_inj {a b} h := by cases a <;> cases b <;> simp_all

/-- The outcomes of an arena. -/
structure Tally where
  games : Nat
  players : Nat
  wins : Table Party Nat := .empty
  reasons : Table Victory Nat := .empty
  /-- The actions of every match, in the order of the seeds. -/
  actions : List Nat := []
  /-- The time every match took, in milliseconds, as far as it was taken. -/
  durations : List Float := []

namespace Tally

/-- One more under a key. -/
def bump {κ : Type} [Ranked κ] (t : Table κ Nat) (k : κ) : Table κ Nat :=
  t.insert k ((t.find? k).getD 0 + 1)

/-- Adds the outcome of a match. -/
def record (t : Tally) (o : Outcome) : Tally :=
  { t with
    wins := bump t.wins o.victory.party
    reasons := bump t.reasons o.victory
    actions := t.actions ++ [o.actions] }

/-- Adds the time of a match, from two readings of a clock in nanoseconds. -/
def timed (t : Tally) : (start stop : Option Nat) → Tally
  | some start, some stop =>
    { t with durations := t.durations ++ [(UInt64.ofNat (stop - start)).toFloat / 1000000] }
  | _, _ => t

end Tally

namespace Arena

/-- The match of an arena that a seed decides. -/
def game (rules : Rules) (lineup : Lineup ChaCha) (players seed : Nat) :
    Except MatchError Outcome :=
  if seed < UInt64.size then Match.ofSeed rules (botNames players) lineup (.ofNat seed)
  else .error (.fault .overflow)

section Clock

variable {m : Type → Type} [Monad m]

/-- Adds to a tally the matches on the next `games` seeds and the times they
took; the first match that fails ends the arena. -/
def runFrom (clock : m (Option Nat)) (rules : Rules) (lineup : Lineup ChaCha) (players : Nat) :
    (games seed : Nat) → Tally → m (Except MatchError Tally)
  | 0, _, t => return .ok t
  | games + 1, seed, t => do
    let start ← clock
    match game rules lineup players seed with
    | .error e => return .error e
    | .ok o =>
      let stop ← clock
      runFrom clock rules lineup players games (seed + 1) ((t.record o).timed start stop)

/-- The tally of the matches on `games` seeds from `seed` on, by a clock. -/
def runTimed (clock : m (Option Nat)) (rules : Rules) (lineup : Lineup ChaCha)
    (players games seed : Nat) : m (Except MatchError Tally) :=
  runFrom clock rules lineup players games seed { games := games, players := players }

end Clock

/-- The tally of the matches on `games` seeds from `seed` on, their times not
taken. -/
def run (rules : Rules) (lineup : Lineup ChaCha) (players games seed : Nat) :
    Except MatchError Tally :=
  Id.run (runTimed (pure none) rules lineup players games seed)

end Arena

end SecretHitler
