import SecretHitler.Basic
/-!
# Rules

A rule set says how many may play, how far each policy track runs, when
Hitler's election, the veto and chaos set in, and, per bracket of table
sizes, how many fascists are dealt and which powers the fascist track holds.
The configuration of a game is what a rule set says about one table size.
-/

namespace SecretHitler

/-- The smallest table the game is made for. -/
def minTable : Nat := 5

/-- The largest table the game is made for. -/
def maxTable : Nat := 10

/-- The thresholds and powers that one game is played under. -/
structure Configuration where
  liberalGoal : UInt32
  fascistGoal : UInt32
  /-- Fascist policies from which electing Hitler chancellor wins; none
  disables the condition. -/
  hitlerThreshold : Option UInt32
  vetoThreshold : UInt32
  /-- Failed governments in a row that throw the country into chaos. -/
  chaosThreshold : UInt32
  /-- Plain fascists dealt, not counting Hitler. -/
  fascists : UInt64
  hitlerKnowsFascists : Bool
  /-- The power behind each space of the fascist track. -/
  powers : Table UInt32 Power
deriving DecidableEq, Inhabited

namespace Configuration

/-- The power unlocked by a count of fascist policies. -/
def powerAt (c : Configuration) (fascist : UInt32) : Option Power := c.powers.find? fascist

/-- Whether electing Hitler chancellor wins at a count of fascist policies. -/
def hitlerWins (c : Configuration) (fascist : UInt32) : Bool :=
  match c.hitlerThreshold with
  | some threshold => threshold ≤ fascist
  | none => false

/-- Whether a veto may be requested at a count of fascist policies. -/
def vetoUnlocked (c : Configuration) (fascist : UInt32) : Bool := c.vetoThreshold ≤ fascist

end Configuration

/-- One space of the fascist track that holds a power. -/
structure PowerSlot where
  fascistPolicies : UInt32
  power : Power
deriving DecidableEq, Inhabited

/-- The setup of the table sizes from a smallest to a largest. -/
structure Bracket where
  minPlayers : UInt64
  maxPlayers : UInt64
  fascists : UInt64
  hitlerKnowsFascists : Bool := false
  powers : List PowerSlot := []
deriving DecidableEq, Inhabited

/-- Whether a bracket speaks of a table size. -/
def Bracket.covers (b : Bracket) (players : Nat) : Bool :=
  b.minPlayers.toNat ≤ players && players ≤ b.maxPlayers.toNat

/-- A full rule set. -/
structure Rules where
  minPlayers : UInt64
  maxPlayers : UInt64
  liberalGoal : UInt32
  fascistGoal : UInt32
  hitlerThreshold : Option UInt32
  vetoThreshold : UInt32
  chaosThreshold : UInt32
  brackets : List Bracket
deriving DecidableEq

namespace Rules

/-- The standard game. -/
def standard : Rules where
  minPlayers := 5
  maxPlayers := 10
  liberalGoal := 5
  fascistGoal := 6
  hitlerThreshold := some 3
  vetoThreshold := 5
  chaosThreshold := 3
  brackets := [
    { minPlayers := 5, maxPlayers := 6, fascists := 1, hitlerKnowsFascists := true,
      powers := [⟨3, .policyPeek⟩, ⟨4, .execution⟩, ⟨5, .execution⟩] },
    { minPlayers := 7, maxPlayers := 8, fascists := 2,
      powers := [⟨2, .investigateParty⟩, ⟨3, .specialElection⟩, ⟨4, .execution⟩, ⟨5, .execution⟩] },
    { minPlayers := 9, maxPlayers := 10, fascists := 3,
      powers := [⟨1, .investigateParty⟩, ⟨2, .investigateParty⟩, ⟨3, .specialElection⟩,
        ⟨4, .execution⟩, ⟨5, .execution⟩] }]

instance : Inhabited Rules := ⟨standard⟩

/-- The first bracket that speaks of a table size. -/
def bracketFor (r : Rules) (players : Nat) : Option Bracket :=
  r.brackets.find? (·.covers players)

/-- What the rules say about a table size, if they allow it. Of two powers on
one space the later holds. -/
def configurationFor (r : Rules) (players : Nat) : Option Configuration :=
  if players < r.minPlayers.toNat ∨ r.maxPlayers.toNat < players then none
  else
    (r.bracketFor players).map fun b =>
      { liberalGoal := r.liberalGoal
        fascistGoal := r.fascistGoal
        hitlerThreshold := r.hitlerThreshold
        vetoThreshold := r.vetoThreshold
        chaosThreshold := r.chaosThreshold
        fascists := b.fascists
        hitlerKnowsFascists := b.hitlerKnowsFascists
        powers := .ofList (b.powers.map fun slot => (slot.fascistPolicies, slot.power)) }

end Rules

end SecretHitler
