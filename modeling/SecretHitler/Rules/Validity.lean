import SecretHitler.Deck
import SecretHitler.Rules.Basic
/-!
# Valid rules

What a rule set must satisfy to be played: table sizes within the game's
limits, goals that the deck can fill, and a bracket with at least one liberal
for every size. One short of both goals, a hand of three cards must still
leave a full draw behind: that is what keeps six cards in play.
-/

namespace SecretHitler

/-- What can be wrong with a rule set. -/
inductive Flaw
  | limits (min max : Nat)
  | crossedLimits (min max : Nat)
  | notPositive
  | liberalGoal (goal : Nat)
  | fascistGoal (goal : Nat)
  | fewCards (liberal fascist inPlay : Nat)
  | uncovered (players : Nat)
  | noLiberals (fascists players : Nat)
deriving DecidableEq, Inhabited

/-- A flaw as it is reported. -/
def Flaw.message : Flaw → String
  | limits min max =>
    "invalid rules: player limits " ++ toString min ++ "..=" ++ toString max ++
      " must lie within " ++ toString minTable ++ "..=" ++ toString maxTable
  | crossedLimits min max =>
    "invalid rules: min_players " ++ toString min ++ " exceeds max_players " ++ toString max
  | notPositive => "invalid rules: policy goals and chaos threshold must be positive"
  | liberalGoal goal => "invalid rules: liberal goal " ++ toString goal ++ " exceeds the deck"
  | fascistGoal goal => "invalid rules: fascist goal " ++ toString goal ++ " exceeds the deck"
  | fewCards liberal fascist inPlay =>
    "invalid rules: goals " ++ toString liberal ++ " and " ++ toString fascist ++ " leave " ++
      toString inPlay ++ " cards in play, at least " ++ toString (2 * standardDraw) ++ " are needed"
  | uncovered players => "invalid rules: no bracket covers " ++ toString players ++ " players"
  | noLiberals fascists players =>
    "invalid rules: " ++ toString fascists ++ " fascists leave no liberals at " ++
      toString players ++ " players"

namespace Rules

/-- The cards that are never enacted before the last policy of a game. -/
def cardsInPlay (r : Rules) : Nat :=
  liberalCards + fascistCards - (r.liberalGoal.toNat - 1 + (r.fascistGoal.toNat - 1))

/-- What is wrong with the bracket of a table size. -/
def bracketFlaw (r : Rules) (players : Nat) : Option Flaw :=
  match r.bracketFor players with
  | none => some (.uncovered players)
  | some b =>
    if players ≤ b.fascists.toNat + 1 then some (.noLiberals b.fascists.toNat players) else none

/-- The table sizes that a rule set allows, rising. -/
def tableSizes (r : Rules) : List Nat :=
  List.range' r.minPlayers.toNat (r.maxPlayers.toNat + 1 - r.minPlayers.toNat)

/-- The first thing that is wrong with a rule set. -/
def flaw (r : Rules) : Option Flaw :=
  let min := r.minPlayers.toNat
  let max := r.maxPlayers.toNat
  let liberal := r.liberalGoal.toNat
  let fascist := r.fascistGoal.toNat
  if min < minTable ∨ maxTable < max then some (.limits min max)
  else if max < min then some (.crossedLimits min max)
  else if liberal = 0 ∨ fascist = 0 ∨ r.chaosThreshold = 0 then some .notPositive
  else if liberalCards < liberal then some (.liberalGoal liberal)
  else if fascistCards < fascist then some (.fascistGoal fascist)
  else if r.cardsInPlay < 2 * standardDraw then some (.fewCards liberal fascist r.cardsInPlay)
  else r.tableSizes.findSome? r.bracketFlaw

/-- A rule set that may be played. -/
def Valid (r : Rules) : Prop := r.flaw = none

instance (r : Rules) : Decidable r.Valid := inferInstanceAs (Decidable (r.flaw = none))

end Rules

end SecretHitler
