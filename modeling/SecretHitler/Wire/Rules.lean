import SecretHitler.Rules.Basic
import SecretHitler.Wire.Terms
/-!
# Wire forms of rules and configurations

Every field of a rule set may be left out and then takes its standard value.
A null threshold for Hitler is not left out: it disables the condition. In a
configuration a threshold that is left out is disabled too.
-/

namespace SecretHitler

namespace Wire

instance : Wire PowerSlot where
  encode s := .object
    [("fascist_policies", encode s.fascistPolicies), ("power", encode s.power)]
  decode j := do
    let j ← j.record? ["fascist_policies", "power"]
    return ⟨← required j "fascist_policies", ← required j "power"⟩

instance : Wire Bracket where
  encode b := .object
    [ ("min_players", encode b.minPlayers)
    , ("max_players", encode b.maxPlayers)
    , ("fascists", encode b.fascists)
    , ("hitler_knows_fascists", encode b.hitlerKnowsFascists)
    , ("powers", encode b.powers) ]
  decode j := do
    let j ← j.record?
      ["min_players", "max_players", "fascists", "hitler_knows_fascists", "powers"] 2
    return ⟨← required j "min_players", ← required j "max_players", ← required j "fascists",
      ← orDefault j "hitler_knows_fascists" false, ← orDefault j "powers" []⟩

/-- The fields of a rule set. -/
def rulesFields : List String :=
  [ "min_players", "max_players", "liberal_policy_goal", "fascist_policy_goal",
    "hitler_chancellor_threshold", "veto_unlock_threshold", "chaos_threshold", "brackets" ]

instance : Wire Rules where
  encode r := .object
    [ ("min_players", encode r.minPlayers)
    , ("max_players", encode r.maxPlayers)
    , ("liberal_policy_goal", encode r.liberalGoal)
    , ("fascist_policy_goal", encode r.fascistGoal)
    , ("hitler_chancellor_threshold", encode r.hitlerThreshold)
    , ("veto_unlock_threshold", encode r.vetoThreshold)
    , ("chaos_threshold", encode r.chaosThreshold)
    , ("brackets", encode r.brackets) ]
  decode j := do
    let s := Rules.standard
    let j ← j.record? rulesFields rulesFields.length
    return {
      minPlayers := ← orDefault j "min_players" s.minPlayers
      maxPlayers := ← orDefault j "max_players" s.maxPlayers
      liberalGoal := ← orDefault j "liberal_policy_goal" s.liberalGoal
      fascistGoal := ← orDefault j "fascist_policy_goal" s.fascistGoal
      hitlerThreshold := ← orDefault j "hitler_chancellor_threshold" s.hitlerThreshold
      vetoThreshold := ← orDefault j "veto_unlock_threshold" s.vetoThreshold
      chaosThreshold := ← orDefault j "chaos_threshold" s.chaosThreshold
      brackets := ← orDefault j "brackets" s.brackets }

instance : Wire Configuration where
  encode c := .object
    [ ("liberal_policy_goal", encode c.liberalGoal)
    , ("fascist_policy_goal", encode c.fascistGoal)
    , ("hitler_chancellor_threshold", encode c.hitlerThreshold)
    , ("veto_unlock_threshold", encode c.vetoThreshold)
    , ("chaos_threshold", encode c.chaosThreshold)
    , ("fascists", encode c.fascists)
    , ("hitler_knows_fascists", encode c.hitlerKnowsFascists)
    , ("power_schedule", encode c.powers) ]
  decode j := do
    let j ← j.record?
      [ "liberal_policy_goal", "fascist_policy_goal", "hitler_chancellor_threshold",
        "veto_unlock_threshold", "chaos_threshold", "fascists", "hitler_knows_fascists",
        "power_schedule" ]
    return {
      liberalGoal := ← required j "liberal_policy_goal"
      fascistGoal := ← required j "fascist_policy_goal"
      hitlerThreshold := ← orDefault j "hitler_chancellor_threshold" none
      vetoThreshold := ← required j "veto_unlock_threshold"
      chaosThreshold := ← required j "chaos_threshold"
      fascists := ← required j "fascists"
      hitlerKnowsFascists := ← required j "hitler_knows_fascists"
      powers := ← required j "power_schedule" }

end Wire

end SecretHitler
