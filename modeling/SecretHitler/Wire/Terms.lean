import SecretHitler.Fault
import SecretHitler.RoleMap
import SecretHitler.Wire.Basic
/-!
# Wire forms of the nouns

Parties, roles, cards, ballots, powers, governments, victories, rejections
and what a player knows. A victory's reason can be told only when its winners
are known, so a reason that stands before them is set aside.
-/

namespace SecretHitler

namespace Wire

/-- A named variant without parts. -/
def encodeName (name : String) : Json := .string name

/-- A variant that holds something. -/
def encodeVariant (name : String) (parts : Json) : Json := .object [(name, parts)]

instance : Wire Policy where
  encode
    | .liberal => encodeName "liberal"
    | .fascist => encodeName "fascist"
  decode j := j.choice? [("liberal", .liberal), ("fascist", .fascist)]

instance : Wire Party where
  encode
    | .liberal => encodeName "liberal"
    | .fascist => encodeName "fascist"
  decode j := j.choice? [("liberal", .liberal), ("fascist", .fascist)]

instance : Wire Role where
  encode
    | .liberal => encodeName "liberal"
    | .plainFascist => encodeName "plain_fascist"
    | .hitler => encodeName "hitler"
  decode j := j.choice?
    [("liberal", .liberal), ("plain_fascist", .plainFascist), ("hitler", .hitler)]

instance : Wire Ballot where
  encode
    | .yes => encodeName "for"
    | .no => encodeName "against"
  decode j := j.choice? [("for", .yes), ("against", .no)]

instance : Wire PendingPower where
  encode
    | .investigateParty => encodeName "investigate_party"
    | .specialElection => encodeName "special_election"
    | .execution => encodeName "execution"
  decode j := j.choice?
    [("investigate_party", .investigateParty), ("special_election", .specialElection),
      ("execution", .execution)]

instance : Wire Power where
  encode
    | .investigateParty => encodeName "investigate_party"
    | .specialElection => encodeName "special_election"
    | .policyPeek => encodeName "policy_peek"
    | .execution => encodeName "execution"
  decode j := j.choice?
    [("investigate_party", .investigateParty), ("special_election", .specialElection),
      ("policy_peek", .policyPeek), ("execution", .execution)]

instance : Wire Government where
  encode g := .object [("president", encode g.president), ("chancellor", encode g.chancellor)]
  decode j := do
    let j ← j.record? ["president", "chancellor"]
    return ⟨← required j "president", ← required j "chancellor"⟩

/-- The winners and the reason of a victory. -/
def victoryNames : Victory → String × String
  | .liberalPolicyGoal => ("liberals_win", "liberal_policy_goal_reached")
  | .hitlerKilled => ("liberals_win", "hitler_killed")
  | .fascistPolicyGoal => ("fascists_win", "fascist_policy_goal_reached")
  | .hitlerElected => ("fascists_win", "hitler_elected_chancellor")

/-- Reads the reason for which a party won. -/
def decodeReason : Party → Json → Option Victory
  | .liberal, j => j.choice?
    [("liberal_policy_goal_reached", .liberalPolicyGoal), ("hitler_killed", .hitlerKilled)]
  | .fascist, j => j.choice?
    [("fascist_policy_goal_reached", .fascistPolicyGoal),
      ("hitler_elected_chancellor", .hitlerElected)]

/-- The parties by the names of the winners. -/
def winners : List (String × Party) := [("liberals_win", .liberal), ("fascists_win", .fascist)]

/-- A victory is an object, or an array whose winners are a plain name. -/
instance : Wire Victory where
  encode v := .object
    [("winners", .string (victoryNames v).1), ("reason", .string (victoryNames v).2)]
  decode
    | .array [.string name, reason] => do decodeReason (← winners.lookup name) reason
    | .object members => do
      let j ← (Json.object members).record? ["winners", "reason"]
      let party ← (← j.member? "winners").choice? winners
      let reason ← j.member? "reason"
      decodeReason party (if j.precedes "reason" "winners" then reason.emptyAsNull else reason)
    | _ => none

/-- The names of the rejections without parts. -/
def plainRejections : List (String × Rejection) :=
  [ ("unauthorized", .unauthorized)
  , ("actor_not_player", .actorNotPlayer)
  , ("target_not_player", .targetNotPlayer)
  , ("already_investigated", .alreadyInvestigated)
  , ("no_such_game", .noSuchGame)
  , ("wrong_ephemeral_state", .notAwaited)
  , ("already_joined", .alreadyJoined)
  , ("lobby_full", .lobbyFull)
  , ("not_in_lobby", .notInLobby)
  , ("ineligible_chancellor", .ineligibleChancellor)
  , ("invalid_target", .invalidTarget)
  , ("already_voted", .alreadyVoted)
  , ("veto_not_unlocked", .vetoNotUnlocked)
  , ("veto_already_used", .vetoAlreadyUsed)
  , ("veto_pending", .vetoPending)
  , ("game_completed", .gameCompleted) ]

/-- A rejection's name. -/
def rejectionName : Rejection → String
  | .unauthorized => "unauthorized"
  | .actorNotPlayer => "actor_not_player"
  | .targetNotPlayer => "target_not_player"
  | .alreadyInvestigated => "already_investigated"
  | .invalidPolicyIndex _ => "invalid_policy_index"
  | .noSuchGame => "no_such_game"
  | .notAwaited => "wrong_ephemeral_state"
  | .alreadyJoined => "already_joined"
  | .lobbyFull => "lobby_full"
  | .notInLobby => "not_in_lobby"
  | .notEnoughPlayers _ _ => "not_enough_players"
  | .unsupportedPlayerCount _ => "unsupported_player_count"
  | .ineligibleChancellor => "ineligible_chancellor"
  | .invalidTarget => "invalid_target"
  | .alreadyVoted => "already_voted"
  | .vetoNotUnlocked => "veto_not_unlocked"
  | .vetoAlreadyUsed => "veto_already_used"
  | .vetoPending => "veto_pending"
  | .gameCompleted => "game_completed"

/-- Reads how many players joined and how many are needed. -/
def decodeShortage (parts : Json) : Option Rejection := do
  let j ← parts.record? ["have", "need"]
  return .notEnoughPlayers (← required j "have") (← required j "need")

/-- Reads any other rejection. -/
def decodeRejection (j : Json) : Option Rejection :=
  match j.variant? with
  | some ("invalid_policy_index", some parts) => (decode parts).map .invalidPolicyIndex
  | some ("unsupported_player_count", some parts) => (decode parts).map .unsupportedPlayerCount
  | _ => j.choice? plainRejections

instance : Wire Rejection where
  encode r :=
    match r with
    | .invalidPolicyIndex index => encodeVariant (rejectionName r) (encode index)
    | .unsupportedPlayerCount count => encodeVariant (rejectionName r) (encode count)
    | .notEnoughPlayers joined need => encodeVariant (rejectionName r) <|
        .object [("have", encode joined), ("need", encode need)]
    | _ => encodeName (rejectionName r)
  decode
    | .object [("not_enough_players", .object parts)] => decodeShortage (.object parts)
    | j => decodeRejection j
  decodeText
    | .object [("not_enough_players", parts)] => decodeShortage parts
    | j => decodeRejection j

instance : Wire Knowledge where
  encode k := .object
    [ ("player", encode k.player)
    , ("role", encode k.role)
    , ("known_fascists", encode k.knownFascists)
    , ("known_hitler", encode k.knownHitler) ]
  decode j := do
    let j ← j.record? ["player", "role", "known_fascists", "known_hitler"]
    return ⟨← required j "player", ← required j "role", ← required j "known_fascists",
      ← orDefault j "known_hitler" none⟩

end Wire

end SecretHitler
