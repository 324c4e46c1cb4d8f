import SecretHitler.Diagnostic
/-!
# Rejections

The closed list of reasons for which the rules refuse an action. A refusal
never changes a game.
-/

namespace SecretHitler

/-- Why an action is refused. -/
inductive Rejection
  | unauthorized
  | actorNotPlayer
  | targetNotPlayer
  | alreadyInvestigated
  | invalidPolicyIndex (index : UInt64)
  | noSuchGame
  | notAwaited
  | alreadyJoined
  | lobbyFull
  | notInLobby
  | notEnoughPlayers (joined need : UInt64)
  | unsupportedPlayerCount (count : UInt64)
  | ineligibleChancellor
  | invalidTarget
  | alreadyVoted
  | vetoNotUnlocked
  | vetoAlreadyUsed
  | vetoPending
  | gameCompleted
deriving DecidableEq, Inhabited

/-- A rejection as it is told to the player. -/
def Rejection.message : Rejection → String
  | unauthorized => "you are not the player this decision belongs to"
  | actorNotPlayer => "you are not a player in this game"
  | targetNotPlayer => "the chosen target is not a player in this game"
  | alreadyInvestigated => "that player has already been investigated"
  | invalidPolicyIndex index => "policy index " ++ toString index.toNat ++ " is out of range"
  | noSuchGame => "no game with that id"
  | notAwaited => "the game is not waiting for that action"
  | alreadyJoined => "already joined this lobby"
  | lobbyFull => "the lobby is full"
  | notInLobby => "not in this lobby"
  | notEnoughPlayers joined need =>
    toString joined.toNat ++ " players joined, at least " ++ toString need.toNat ++ " are required"
  | unsupportedPlayerCount count => "no rules cover a game of " ++ toString count.toNat ++ " players"
  | ineligibleChancellor => "that player cannot be nominated chancellor"
  | invalidTarget => "that player cannot be targeted by this power"
  | alreadyVoted => "you have already voted"
  | vetoNotUnlocked => "veto power is not unlocked yet"
  | vetoAlreadyUsed => "veto has already been refused for this agenda"
  | vetoPending => "a veto request is awaiting the president"
  | gameCompleted => "the game is over"

/-- A rejection as diagnostics print it. -/
def Rejection.text : Rejection → String
  | unauthorized => "Unauthorized"
  | actorNotPlayer => "ActorNotPlayer"
  | targetNotPlayer => "TargetNotPlayer"
  | alreadyInvestigated => "AlreadyInvestigated"
  | invalidPolicyIndex index => "InvalidPolicyIndex(" ++ toString index.toNat ++ ")"
  | noSuchGame => "NoSuchGame"
  | notAwaited => "WrongEphemeralState"
  | alreadyJoined => "AlreadyJoined"
  | lobbyFull => "LobbyFull"
  | notInLobby => "NotInLobby"
  | notEnoughPlayers joined need =>
    Diagnostic.labelled "NotEnoughPlayers"
      [("have", toString joined.toNat), ("need", toString need.toNat)]
  | unsupportedPlayerCount count => "UnsupportedPlayerCount(" ++ toString count.toNat ++ ")"
  | ineligibleChancellor => "IneligibleChancellor"
  | invalidTarget => "InvalidTarget"
  | alreadyVoted => "AlreadyVoted"
  | vetoNotUnlocked => "VetoNotUnlocked"
  | vetoAlreadyUsed => "VetoAlreadyUsed"
  | vetoPending => "VetoPending"
  | gameCompleted => "GameCompleted"

end SecretHitler
