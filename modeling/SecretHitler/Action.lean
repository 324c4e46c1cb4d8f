import SecretHitler.Diagnostic
/-!
# Actions

What a participant may ask of a game. Actors and targets are outside names;
whether a name is seated is for the rules to find out.
-/

namespace SecretHitler

open Diagnostic (labelled quoted)

/-- Something a participant asks for. -/
inductive Action
  | join (name : String)
  | leave (name : String)
  | start (actor : String)
  | nominate (actor nominee : String)
  | vote (voter : String) (ballot : Ballot)
  | discard (actor : String) (index : UInt64)
  | enact (actor : String) (index : UInt64)
  | requestVeto (actor : String)
  | answerVeto (actor : String) (approved : Bool)
  | usePower (power : PendingPower) (actor target : String)
deriving DecidableEq, Inhabited

namespace Action

/-- Who asks. -/
def actor : Action → String
  | join name => name
  | leave name => name
  | start actor => actor
  | nominate actor _ => actor
  | vote voter _ => voter
  | discard actor _ => actor
  | enact actor _ => actor
  | requestVeto actor => actor
  | answerVeto actor _ => actor
  | usePower _ actor _ => actor

private def ballotText : Ballot → String
  | .yes => "For"
  | .no => "Against"

private def powerText : PendingPower → String
  | .investigateParty => "InvestigateParty"
  | .specialElection => "SpecialElection"
  | .execution => "Execution"

/-- An action as diagnostics print it: its kind, then its parts by name. -/
def text : Action → String
  | join name => labelled "Join" [("name", quoted name)]
  | leave name => labelled "Leave" [("name", quoted name)]
  | start actor => labelled "Start" [("actor", quoted actor)]
  | nominate actor nominee =>
    labelled "NominateChancellor" [("actor", quoted actor), ("nominee", quoted nominee)]
  | vote voter ballot =>
    labelled "CastVote" [("voter", quoted voter), ("ballot", ballotText ballot)]
  | discard actor index =>
    labelled "PresidentDiscard" [("actor", quoted actor), ("index", toString index.toNat)]
  | enact actor index =>
    labelled "ChancellorEnact" [("actor", quoted actor), ("index", toString index.toNat)]
  | requestVeto actor => labelled "RequestVeto" [("actor", quoted actor)]
  | answerVeto actor approved =>
    labelled "ResolveVeto" [("actor", quoted actor), ("approved", if approved then "true" else "false")]
  | usePower power actor target =>
    labelled "ResolvePower"
      [("power", powerText power), ("actor", quoted actor), ("target", quoted target)]

end Action

end SecretHitler
