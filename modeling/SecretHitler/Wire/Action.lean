import SecretHitler.Action
import SecretHitler.Wire.Terms
/-!
# Wire form of actions

An action is an object whose member `action_type` names its kind and stands
among its parts. The parts are set aside until the kind is known, so all of an
action must be sound, unknown parts too.
-/

namespace SecretHitler

namespace Wire

/-- An action of a kind with its parts. -/
def encodeKind (kind : String) (parts : List (String × Json)) : Json :=
  .object (("action_type", .string kind) :: parts)

/-- The kind of an action and its parts. In an array the kind comes first. -/
def actionParts : Json → Option (String × Json)
  | .object members =>
    match members.filter (·.1 == "action_type") with
    | [(_, .string kind)] => some (kind, .object members)
    | _ => none
  | .array (.string kind :: parts) => some (kind, .array parts)
  | _ => none

instance : Wire Action where
  encode
    | .join name => encodeKind "join" [("name", encode name)]
    | .leave name => encodeKind "leave" [("name", encode name)]
    | .start actor => encodeKind "start" [("actor", encode actor)]
    | .nominate actor nominee =>
      encodeKind "nominate_chancellor" [("actor", encode actor), ("nominee", encode nominee)]
    | .vote voter ballot =>
      encodeKind "cast_vote" [("voter", encode voter), ("ballot", encode ballot)]
    | .discard actor index =>
      encodeKind "president_discard" [("actor", encode actor), ("index", encode index)]
    | .enact actor index =>
      encodeKind "chancellor_enact" [("actor", encode actor), ("index", encode index)]
    | .requestVeto actor => encodeKind "request_veto" [("actor", encode actor)]
    | .answerVeto actor approved =>
      encodeKind "resolve_veto" [("actor", encode actor), ("approved", encode approved)]
    | .usePower power actor target =>
      encodeKind "resolve_power"
        [("power", encode power), ("actor", encode actor), ("target", encode target)]
  decode j := do
    guard j.isSound
    match ← actionParts j with
    | ("join", parts) =>
      let j ← parts.record? ["name"]
      return .join (← required j "name")
    | ("leave", parts) =>
      let j ← parts.record? ["name"]
      return .leave (← required j "name")
    | ("start", parts) =>
      let j ← parts.record? ["actor"]
      return .start (← required j "actor")
    | ("nominate_chancellor", parts) =>
      let j ← parts.record? ["actor", "nominee"]
      return .nominate (← required j "actor") (← required j "nominee")
    | ("cast_vote", parts) =>
      let j ← parts.record? ["voter", "ballot"]
      return .vote (← required j "voter") (← requiredAside j "ballot")
    | ("president_discard", parts) =>
      let j ← parts.record? ["actor", "index"]
      return .discard (← required j "actor") (← required j "index")
    | ("chancellor_enact", parts) =>
      let j ← parts.record? ["actor", "index"]
      return .enact (← required j "actor") (← required j "index")
    | ("request_veto", parts) =>
      let j ← parts.record? ["actor"]
      return .requestVeto (← required j "actor")
    | ("resolve_veto", parts) =>
      let j ← parts.record? ["actor", "approved"]
      return .answerVeto (← required j "actor") (← required j "approved")
    | ("resolve_power", parts) =>
      let j ← parts.record? ["power", "actor", "target"]
      return .usePower (← requiredAside j "power") (← required j "actor") (← required j "target")
    | _ => none

end Wire

end SecretHitler
