import SecretHitler.Event
import SecretHitler.Wire.Terms
/-!
# Wire form of events

An event is an object whose one member is named for it and holds its parts. In
a text the parts may also be an array.
-/

namespace SecretHitler

namespace Wire

instance : Wire Hand where
  encode h := encode h.toList
  decode
    | .array [a, b, c] => return ⟨← decode a, ← decode b, ← decode c⟩
    | _ => none

instance : Wire Agenda where
  encode a := encode a.toList
  decode
    | .array [a, b] => return ⟨← decode a, ← decode b⟩
    | _ => none

instance : Wire Enactor where
  encode
    | .government => encodeName "government"
    | .chaos => encodeName "chaos"
  decode j := j.choice? [("government", .government), ("chaos", .chaos)]

instance : Wire Audience where
  encode
    | .everyone => encodeName "public"
    | .only seat => encodeVariant "private" (encode seat)
  decode j :=
    match j.variant? with
    | some ("private", some seat) => (decode seat).map .only
    | _ => j.choice? [("public", .everyone)]

/-- An event's name. -/
def eventName : Event → String
  | .playerJoined _ => "player_joined"
  | .playerLeft _ => "player_left"
  | .gameStarted _ => "game_started"
  | .electionStarted _ _ => "election_started"
  | .chancellorNominated _ => "chancellor_nominated"
  | .voteCast _ => "vote_cast"
  | .governmentElected _ _ => "government_elected"
  | .governmentRejected _ _ _ => "government_rejected"
  | .policiesDrawn _ _ => "policies_drawn"
  | .policiesPassed _ _ => "policies_passed"
  | .deckReshuffled _ => "deck_reshuffled"
  | .vetoRequested _ => "veto_requested"
  | .vetoApproved _ _ => "veto_approved"
  | .vetoRejected _ => "veto_rejected"
  | .countryInChaos _ => "country_in_chaos"
  | .policyEnacted _ _ _ _ => "policy_enacted"
  | .powerActivated _ _ => "power_activated"
  | .policyPeek _ _ => "policy_peek"
  | .playerInvestigated _ _ => "player_investigated"
  | .partyRevealed _ _ _ => "party_revealed"
  | .specialElectionCalled _ _ => "special_election_called"
  | .playerExecuted _ => "player_executed"
  | .gameOver _ => "game_over"

/-- The parts of an event by name. -/
def eventParts : Event → List (String × Json)
  | .playerJoined name => [("name", encode name)]
  | .playerLeft name => [("name", encode name)]
  | .gameStarted players => [("players", encode players)]
  | .electionStarted candidate special =>
    [("president_candidate", encode candidate), ("special", encode special)]
  | .chancellorNominated government => [("government", encode government)]
  | .voteCast voter => [("voter", encode voter)]
  | .governmentElected government ballots =>
    [("government", encode government), ("ballots", encode ballots)]
  | .governmentRejected government ballots tracker =>
    [("government", encode government), ("ballots", encode ballots),
      ("election_tracker", encode tracker)]
  | .policiesDrawn president hand => [("president", encode president), ("policies", encode hand)]
  | .policiesPassed chancellor agenda =>
    [("chancellor", encode chancellor), ("policies", encode agenda)]
  | .deckReshuffled drawPile => [("draw_pile", encode drawPile)]
  | .vetoRequested government => [("government", encode government)]
  | .vetoApproved government tracker =>
    [("government", encode government), ("election_tracker", encode tracker)]
  | .vetoRejected government => [("government", encode government)]
  | .countryInChaos policy => [("policy", encode policy)]
  | .policyEnacted policy enactor liberal fascist =>
    [("policy", encode policy), ("source", encode enactor), ("liberal", encode liberal),
      ("fascist", encode fascist)]
  | .powerActivated power president => [("power", encode power), ("president", encode president)]
  | .policyPeek president hand => [("president", encode president), ("policies", encode hand)]
  | .playerInvestigated president target =>
    [("president", encode president), ("target", encode target)]
  | .partyRevealed president target party =>
    [("president", encode president), ("target", encode target), ("party", encode party)]
  | .specialElectionCalled president candidate =>
    [("president", encode president), ("candidate", encode candidate)]
  | .playerExecuted target => [("target", encode target)]
  | .gameOver victory => [("victory", encode victory)]

/-- Reads the parts of an event of some name. -/
def decodeParts (name : String) (parts : Json) : Option Event :=
  match name with
  | "player_joined" => do
    let j ← parts.record? ["name"]
    return .playerJoined (← required j "name")
  | "player_left" => do
    let j ← parts.record? ["name"]
    return .playerLeft (← required j "name")
  | "game_started" => do
    let j ← parts.record? ["players"]
    return .gameStarted (← required j "players")
  | "election_started" => do
    let j ← parts.record? ["president_candidate", "special"]
    return .electionStarted (← required j "president_candidate") (← required j "special")
  | "chancellor_nominated" => do
    let j ← parts.record? ["government"]
    return .chancellorNominated (← required j "government")
  | "vote_cast" => do
    let j ← parts.record? ["voter"]
    return .voteCast (← required j "voter")
  | "government_elected" => do
    let j ← parts.record? ["government", "ballots"]
    return .governmentElected (← required j "government") (← required j "ballots")
  | "government_rejected" => do
    let j ← parts.record? ["government", "ballots", "election_tracker"]
    return .governmentRejected (← required j "government") (← required j "ballots")
      (← required j "election_tracker")
  | "policies_drawn" => do
    let j ← parts.record? ["president", "policies"]
    return .policiesDrawn (← required j "president") (← required j "policies")
  | "policies_passed" => do
    let j ← parts.record? ["chancellor", "policies"]
    return .policiesPassed (← required j "chancellor") (← required j "policies")
  | "deck_reshuffled" => do
    let j ← parts.record? ["draw_pile"]
    return .deckReshuffled (← required j "draw_pile")
  | "veto_requested" => do
    let j ← parts.record? ["government"]
    return .vetoRequested (← required j "government")
  | "veto_approved" => do
    let j ← parts.record? ["government", "election_tracker"]
    return .vetoApproved (← required j "government") (← required j "election_tracker")
  | "veto_rejected" => do
    let j ← parts.record? ["government"]
    return .vetoRejected (← required j "government")
  | "country_in_chaos" => do
    let j ← parts.record? ["policy"]
    return .countryInChaos (← required j "policy")
  | "policy_enacted" => do
    let j ← parts.record? ["policy", "source", "liberal", "fascist"]
    return .policyEnacted (← required j "policy") (← required j "source")
      (← required j "liberal") (← required j "fascist")
  | "power_activated" => do
    let j ← parts.record? ["power", "president"]
    return .powerActivated (← required j "power") (← required j "president")
  | "policy_peek" => do
    let j ← parts.record? ["president", "policies"]
    return .policyPeek (← required j "president") (← required j "policies")
  | "player_investigated" => do
    let j ← parts.record? ["president", "target"]
    return .playerInvestigated (← required j "president") (← required j "target")
  | "party_revealed" => do
    let j ← parts.record? ["president", "target", "party"]
    return .partyRevealed (← required j "president") (← required j "target")
      (← required j "party")
  | "special_election_called" => do
    let j ← parts.record? ["president", "candidate"]
    return .specialElectionCalled (← required j "president") (← required j "candidate")
  | "player_executed" => do
    let j ← parts.record? ["target"]
    return .playerExecuted (← required j "target")
  | "game_over" => do
    let j ← parts.record? ["victory"]
    return .gameOver (← required j "victory")
  | _ => none

instance : Wire Event where
  encode e := encodeVariant (eventName e) (.object (eventParts e))
  decode
    | .object [(name, .object parts)] => decodeParts name (.object parts)
    | _ => none
  decodeText
    | .object [(name, parts)] => decodeParts name parts
    | _ => none

end Wire

end SecretHitler
