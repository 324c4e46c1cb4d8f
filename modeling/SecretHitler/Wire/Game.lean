import SecretHitler.Game
import SecretHitler.Store.Snapshot
import SecretHitler.Wire.Action
import SecretHitler.Wire.Event
import SecretHitler.Wire.Rules
/-!
# Wire forms of games

Boards, phases, lobbies, games, steps and snapshots. Reading does not judge:
a board that breaks the rules is read as it stands.
-/

namespace SecretHitler

namespace Wire

instance : Wire Seating where
  encode t := .object [("players", encode t.names)]
  decode j := do
    let j ← j.record? ["players"]
    return ⟨← required j "players"⟩

instance : Wire RoleMap where
  encode m := .object [("roles", encode m.roles)]
  decode j := do
    let j ← j.record? ["roles"]
    return ⟨← required j "roles"⟩

instance : Wire Votes where
  encode v := .object [("votes", encode v.ballots)]
  decode j := do
    let j ← j.record? ["votes"]
    return ⟨← required j "votes"⟩

instance : Wire Track where
  encode t := .object [("liberal", encode t.liberal), ("fascist", encode t.fascist)]
  decode j := do
    let j ← j.record? ["liberal", "fascist"]
    return ⟨← required j "liberal", ← required j "fascist"⟩

instance : Wire Deck where
  encode d := .object
    [("draw_pile", encode d.drawPile), ("discard_pile", encode d.discardPile)]
  decode j := do
    let j ← j.record? ["draw_pile", "discard_pile"]
    return ⟨← required j "draw_pile", ← required j "discard_pile"⟩

instance : Wire Election where
  encode e := .object
    [ ("current_president_ticker", encode e.ticker)
    , ("term_limited_government", encode e.termLimited)
    , ("election_tracker", encode e.tracker) ]
  decode j := do
    let j ← j.record?
      ["current_president_ticker", "term_limited_government", "election_tracker"]
    return ⟨← required j "current_president_ticker",
      ← orDefault j "term_limited_government" none, ← required j "election_tracker"⟩

/-- The powers' state: who has been investigated. -/
def encodePowers (investigated : SeatSet) : Json :=
  .object [("investigated", encodeSet investigated)]

/-- Reads who has been investigated. -/
def decodePowers (j : Json) : Option SeatSet := do
  let j ← j.record? ["investigated"]
  decodeSet (← j.member? "investigated")

instance : Wire Board where
  encode b := .object
    [ ("config", encode b.config)
    , ("players", encode b.seating)
    , ("roles", encode b.roles)
    , ("policies", encode b.track)
    , ("deck", encode b.deck)
    , ("election", encode b.election)
    , ("powers", encodePowers b.investigated) ]
  decode j := do
    let j ← j.record?
      ["config", "players", "roles", "policies", "deck", "election", "powers"]
    return {
      config := ← required j "config"
      seating := ← required j "players"
      roles := ← required j "roles"
      track := ← required j "policies"
      deck := ← required j "deck"
      election := ← required j "election"
      investigated := ← decodePowers (← j.member? "powers") }

instance : Wire VetoStatus where
  encode
    | .notRequested => encodeName "not_requested"
    | .requested => encodeName "requested"
    | .rejected => encodeName "rejected"
  decode j := j.choice?
    [("not_requested", .notRequested), ("requested", .requested), ("rejected", .rejected)]

/-- A phase's name. -/
def phaseName : Phase → String
  | .nomination _ => "chancellor_selection_pending"
  | .voting _ _ => "voting_ongoing"
  | .presidentChoice _ _ => "president_policy_choice_pending"
  | .chancellorChoice _ _ _ => "chancellor_policy_choice_pending"
  | .powerPending _ _ => "policy_pending"

/-- The parts of a phase. -/
def phaseParts : Phase → Json
  | .nomination candidate => .object [("president_candidate", encode candidate)]
  | .voting government votes =>
    .object [("government", encode government), ("votes", encode votes)]
  | .presidentChoice government hand =>
    .object [("government", encode government), ("policies", encode hand)]
  | .chancellorChoice government agenda veto =>
    .object [("government", encode government), ("policies", encode agenda), ("veto", encode veto)]
  | .powerPending power president =>
    .object [("power", encode power), ("president", encode president)]

/-- Reads the parts of a nomination: the candidate. -/
def decodeNomination (parts : Json) : Option Seat := do
  let j ← parts.record? ["president_candidate"]
  required j "president_candidate"

/-- Reads the parts of a vote. -/
def decodeVoting (parts : Json) : Option (Government × Votes) := do
  let j ← parts.record? ["government", "votes"]
  return (← required j "government", ← required j "votes")

/-- Reads the parts of a president's choice. -/
def decodePresidentChoice (parts : Json) : Option (Government × Hand) := do
  let j ← parts.record? ["government", "policies"]
  return (← required j "government", ← required j "policies")

/-- Reads the parts of a chancellor's choice. -/
def decodeChancellorChoice (parts : Json) : Option (Government × Agenda × VetoStatus) := do
  let j ← parts.record? ["government", "policies", "veto"]
  return (← required j "government", ← required j "policies", ← required j "veto")

/-- Reads the parts of a pending power. -/
def decodePowerPending (parts : Json) : Option (PendingPower × Seat) := do
  let j ← parts.record? ["power", "president"]
  return (← required j "power", ← required j "president")

instance : Wire Phase where
  encode p := encodeVariant (phaseName p) (phaseParts p)
  decode
    | .object [("chancellor_selection_pending", parts)] =>
      (decodeNomination parts).map .nomination
    | .object [("voting_ongoing", parts)] =>
      (decodeVoting parts).map fun (g, votes) => .voting g votes
    | .object [("president_policy_choice_pending", parts)] =>
      (decodePresidentChoice parts).map fun (g, hand) => .presidentChoice g hand
    | .object [("chancellor_policy_choice_pending", parts)] =>
      (decodeChancellorChoice parts).map fun (g, agenda, veto) => .chancellorChoice g agenda veto
    | .object [("policy_pending", parts)] =>
      (decodePowerPending parts).map fun (power, s) => .powerPending power s
    | _ => none

instance : Wire Running where
  encode g := .object [("global", encode g.board), ("ephemeral", encode g.phase)]
  decode j := do
    let j ← j.record? ["global", "ephemeral"]
    return ⟨← required j "global", ← required j "ephemeral"⟩

instance : Wire Lobby where
  encode l := .object [("players", encode l.players), ("rules", encode l.rules)]
  decode j := do
    let j ← j.record? ["players", "rules"]
    return ⟨← required j "players", ← required j "rules"⟩

/-- Reads the parts of a finished game. -/
def decodeCompleted (parts : Json) : Option Victory := do
  let j ← parts.record? ["victory"]
  required j "victory"

instance : Wire Game where
  encode
    | .lobby l => encodeVariant "joining" (encode l)
    | .running g => encodeVariant "running" (encode g)
    | .completed v => encodeVariant "completed" (.object [("victory", encode v)])
  decode
    | .object [("joining", parts)] => (decode parts).map .lobby
    | .object [("running", parts)] => (decode parts).map .running
    | .object [("completed", parts)] => (decodeCompleted parts).map .completed
    | _ => none

/-- Reads a step, its events in some way. -/
def decodeStep (events : Json → Option (List Event)) (j : Json) : Option Step := do
  let j ← j.record? ["state", "events"]
  return ⟨← required j "state", ← (j.member? "events").bind events⟩

instance : Wire Step where
  encode s := .object [("state", encode s.game), ("events", encode s.events)]
  decode := decodeStep decode
  decodeText := decodeStep decodeText

instance : Wire GameId where
  encode id := encode id.number
  decode j := (decode j).map GameId.mk

instance : WireKey GameId where
  ofRank? n := if n < UInt64.size then some ⟨.ofNat n⟩ else none
  ofRank?_rank k := by simpa [rank] using k.number.toNat_lt

instance : Wire Snapshot where
  encode s := .object [("next_id", encode s.nextId), ("games", encode s.games)]
  decode j := do
    let j ← j.record? ["next_id", "games"]
    return ⟨← required j "next_id", ← required j "games"⟩

end Wire

end SecretHitler
