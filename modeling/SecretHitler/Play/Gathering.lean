import SecretHitler.Play.Turn
/-!
# Gathering

Joining and leaving a lobby, and the start of the game: names are seated in
the order in which they joined, roles are dealt, the deck is shuffled and the
first candidate for president is drawn by lot.
-/

namespace SecretHitler

namespace Lobby

/-- Joins a lobby. -/
def join (l : Lobby) (name : String) : Attempt Step :=
  if l.contains name then .reject .alreadyJoined
  else if l.isFull then .reject .lobbyFull
  else .ok ⟨.lobby { l with players := l.players ++ [name] }, [.playerJoined name]⟩

/-- Leaves a lobby. -/
def leave (l : Lobby) (name : String) : Attempt Step :=
  if l.contains name then
    .ok ⟨.lobby { l with players := l.players.filter (· ≠ name) }, [.playerLeft name]⟩
  else .reject .notInLobby

/-- The size of a lobby as events and rejections report it. -/
def size (l : Lobby) : UInt64 := .ofNat l.players.length

/-- The configuration under which a lobby's game would start. -/
def configuration (l : Lobby) (actor : String) : Attempt Configuration :=
  if !l.contains actor then .reject .actorNotPlayer
  else if l.players.length < l.rules.minPlayers.toNat then
    .reject (.notEnoughPlayers l.size l.rules.minPlayers)
  else .orReject (.unsupportedPlayerCount l.size) (l.rules.configurationFor l.players.length)

/-- Starts the game of a lobby. -/
def start {σ : Type} [RandomSource σ] (l : Lobby) (actor : String) : Draws σ Step := do
  let config ← l.configuration actor
  let seating ← Seating.ofNames l.players
  let seats := seating.seats
  let roles ← RoleMap.deal seats config.fascists.toNat
  let deck ← .draw Deck.standard
  let lot ← .draw (RandomSource.below64 seats.length)
  let first := seats.getD lot default
  let board ← Board.setUp config seating roles deck (.start first)
  return (board.beginElection first false).after [.gameStarted l.size]

end Lobby

end SecretHitler
