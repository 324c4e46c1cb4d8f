import Std.Data.HashMap
import SecretHitler.Store.Basic
/-!
# Channel bindings

Which game is played in which channel. A channel has at most one game and a
game at most one channel.
-/

namespace SecretHitler

deriving instance Hashable for GameId

/-- The games by channel and the channels by game. -/
structure Bindings where
  byChannel : Std.HashMap String GameId
  byGame : Std.HashMap GameId String

namespace Bindings

/-- Nothing bound. -/
def empty : Bindings := ⟨∅, ∅⟩

/-- The game played in a channel. -/
def lookup (b : Bindings) (channel : String) : Option GameId := b.byChannel[channel]?

/-- Binds a channel and a game, both of which must be free. The flag tells
whether they were. -/
def tryBind (b : Bindings) (channel : String) (game : GameId) : Bindings × Bool :=
  if b.byChannel.contains channel || b.byGame.contains game then (b, false)
  else (⟨b.byChannel.insert channel game, b.byGame.insert game channel⟩, true)

/-- Frees a channel and its game. -/
def unbind (b : Bindings) (channel : String) : Bindings × Option GameId :=
  match b.lookup channel with
  | none => (b, none)
  | some game => (⟨b.byChannel.erase channel, b.byGame.erase game⟩, some game)

end Bindings

end SecretHitler
