import SecretHitler.Play.Apply
/-!
# The store

Games under numbers that the store hands out and never hands out twice. An
update reads a game and its version, works out the next state on its own
time, and writes only if the version still stands; a client that was
overtaken starts again from what it finds. An update that changes nothing
writes nothing.
-/

namespace SecretHitler

/-- The number under which the store keeps a game. -/
structure GameId where
  number : UInt64
deriving DecidableEq, Inhabited

instance : Ranked GameId where
  rank id := id.number.toNat
  rank_inj {a b} h := by
    cases a; cases b
    exact congrArg GameId.mk (UInt64.toNat_inj.mp h)

/-- A game's name in logs and links. -/
def GameId.label (id : GameId) : String := "game-" ++ toString id.number.toNat

/-- A stored game and the number of writes it has seen. -/
structure Versioned where
  version : UInt64
  game : Game
deriving DecidableEq, Inhabited

/-- The games, and the number of the next one. -/
structure Store where
  nextId : UInt64
  games : Table GameId Versioned
deriving DecidableEq, Inhabited

namespace Store

/-- The store without games. -/
def empty : Store := ⟨0, .empty⟩

/-- How many games are kept. -/
def size (s : Store) : Nat := s.games.size

/-- What is kept under a number: the state of a game and its version. -/
def read (s : Store) (id : GameId) : Option Versioned := s.games.find? id

/-- The state of a game. -/
def get? (s : Store) (id : GameId) : Option Game := (s.read id).map (·.game)

/-- How many writes a game has seen. -/
def version? (s : Store) (id : GameId) : Option Nat := (s.read id).map (·.version.toNat)

/-- Keeps a new game under the next number. -/
def create (s : Store) (g : Game) : Attempt (GameId × Store) :=
  if s.nextId.toNat + 1 < UInt64.size then
    let id : GameId := ⟨s.nextId⟩
    .ok (id, ⟨s.nextId + 1, s.games.insert id ⟨0, g⟩⟩)
  else .fail .overflow

/-- Forgets a game. -/
def remove (s : Store) (id : GameId) : Store := { s with games := s.games.erase id }

/-- Puts the next state of a game over one that was read, at the next version. -/
def write (s : Store) (id : GameId) (seen : Versioned) (next : Game) : Attempt Store :=
  if seen.version.toNat + 1 < UInt64.size then
    .ok { s with games := s.games.insert id ⟨seen.version + 1, next⟩ }
  else .fail .overflow

/-- Writes the next state of a game if it is another one. -/
def renew (s : Store) (id : GameId) (seen : Versioned) (next : Game) : Attempt Store :=
  if next = seen.game then .ok s else s.write id seen next

/-- How an update ends: done, the game existing or not, or overtaken. -/
inductive Ending
  | done (existed : Bool)
  | overtaken
deriving DecidableEq

/-- The last step of an update that read `seen` and worked out `next`. -/
def finish (s : Store) (id : GameId) (seen : Versioned) (next : Game) :
    Attempt (Store × Ending) :=
  if next = seen.game then .ok (s, .done true)
  else
    match s.read id with
    | none => .ok (s, .done false)
    | some current =>
      if current.version = seen.version then do return (← s.write id seen next, .done true)
      else .ok (s, .overtaken)

end Store

end SecretHitler
