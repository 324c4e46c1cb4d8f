import SecretHitler.Store.Basic
/-!
# Snapshots

What of a store outlives it: the games and the number of the next one. A
loaded store counts versions from zero, and hands out numbers above every
game it holds, whatever the snapshot claims.
-/

namespace SecretHitler

/-- A store as it is saved. -/
structure Snapshot where
  nextId : UInt64
  games : Table GameId Game
deriving DecidableEq, Inhabited

namespace Table

variable {κ α β : Type} [Ranked κ]

/-- The table with every value changed. -/
def mapValues (t : Table κ α) (f : α → β) : Table κ β :=
  ⟨t.entries.map fun e => (e.1, f e.2), t.sorted.map _ fun _ _ h => h⟩

end Table

namespace Store

/-- Saves a store. -/
def save (s : Store) : Snapshot := ⟨s.nextId, s.games.mapValues (·.game)⟩

/-- The least number above every game of a snapshot and not below the number
it names as next. -/
def freshId (s : Snapshot) : Attempt UInt64 :=
  s.games.keys.foldlM (fun (next : UInt64) (id : GameId) =>
    if id.number.toNat + 1 < UInt64.size then .ok (max next (id.number + 1))
    else .fail .overflow) s.nextId

/-- Loads a snapshot. -/
def load (s : Snapshot) : Attempt Store := do
  let next ← freshId s
  return ⟨next, s.games.mapValues fun g => ⟨0, g⟩⟩

end Store

end SecretHitler
