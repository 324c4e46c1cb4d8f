import SecretHitler.Randomness.Draws
/-!
# Hidden roles

The role of every seat, and what each player is told of the others when the
roles are dealt.
-/

namespace SecretHitler

/-- What a player is privately told about the roles. -/
structure Knowledge where
  player : Seat
  role : Role
  /-- The plain fascists this player knows of, other than itself. -/
  knownFascists : List Seat
  knownHitler : Option Seat
deriving DecidableEq, Inhabited

/-- The role of every seat. -/
structure RoleMap where
  roles : Table Seat Role
deriving DecidableEq, Inhabited

namespace RoleMap

/-- How many seats hold Hitler. -/
def hitlers (m : RoleMap) : Nat := m.roles.values.count .hitler

/-- A role map with exactly one Hitler. -/
def ofTable (roles : Table Seat Role) : Attempt RoleMap :=
  let m : RoleMap := ⟨roles⟩
  if m.hitlers = 1 then .ok m else .fail (.hitlerNotUnique m.hitlers)

/-- The role dealt at a place in the shuffled order of seats: Hitler first,
then the plain fascists, then liberals. -/
def dealt (fascists place : Nat) : Role :=
  if place = 0 then .hitler else if place ≤ fascists then .plainFascist else .liberal

/-- Deals Hitler, a number of plain fascists and liberals for the rest. -/
def deal {σ : Type} [RandomSource σ] (seats : List Seat) (fascists : Nat) : Draws σ RoleMap :=
  if fascists < seats.length then do
    let order ← .draw (RandomSource.shuffle seats)
    .of (ofTable (.ofList (order.zipIdx.map fun (s, place) => (s, dealt fascists place))))
  else .of (.fail (.impossibleDeal fascists seats.length))

/-- The seats that have a role, rising. -/
def seats (m : RoleMap) : List Seat := m.roles.keys

/-- The role of a seat. -/
def roleOf (m : RoleMap) (s : Seat) : Attempt Role := .orFail (.roleless s) (m.roles.find? s)

/-- The party of a seat, as an investigation shows it. -/
def partyOf (m : RoleMap) (s : Seat) : Attempt Party := (m.roleOf s).map Role.party

/-- The first seat that holds Hitler. -/
def hitler (m : RoleMap) : Attempt Seat :=
  .orFail .hitlerMissing ((m.roles.entries.find? fun e => e.2 == .hitler).map (·.1))

/-- The seats of the plain fascists, rising. -/
def plainFascists (m : RoleMap) : List Seat :=
  (m.roles.entries.filter fun e => e.2 == .plainFascist).map (·.1)

/-- The role map once a seat is vacated. Hitler's seat never is: killing
Hitler ends the game. -/
def without (m : RoleMap) (s : Seat) : Attempt RoleMap := ofTable (m.roles.erase s)

/-- What the player in a seat is told. Liberals learn nothing. Plain fascists
learn the whole team. Hitler learns the team only where the rules say so. -/
def knowledge (m : RoleMap) (s : Seat) (hitlerKnows : Bool) : Attempt Knowledge := do
  let team := m.plainFascists.filter (· ≠ s)
  match ← m.roleOf s with
  | .liberal => return ⟨s, .liberal, [], none⟩
  | .plainFascist =>
    let hitler ← m.hitler
    return ⟨s, .plainFascist, team, some hitler⟩
  | .hitler => return ⟨s, .hitler, if hitlerKnows then team else [], none⟩

end RoleMap

end SecretHitler
