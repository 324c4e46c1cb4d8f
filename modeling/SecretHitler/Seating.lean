import SecretHitler.Fault
/-!
# Seating

Which name sits on which seat. Names are seated from one upwards; the turn
passes to the next higher seat that is still taken, and from the last one
back to the first.
-/

namespace SecretHitler

/-- The names of the living players by seat. -/
structure Seating where
  names : Table Seat String
deriving DecidableEq, Inhabited

namespace Seating

/-- A seating whose names are distinct. -/
def ofTable (names : Table Seat String) : Attempt Seating :=
  let distinct := names.values.eraseDups.length
  if names.size = distinct then .ok ⟨names⟩ else .fail (.sharedNames names.size distinct)

/-- Names seated from one upwards. -/
def ofNames (names : List String) : Attempt Seating :=
  ofTable (.ofList (names.zipIdx.map fun (name, i) => (⟨.ofNat (i + 1)⟩, name)))

/-- The seats that are taken, rising. -/
def seats (t : Seating) : List Seat := t.names.keys

/-- How many seats are taken. -/
def size (t : Seating) : Nat := t.names.size

/-- Whether a seat is taken. -/
def contains (t : Seating) (s : Seat) : Bool := t.names.contains s

/-- Who sits on a seat. -/
def nameOf? (t : Seating) (s : Seat) : Option String := t.names.find? s

/-- The first seat taken by a name. -/
def seatOf? (t : Seating) (name : String) : Option Seat :=
  (t.names.entries.find? fun e => e.2 == name).map (·.1)

/-- The next seat in turn: the lowest above the given one, which need not be
taken itself, or else the lowest of all. -/
def nextAfter (t : Seating) (s : Seat) : Attempt Seat :=
  match t.seats.find? (fun n => rank s < rank n) with
  | some n => .ok n
  | none => .orFail (.nobodySeated s) t.seats.head?

/-- The seating once a seat is vacated. -/
def without (t : Seating) (s : Seat) : Seating := ⟨t.names.erase s⟩

/-- The seat of an actor, who must be the player a decision belongs to. -/
def authorize (t : Seating) (actor : String) (owner : Seat) : Attempt Seat :=
  match t.seatOf? actor with
  | none => .reject .actorNotPlayer
  | some s => if s = owner then .ok s else .reject .unauthorized

/-- The seat of a chosen target. -/
def target (t : Seating) (name : String) : Attempt Seat :=
  .orReject .targetNotPlayer (t.seatOf? name)

end Seating

end SecretHitler
