import SecretHitler.Table
/-!
# The nouns of the table

Seats, parties, roles, policies, ballots, presidential powers and victories.
A policy is a card; a party is who wins by it. Numbers that a rules file, a
snapshot or a caller may set are machine words: 32 bits for seats, counters
and thresholds, 64 bits for sizes and positions.
-/

namespace SecretHitler

/-- The number of a seat, unique in a game and never reused. -/
structure Seat where
  number : UInt32
deriving DecidableEq, Inhabited

instance : Ranked Seat where
  rank s := s.number.toNat
  rank_inj {a b} h := by
    cases a; cases b
    exact congrArg Seat.mk (UInt32.toNat_inj.mp h)

/-- A seat is written as its number behind a hash sign. -/
def Seat.label (s : Seat) : String := "#" ++ toString s.number.toNat

/-- A set of seats lists its members by rising number. -/
abbrev SeatSet := Table Seat Unit

/-- The two kinds of policy card. -/
inductive Policy
  | liberal
  | fascist
deriving DecidableEq, Inhabited

/-- The two sides of the game. -/
inductive Party
  | liberal
  | fascist
deriving DecidableEq, Inhabited

namespace Party

/-- The card a party wants enacted. -/
def policy : Party → Policy
  | liberal => .liberal
  | fascist => .fascist

/-- A party's name. -/
def name : Party → String
  | liberal => "Liberal"
  | fascist => "Fascist"

end Party

/-- The name on a policy card. -/
def Policy.name : Policy → String
  | liberal => "Liberal"
  | fascist => "Fascist"

/-- What a player secretly is. -/
inductive Role
  | liberal
  | plainFascist
  | hitler
deriving DecidableEq, Inhabited

/-- The party an investigation shows; Hitler reads as a fascist. -/
def Role.party : Role → Party
  | liberal => .liberal
  | plainFascist => .fascist
  | hitler => .fascist

/-- A vote on a proposed government. -/
inductive Ballot
  | yes
  | no
deriving DecidableEq, Inhabited

/-- A presidential power that waits on a choice. -/
inductive PendingPower
  | investigateParty
  | specialElection
  | execution
deriving DecidableEq, Inhabited

/-- A presidential power unlocked by the fascist track. -/
inductive Power
  | investigateParty
  | specialElection
  | policyPeek
  | execution
deriving DecidableEq, Inhabited

/-- The choice a power waits on; a policy peek resolves at once. -/
def Power.pending : Power → Option PendingPower
  | investigateParty => some .investigateParty
  | specialElection => some .specialElection
  | policyPeek => none
  | execution => some .execution

/-- A president and a chancellor, proposed or elected. -/
structure Government where
  president : Seat
  chancellor : Seat
deriving DecidableEq, Inhabited

/-- Whether a seat holds either office. -/
def Government.contains (g : Government) (s : Seat) : Bool :=
  g.president == s || g.chancellor == s

/-- How a game is won. -/
inductive Victory
  | liberalPolicyGoal
  | hitlerKilled
  | fascistPolicyGoal
  | hitlerElected
deriving DecidableEq, Inhabited

namespace Victory

/-- Every way to win, in the order in which reports list them. -/
def all : List Victory := [liberalPolicyGoal, hitlerKilled, fascistPolicyGoal, hitlerElected]

/-- The party that a victory belongs to. -/
def party : Victory → Party
  | liberalPolicyGoal => .liberal
  | hitlerKilled => .liberal
  | fascistPolicyGoal => .fascist
  | hitlerElected => .fascist

/-- A victory in words. -/
def text : Victory → String
  | liberalPolicyGoal => "liberals win: liberal policy goal reached"
  | hitlerKilled => "liberals win: Hitler was executed"
  | fascistPolicyGoal => "fascists win: fascist policy goal reached"
  | hitlerElected => "fascists win: Hitler elected chancellor"

end Victory

end SecretHitler
