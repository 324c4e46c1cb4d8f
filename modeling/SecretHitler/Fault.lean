import SecretHitler.Action
import SecretHitler.Rejection
/-!
# Faults

A fault is a broken promise of the board, not a refusal: a counter that
leaves its word, a deck too short for a draw, a seat without a role. A game
that starts from a valid rule set never meets one; a board read from a file
may. An attempt ends in a value, a rejection or a fault.
-/

namespace SecretHitler

/-- What a coherence check can find wrong with a running game. -/
inductive Violation
  | cardCount (policy : Policy) (expected found : Nat)
  | drawPileTooSmall (cards : Nat)
  | roleMapMismatch
  | hitlerCount (found : Nat)
deriving DecidableEq, Inhabited

namespace Violation

/-- A violation as it is reported. -/
def message : Violation → String
  | cardCount policy expected found =>
    policy.name ++ " cards: expected " ++ toString expected ++ ", found " ++ toString found
  | drawPileTooSmall cards =>
    "draw pile holds " ++ toString cards ++ " cards outside a policy choice"
  | roleMapMismatch => "role map does not cover exactly the seated players"
  | hitlerCount found => "expected exactly one Hitler, found " ++ toString found

/-- A violation as diagnostics print it. -/
def text : Violation → String
  | cardCount policy expected found =>
    Diagnostic.labelled "CardCount"
      [("policy", policy.name), ("expected", toString expected), ("found", toString found)]
  | drawPileTooSmall cards => "DrawPileTooSmall(" ++ toString cards ++ ")"
  | roleMapMismatch => "RoleMapMismatch"
  | hitlerCount found => "HitlerCount(" ++ toString found ++ ")"

end Violation

/-- What can break while an action is carried out. -/
inductive Fault
  | overflow
  | shortDraw (amount pile : Nat)
  | shortPeek (pile : Nat)
  | nobodySeated (after : Seat)
  | unseated (seat : Seat)
  | roleless (seat : Seat)
  | hitlerMissing
  | impossibleDeal (fascists players : Nat)
  | noOptions
  | rolesDiffer (roles seated : List Seat)
  | sharedNames (names distinct : Nat)
  | hitlerNotUnique (hitlers : Nat)
  | incoherent (action : Action) (violation : Violation)
deriving DecidableEq, Inhabited

namespace Fault

/-- A list of seats as diagnostics print it. -/
private def seatsText (seats : List Seat) : String :=
  "[" ++ ", ".intercalate
    (seats.map fun s => "PlayerNumber(" ++ toString s.number.toNat ++ ")") ++ "]"

/-- Two numbers that should have been equal, as diagnostics print them. -/
private def unequal (what : String) (left right : Nat) : String :=
  "assertion `left == right` failed: " ++ what ++
    "\n  left: " ++ toString left ++ "\n right: " ++ toString right

/-- A fault as it is reported. -/
def message : Fault → String
  | overflow => "attempt to add with overflow"
  | shortDraw amount pile =>
    "drawing " ++ toString amount ++ " from a draw pile of " ++ toString pile ++ " cards"
  | shortPeek pile => "peek on a draw pile of " ++ toString pile ++ " cards"
  | nobodySeated after => "next_after(" ++ after.label ++ ") on an empty player map"
  | unseated seat => seat.label ++ " is not seated"
  | roleless seat => "role map has no entry for player " ++ seat.label
  | hitlerMissing => "role map lost its Hitler"
  | impossibleDeal fascists players =>
    "cannot deal " ++ toString fascists ++ " fascists and Hitler to " ++ toString players ++ " players"
  | noOptions => "no options to choose from"
  | rolesDiffer roles seated =>
    "role map players " ++ seatsText roles ++ " differ from seated players " ++ seatsText seated
  | sharedNames names distinct => unequal "player names must be distinct" names distinct
  | hitlerNotUnique hitlers => unequal "role map must hold exactly one Hitler" hitlers 1
  | incoherent action violation =>
    action.text ++ " produced an incoherent state: Err(" ++ violation.text ++ ")"

end Fault

/-- Why an attempt has no value. -/
inductive Halt
  | rejected (cause : Rejection)
  | fault (cause : Fault)
deriving DecidableEq, Inhabited

/-- A value, or the reason why there is none. -/
abbrev Attempt (α : Type) := Except Halt α

namespace Attempt

/-- Refuses. -/
def reject {α : Type} (r : Rejection) : Attempt α := .error (.rejected r)

/-- Breaks off. -/
def fail {α : Type} (f : Fault) : Attempt α := .error (.fault f)

/-- The value of an option, or a rejection. -/
def orReject {α : Type} (r : Rejection) : Option α → Attempt α
  | some a => .ok a
  | none => reject r

/-- The value of an option, or a fault. -/
def orFail {α : Type} (f : Fault) : Option α → Attempt α
  | some a => .ok a
  | none => fail f

end Attempt

/-- A counter one higher; a word that is full overflows. -/
def increment (n : UInt32) : Attempt UInt32 :=
  if n.toNat + 1 < UInt32.size then .ok (n + 1) else .fail .overflow

end SecretHitler
