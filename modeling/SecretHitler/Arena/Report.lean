import SecretHitler.Arena.Tally
import SecretHitler.Decimal.Fixed
/-!
# Arena reports

Win rates with their 95% intervals, the average length of a match, and the
report that sums an arena up.
-/

namespace SecretHitler

namespace Tally

/-- A count as a floating-point number. -/
def float (n : Nat) : Float := (UInt64.ofNat n).toFloat

/-- The wins of a party; none recorded counts as zero. -/
def winsOf (t : Tally) (p : Party) : Nat := (t.wins.find? p).getD 0

/-- The share of matches that a party won. -/
def winRate (t : Tally) (p : Party) : Float := float (t.winsOf p) / float (max t.games 1)

/-- The larger of two numbers; what is not a number gives way. -/
def atLeast (low x : Float) : Float := if x > low then x else low

/-- The smaller of two numbers; what is not a number gives way. -/
def atMost (high x : Float) : Float := if x < high then x else high

/-- The Wilson interval of a party's win rate at 95%. -/
def interval (t : Tally) (p : Party) : Float × Float :=
  if t.games = 0 then (0, 0)
  else
    let n := float t.games
    let rate := t.winRate p
    let z : Float := 1.96
    let denom := 1 + z * z / n
    let center := (rate + z * z / (2 * n)) / denom
    let margin := z * ((rate * (1 - rate) + z * z / (4 * n)) / n).sqrt / denom
    (atLeast 0 (center - margin), atMost 1 (center + margin))

/-- The sum of some counts, in 64-bit words. -/
def total (counts : List Nat) : Attempt Nat :=
  let sum := counts.foldl (· + ·) 0
  if sum < UInt64.size then .ok sum else .fail .overflow

/-- The average length of a match. -/
def averageActions (t : Tally) : Attempt Float :=
  if t.actions.isEmpty then .ok 0
  else do
    let sum ← total t.actions
    return float sum / float t.actions.length

/-- A share as a percentage with one decimal. -/
def percent (x : Float) : String := Decimal.fixed 1 (x * 100)

/-- The report's line on a party. -/
def partyLine (t : Tally) (p : Party) : String :=
  let (low, high) := t.interval p
  "  " ++ Decimal.rightAligned 10 p.name ++ ": " ++
    Decimal.rightAligned 4 (toString (t.winsOf p)) ++ " wins (" ++
    Decimal.rightAligned 5 (percent (t.winRate p)) ++ "%)  [95% CI: " ++
    percent low ++ "%-" ++ percent high ++ "%]"

/-- The report's lines on the reasons of victory. -/
def reasonLines (t : Tally) : List String :=
  t.reasons.entries.map fun (victory, count) =>
    "    " ++ Decimal.rightAligned 4 (toString count) ++ "  " ++ victory.text

/-- The report's line on time, if time was taken. The sum starts from the zero
that changes no number, not even the other zero. -/
def timeLines (t : Tally) : List String :=
  if t.durations.isEmpty then []
  else
    let sum := t.durations.foldl (· + ·) (-0.0)
    let average := sum / float t.durations.length
    ["  Avg game: " ++ Decimal.fixed 2 average ++ "ms  |  Total CPU: " ++
      Decimal.fixed 1 (sum / 1000) ++ "s"]

/-- The report of an arena. -/
def summary (t : Tally) : Attempt String := do
  let average ← t.averageActions
  return "\n".intercalate <|
    [ "Arena Results (" ++ toString t.games ++ " games, " ++ toString t.players ++ " players)"
    , "".pushn '=' 60
    , t.partyLine .liberal
    , t.partyLine .fascist ]
    ++ t.reasonLines
    ++ ["  Avg actions per game: " ++ Decimal.fixed 1 average]
    ++ t.timeLines

end Tally

end SecretHitler
