import SecretHitler.Store.Basic
/-!
# Updates

An update runs a transition on the state that it reads, and again if others
were faster. The transition also answers its caller; the answer of its last
run counts. Applying an action is the update that leaves the game as it is
when the action is refused.
-/

namespace SecretHitler

namespace Store

variable {σ α β : Type} [RandomSource σ]

/-- What a transition makes of a state: the next one, and an answer. -/
abbrev Transition (σ α : Type) := Game → Draws σ (Game × α)

/-- What came of an update. -/
structure Updated (α : Type) where
  store : Store
  existed : Bool
  /-- How often the transition ran. -/
  runs : Nat
  /-- What its last run answered. -/
  answer : Option α

/-- An update that nobody disturbs. -/
def update (s : Store) (id : GameId) (t : Transition σ α) : Draws σ (Updated α) :=
  match s.read id with
  | none => return ⟨s, false, 0, none⟩
  | some seen => do
    let (next, answer) ← t seen.game
    return ⟨← s.renew id seen next, true, 1, some answer⟩

/-- An update in whose first run others change the store; what they answer
comes along. -/
def updateAmid (s : Store) (id : GameId) (others : Store → Draws σ (Store × β))
    (t : Transition σ α) : Draws σ (Updated α × Option β) :=
  match s.read id with
  | none => return (⟨s, false, 0, none⟩, none)
  | some seen => do
    let (s, said) ← others s
    let (next, answer) ← t seen.game
    match ← s.finish id seen next with
    | (s, .done existed) => return (⟨s, existed, 1, some answer⟩, some said)
    | (s, .overtaken) =>
      let again ← s.update id t
      return ({ again with runs := again.runs + 1, answer := again.answer <|> some answer },
        some said)

/-- An answer to an action: what came of it, or why it was refused. -/
abbrev Answer := Except Rejection Step

/-- Applies an action to a state; a refusal leaves the state. -/
def attempt (a : Action) : Transition σ Answer := fun g rng =>
  match g.apply a rng with
  | (.ok step, rng) => (.ok (step.game, .ok step), rng)
  | (.error (.rejected r), rng) => (.ok (g, .error r), rng)
  | (.error (.fault f), rng) => (.error (.fault f), rng)

/-- The answer a client is given, if the game was there to the end. -/
def Updated.result (u : Updated Answer) : Answer :=
  if u.existed then u.answer.getD (.error .noSuchGame) else .error .noSuchGame

/-- Applies an action to a stored game. -/
def tryApply (s : Store) (id : GameId) (a : Action) : Draws σ (Store × Answer) := do
  let u ← s.update id (attempt a)
  return (u.store, u.result)

/-- Applies actions to a stored game, one after the other. -/
def tryAll (s : Store) (id : GameId) : List Action → Draws σ (Store × List Answer)
  | [] => return (s, [])
  | a :: rest => do
    let (s, answer) ← s.tryApply id a
    let (s, answers) ← s.tryAll id rest
    return (s, answer :: answers)

end Store

end SecretHitler
