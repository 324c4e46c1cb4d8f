import SecretHitler.Proofs.Secrecy
import SecretHitler.Proofs.Victories
/-!
# What an answer says about the game

Two facts that hold of every game, sound or not, because a store keeps whatever
it is given. **An accepted action leads to another game** (`Game.apply_changes`):
in a lobby the names change or the game starts, and every move leaves its phase.
**No refusal says that there is no game** (`Game.apply_findsGame`): of all causes
`noSuchGame` is the one that the rules never name.
-/

namespace SecretHitler

variable {σ : Type} [RandomSource σ]

/-! ## Accepted actions change the game -/

namespace Board

variable {b : Board} {step : Step}

/-- Chaos opens a nomination, unless it ends the game. -/
theorem Collapses.opens (h : b.Collapses step) :
    step.Keeps fun g => ∃ candidate, g.phase = .nomination candidate := by
  cases h with
  | ended _ _ _ => exact trivial
  | goesOn _ _ _ _ => exact ⟨_, rfl⟩

/-- So does a failed government. -/
theorem Fails.opens (h : b.Fails step) :
    step.Keeps fun g => ∃ candidate, g.phase = .nomination candidate := by
  cases h with
  | counted _ _ _ => exact ⟨_, rfl⟩
  | collapsed _ _ hchaos => exact hchaos.opens

end Board

/-- A ballot that is cast is new. -/
theorem Votes.ne_of_cast {votes votes' : Votes} {seat : Seat} {ballot : Ballot}
    (h : votes.cast seat ballot = .ok votes') : votes' ≠ votes := by
  obtain ⟨hfresh, rfl⟩ := cast_eq_ok.mp h
  intro heq
  have hvoted : (⟨votes.ballots.insert seat ballot⟩ : Votes).hasVoted seat = true :=
    Table.contains_iff.mpr (Table.mem_keys_insert.mpr (.inl rfl))
  rw [heq, hfresh] at hvoted
  cases hvoted

/-- **Every move leaves its phase**; a vote that goes on has a ballot more. -/
theorem Running.Moves.phase_ne {g : Running} {a : Action} {step : Step} (h : g.Moves a step) :
    step.Keeps fun g' => g'.phase ≠ g.phase := by
  have away {p : Phase} {step : Step} (hp : ∀ candidate, .nomination candidate ≠ p)
      (hopens : step.Keeps fun g => ∃ candidate, g.phase = .nomination candidate) :
      step.Keeps fun g => g.phase ≠ p :=
    hopens.imp fun g ⟨candidate, hphase⟩ => hphase ▸ hp candidate
  cases h with
  | vote _ hcast _ => exact fun heq => Votes.ne_of_cast hcast (Phase.voting.inj heq).2
  | decide _ _ _ hresolves =>
    cases hresolves with
    | hitlerElected _ _ => exact trivial
    | elected _ _ _ => exact nofun
    | rejected _ _ hfails => exact away nofun hfails.opens
  | enact _ _ _ henacts =>
    cases henacts with
    | ended _ _ => exact trivial
    | goesOn _ _ _ _ | peeks _ _ _ _ _ | waits _ _ _ _ => exact nofun
  | approveVeto _ _ _ hfails => exact away nofun hfails.opens
  | killHitler _ _ _ _ => exact trivial
  | _ => exact nofun

/-- Whoever joins or leaves changes the lobby, and a start leaves it. -/
theorem Lobby.play_changes {l : Lobby} {a : Action} {s t : σ} {step : Step}
    (h : l.play a s = (.ok step, t)) : step.game ≠ .lobby l := by
  cases a with
  | join name =>
    obtain ⟨-, rfl⟩ := join_eq_ok.mp (Prod.mk.inj h).1
    intro heq
    have hplayers : l.players ++ [name] = l.players := congrArg Lobby.players (Game.lobby.inj heq)
    simp at hplayers
  | leave name =>
    have hleave := (Prod.mk.inj h).1
    rw [leave] at hleave
    split at hleave
    · rename_i hpresent
      cases hleave
      intro heq
      -- the name would still be there
      have hplayers : l.players.filter (· ≠ name) = l.players :=
        congrArg Lobby.players (Game.lobby.inj heq)
      have hmem := contains_iff.mp hpresent
      rw [← hplayers] at hmem
      simp at hmem
    · cases hleave
  | start actor =>
    obtain ⟨_, _, _, _, _, -, -, -, -, -, rfl⟩ := exists_of_start h
    simp [Step.after, Board.beginElection]
  | _ => cases h

namespace Game

variable {g : Game} {a : Action} {s t : σ} {step : Step}

/-- **An accepted action changes the game.** -/
theorem apply_changes (h : g.apply a s = (.ok step, t)) : step.game ≠ g := by
  have hplay := play_of_apply h
  cases g with
  | lobby l => exact Lobby.play_changes hplay
  | running g => exact fun heq => (Running.moves_of_play hplay).phase_ne.of_running heq rfl
  | completed v => cases hplay

end Game

/-! ## No refusal denies the game -/

/-- An attempt that is not refused for want of a game. -/
def Attempt.FindsGame {α : Type} (x : Attempt α) : Prop := x ≠ reject .noSuchGame

/-- A computation that is not refused for want of a game, whatever it draws. -/
def Draws.FindsGame {α : Type} (x : Draws σ α) : Prop := ∀ s, (x s).1.FindsGame

namespace Attempt

variable {α β : Type}

@[simp] theorem findsGame_ok (a : α) : FindsGame (.ok a : Attempt α) := fun heq => by cases heq

@[simp] theorem findsGame_fail (f : Fault) : FindsGame (fail f : Attempt α) :=
  fun heq => by cases heq

@[simp] theorem findsGame_reject {r : Rejection} :
    FindsGame (reject r : Attempt α) ↔ r ≠ .noSuchGame := by
  simp [FindsGame, reject]

/-- What is not refused at all is not refused for that. -/
theorem findsGame_of_not_rejects {x : Attempt α} (h : ¬ x.Rejects) : x.FindsGame :=
  fun heq => h ⟨_, heq⟩

/-- A lookup that has another complaint. -/
theorem findsGame_orReject {r : Rejection} (h : r ≠ .noSuchGame) (o : Option α) :
    FindsGame (orReject r o) := by
  cases o with
  | none => exact findsGame_reject.mpr h
  | some a => exact findsGame_ok a

/-- An attempt finds the game if its parts do. -/
theorem FindsGame.bind {x : Attempt α} {f : α → Attempt β} (hx : x.FindsGame)
    (hf : ∀ a, (f a).FindsGame) : Attempt.FindsGame (x >>= f) := by
  rcases x with e | a
  · exact fun heq => hx (congrArg Except.error (Except.error.inj heq))
  · exact hf a

end Attempt

namespace Draws

variable {σ α β : Type}

theorem findsGame_lift {x : Attempt α} (h : x.FindsGame) : FindsGame (liftM x : Draws σ α) :=
  fun _ => h

theorem findsGame_pure (a : α) : FindsGame (pure a : Draws σ α) := fun _ => Attempt.findsGame_ok a

/-- A computation that refuses nothing does not refuse that. -/
theorem findsGame_of_neverRejects {x : Draws σ α} (h : x.NeverRejects) : x.FindsGame :=
  fun s => Attempt.findsGame_of_not_rejects (h s)

/-- A computation finds the game if its parts do, whatever is drawn between them. -/
theorem FindsGame.bind {x : Draws σ α} {f : α → Draws σ β} (hx : x.FindsGame)
    (hf : ∀ a, (f a).FindsGame) : FindsGame (x >>= f) := by
  intro s
  rw [bind_apply]
  rcases h : x s with ⟨e | a, t⟩
  · have hs := hx s
    rw [h] at hs
    exact fun heq => hs (congrArg Except.error (Except.error.inj heq))
  · exact hf a t

end Draws

namespace Board

/-- An actor is unknown or out of turn. -/
theorem findsGame_authorize (t : Seating) (actor : String) (owner : Seat) :
    Attempt.FindsGame (t.authorize actor owner) := by
  rw [Seating.authorize]
  split
  · simp
  · split <;> simp

/-- A nominee is unknown or not eligible. -/
theorem findsGame_nominate (b : Board) (candidate : Seat) (actor nominee : String) :
    Attempt.FindsGame (b.nominate candidate actor nominee) := by
  refine (findsGame_authorize _ _ _).bind fun president =>
    (Attempt.findsGame_orReject (by simp) _).bind fun chancellor => ?_
  split <;> simp

/-- A voter is unknown or has voted. -/
theorem findsGame_castVote (b : Board) (g : Government) (votes : Votes) (voter : String)
    (ballot : Ballot) : (b.castVote g votes voter ballot : Draws σ Step).FindsGame := by
  have hcast (seat : Seat) : Attempt.FindsGame (votes.cast seat ballot) := by
    rw [Votes.cast]
    split <;> simp
  refine (Draws.findsGame_lift (Attempt.findsGame_orReject (by simp) _)).bind fun seat =>
    (Draws.findsGame_lift (hcast seat)).bind fun votes' => ?_
  split
  · exact Draws.findsGame_of_neverRejects (.bind (b.resolveVote_neverRejects g votes') fun _ => .pure _)
  · exact Draws.findsGame_pure _

/-- A hand lacks the card. -/
theorem findsGame_presidentDiscard (b : Board) (g : Government) (hand : Hand) (actor : String)
    (index : UInt64) : Attempt.FindsGame (b.presidentDiscard g hand actor index) :=
  (findsGame_authorize _ _ _).bind fun _ =>
    (Attempt.findsGame_orReject (by simp) _).bind fun taken => Attempt.findsGame_ok _

/-- An agenda lacks the card, or is held up by a request. -/
theorem findsGame_chancellorEnact (b : Board) (g : Government) (agenda : Agenda)
    (veto : VetoStatus) (actor : String) (index : UInt64) :
    Attempt.FindsGame (b.chancellorEnact g agenda veto actor index) := by
  refine (findsGame_authorize _ _ _).bind fun _ => ?_
  split
  · simp
  · exact (Attempt.findsGame_orReject (by simp) _).bind fun taken =>
      Attempt.findsGame_of_not_rejects (not_rejects_enactByGovernment _ _ _)

/-- A request comes too early or twice. -/
theorem findsGame_requestVeto (b : Board) (g : Government) (agenda : Agenda) (veto : VetoStatus)
    (actor : String) : Attempt.FindsGame (b.requestVeto g agenda veto actor) := by
  refine (findsGame_authorize _ _ _).bind fun _ => ?_
  cases veto with
  | requested | rejected => simp
  | notRequested =>
    dsimp only
    split <;> simp

/-- An answer lacks its request. -/
theorem findsGame_answerVeto (b : Board) (g : Government) (agenda : Agenda) (veto : VetoStatus)
    (actor : String) (approved : Bool) :
    (b.answerVeto g agenda veto actor approved : Draws σ Step).FindsGame := by
  refine (Draws.findsGame_lift (findsGame_authorize _ _ _)).bind fun _ => ?_
  split
  · exact Draws.findsGame_lift (Attempt.findsGame_reject.mpr (by simp))
  split
  · exact Draws.findsGame_of_neverRejects (b.approveVeto_neverRejects g agenda)
  · exact Draws.findsGame_pure _

theorem findsGame_investigate (b : Board) (president target : Seat) :
    Attempt.FindsGame (b.investigate president target) := by
  rw [investigate]
  split
  · simp
  · exact Attempt.findsGame_of_not_rejects <|
      Attempt.not_rejects_bind (RoleMap.not_rejects_partyOf _ _) fun party =>
      Attempt.not_rejects_bind (not_rejects_nextElection _) fun step => Attempt.not_rejects_ok _

theorem findsGame_execute (b : Board) (target : Seat) : Attempt.FindsGame (b.execute target) :=
  Attempt.findsGame_of_not_rejects (b.not_rejects_execute target)

/-- A power is another one, or aimed where it must not be. -/
theorem findsGame_usePower (b : Board) (pending : PendingPower) (owner : Seat)
    (power : PendingPower) (actor target : String) :
    Attempt.FindsGame (b.usePower pending owner power actor target) := by
  rw [usePower]
  split
  · simp
  refine (findsGame_authorize _ _ _).bind fun president =>
    (Attempt.findsGame_orReject (by simp) _).bind fun seat => ?_
  split
  · simp
  cases power with
  | investigateParty => exact findsGame_investigate b president seat
  | specialElection => simp
  | execution => exact findsGame_execute b seat

end Board

/-- **A game under way refuses much, but it does not say that it is not there.** -/
theorem Running.play_findsGame (g : Running) (a : Action) : (g.play a : Draws σ Step).FindsGame := by
  have hnotAwaited : (Draws.of (.reject .notAwaited) : Draws σ Step).FindsGame :=
    fun _ => Attempt.findsGame_reject.mpr (by simp)
  obtain ⟨b, phase⟩ := g
  cases phase with
  | nomination candidate =>
    cases a with
    | nominate actor nominee => exact fun _ => b.findsGame_nominate candidate actor nominee
    | _ => exact hnotAwaited
  | voting government votes =>
    cases a with
    | vote voter ballot => exact b.findsGame_castVote government votes voter ballot
    | _ => exact hnotAwaited
  | presidentChoice government hand =>
    cases a with
    | discard actor index => exact fun _ => b.findsGame_presidentDiscard government hand actor index
    | _ => exact hnotAwaited
  | chancellorChoice government agenda veto =>
    cases a with
    | enact actor index =>
      exact fun _ => b.findsGame_chancellorEnact government agenda veto actor index
    | requestVeto actor => exact fun _ => b.findsGame_requestVeto government agenda veto actor
    | answerVeto actor approved => exact b.findsGame_answerVeto government agenda veto actor approved
    | _ => exact hnotAwaited
  | powerPending pending president =>
    cases a with
    | usePower power actor name =>
      exact fun _ => b.findsGame_usePower pending president power actor name
    | _ => exact hnotAwaited

namespace Lobby

variable (l : Lobby)

theorem findsGame_configuration (actor : String) : Attempt.FindsGame (l.configuration actor) := by
  rw [configuration]
  split
  · simp
  split
  · simp
  · exact Attempt.findsGame_orReject (by simp) _

theorem findsGame_start (actor : String) : (l.start actor : Draws σ Step).FindsGame := by
  obtain ⟨deal, hdeal, hstart⟩ := l.exists_start_eq (σ := σ) actor
  rw [hstart]
  exact (Draws.findsGame_lift (l.findsGame_configuration actor)).bind fun config =>
    Draws.findsGame_of_neverRejects (hdeal config)

/-- Nor does a lobby. -/
theorem play_findsGame (a : Action) : (l.play a : Draws σ Step).FindsGame := by
  cases a with
  | join name =>
    intro _
    change Attempt.FindsGame (l.join name)
    rw [join]
    split
    · simp
    split <;> simp
  | leave name =>
    intro _
    change Attempt.FindsGame (l.leave name)
    rw [leave]
    split <;> simp
  | start actor => exact l.findsGame_start actor
  | _ => exact fun _ => Attempt.findsGame_reject.mpr (by simp)

end Lobby

/-- **No refusal says that there is no game.** -/
theorem Game.apply_findsGame (g : Game) (a : Action) : (g.apply a : Draws σ Step).FindsGame := by
  have hplay : (g.play a : Draws σ Step).FindsGame := by
    cases g with
    | lobby l => exact l.play_findsGame a
    | running g => exact g.play_findsGame a
    | completed v => exact fun _ => Attempt.findsGame_reject.mpr (by simp)
  refine hplay.bind fun step => ?_
  refine (Draws.findsGame_lift (Attempt.findsGame_of_not_rejects
    (Game.not_rejects_violation step.game))).bind fun found => ?_
  cases found with
  | none => exact Draws.findsGame_pure _
  | some v => exact Draws.findsGame_lift (Attempt.findsGame_fail _)

end SecretHitler
