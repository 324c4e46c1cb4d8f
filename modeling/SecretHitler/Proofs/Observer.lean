import SecretHitler.Proofs.Runs
import Mathlib.Data.Finset.Image
/-!
# The event log

Events are reported next to the board and not read off it, so the two could drift
apart. They do not: an `Observer` who sees every event of a game and nothing else
knows at any time what is being decided and by whom, who has voted, which cards are
held, the policies on the track, who is alive and who was investigated, whose turn it
is and how many cards are left to draw. `Moves.tells` shows that a move reports all
that it changes, `Rules.Valid.log_shows` that the log of a run determines its board.
-/

namespace SecretHitler

/-- What is being decided, as far as events tell: of a vote, who has voted. -/
inductive Stage
  | opening
  | nomination (candidate : Seat)
  | voting (government : Government) (voters : Finset Seat)
  | presidentChoice (government : Government) (hand : Hand)
  | chancellorChoice (government : Government) (agenda : Agenda) (veto : VetoStatus)
  | powerPending (power : PendingPower) (president : Seat)
  | over (victory : Victory)
deriving DecidableEq

namespace Stage

/-- Somebody has voted. -/
def vote (voter : Seat) : Stage → Stage
  | voting government voters => voting government (insert voter voters)
  | stage => stage

/-- The president of the government that was voted on holds a hand. -/
def draw (president : Seat) (hand : Hand) : Stage → Stage
  | voting government _ => presidentChoice ⟨president, government.chancellor⟩ hand
  | stage => stage

/-- The chancellor holds what the president has passed. -/
def pass (chancellor : Seat) (agenda : Agenda) : Stage → Stage
  | presidentChoice government _ =>
    chancellorChoice ⟨government.president, chancellor⟩ agenda .notRequested
  | stage => stage

/-- The talk about a veto has come so far. -/
def discuss (government : Government) (veto : VetoStatus) : Stage → Stage
  | chancellorChoice _ agenda _ => chancellorChoice government agenda veto
  | stage => stage

end Stage

/-- **What an observer has put together.** Nobody has the turn before the first
election. -/
structure Observer where
  stage : Stage
  seats : Finset Seat
  track : Track
  investigated : Finset Seat
  ticker : Option Seat
  drawSize : ℕ
deriving DecidableEq

namespace Observer

/-- The observer of a table of so many players, with the deck still in its box. -/
def start (players : ℕ) : Observer where
  stage := .opening
  seats := (Finset.range players).image fun i => ⟨.ofNat (i + 1)⟩
  track := {}
  investigated := ∅
  ticker := none
  drawSize := liberalCards + fascistCards

/-- **What an observer makes of an event.** A peek waits on nobody, and votes are
told one by one before they are counted. -/
def watch (o : Observer) : Event → Observer
  | .electionStarted candidate special =>
    { o with
      stage := .nomination candidate
      ticker := if special then o.ticker else some candidate }
  | .chancellorNominated government => { o with stage := .voting government ∅ }
  | .voteCast voter => { o with stage := o.stage.vote voter }
  | .policiesDrawn president hand =>
    { o with stage := o.stage.draw president hand, drawSize := o.drawSize - standardDraw }
  | .policiesPassed chancellor agenda => { o with stage := o.stage.pass chancellor agenda }
  | .deckReshuffled cards => { o with drawSize := cards.toNat }
  | .vetoRequested government => { o with stage := o.stage.discuss government .requested }
  | .vetoRejected government => { o with stage := o.stage.discuss government .rejected }
  | .countryInChaos _ => { o with drawSize := o.drawSize - 1 }
  | .policyEnacted _ _ liberal fascist => { o with track := ⟨liberal, fascist⟩ }
  | .powerActivated power president =>
    match power.pending with
    | some pending => { o with stage := .powerPending pending president }
    | none => o
  | .playerInvestigated _ target => { o with investigated := insert target o.investigated }
  | .playerExecuted target => { o with seats := o.seats.erase target }
  | .gameOver victory => { o with stage := .over victory }
  | _ => o

/-- What an observer makes of events one after another. -/
def follow (o : Observer) (events : List Event) : Observer := events.foldl watch o

/-- Who follows some events and then others follows them all. -/
theorem follow_append (o : Observer) (first second : List Event) :
    o.follow (first ++ second) = (o.follow first).follow second := List.foldl_append

end Observer

/-! ## What there is to know -/

/-- A phase, up to the ballots of an open vote. -/
def Phase.stage : Phase → Stage
  | nomination candidate => .nomination candidate
  | voting government votes => .voting government votes.ballots.keys.toFinset
  | presidentChoice government hand => .presidentChoice government hand
  | chancellorChoice government agenda veto => .chancellorChoice government agenda veto
  | powerPending power president => .powerPending power president

/-- A board, as an observer knows it at some stage. -/
def Board.observed (b : Board) (stage : Stage) : Observer where
  stage := stage
  seats := b.seating.seats.toFinset
  track := b.track
  investigated := b.investigated.keys.toFinset
  ticker := some b.election.ticker
  drawSize := b.deck.drawPile.length

/-- **A game under way, as an observer knows it.** -/
def Running.observed (g : Running) : Observer := g.board.observed g.phase.stage

/-- **What an observer has got right**: all that there is to know of a game under way,
and how a finished one was won. -/
def Observer.Shows (o : Observer) : Game → Prop
  | .lobby _ => False
  | .running g => o = g.observed
  | .completed v => o.stage = .over v

/-- A step whose events tell an observer all that it does. -/
def Step.Tells (s : Step) (o : Observer) : Prop := (o.follow s.events).Shows s.game

namespace Step

variable {s : Step} {o : Observer}

/-- Events that come before are followed before. -/
theorem tells_after {events : List Event} :
    (s.after events).Tells o ↔ s.Tells (o.follow events) := by
  rw [Tells, after, Observer.follow_append]
  rfl

@[simp] theorem tells_gameOver (v : Victory) : (gameOver v).Tells o := rfl

end Step

namespace Table

variable {κ α : Type} [Ranked κ] [DecidableEq κ]

theorem toFinset_keys_insert (t : Table κ α) (k : κ) (v : α) :
    (t.insert k v).keys.toFinset = Insert.insert k t.keys.toFinset := by
  ext k'
  simp [mem_keys_insert]

/-- An erasure takes one key off. -/
theorem toFinset_keys_erase (t : Table κ α) (k : κ) :
    (t.erase k).keys.toFinset = t.keys.toFinset.erase k := by
  ext k'
  simp [mem_keys_erase, and_comm]

end Table

/-- Who has voted, once another ballot is in. -/
theorem Votes.keys_of_cast {votes votes' : Votes} {seat : Seat} {ballot : Ballot}
    (h : votes.cast seat ballot = .ok votes') :
    votes'.ballots.keys.toFinset = insert seat votes.ballots.keys.toFinset := by
  obtain ⟨-, rfl⟩ := cast_eq_ok.mp h
  exact Table.toFinset_keys_insert ..

/-! ## Moves -/

/-- **A deal, as an observer counts it**: the cards that were taken are gone, and a
reshuffle tells what is there now. -/
theorem Deck.Deals.follow {d d' : Deck} {taken : List Policy} {reshuffled : Bool}
    (h : d.Deals taken d' reshuffled) (hsize : d'.drawSize.toNat = d'.drawPile.length)
    (o : Observer) :
    Observer.follow { o with drawSize := d.drawPile.length - taken.length }
        (Board.reshuffleEvents d' reshuffled) =
      { o with drawSize := d'.drawPile.length } := by
  obtain ⟨rest, hpile, hrep⟩ := h
  cases hrep with
  | full _ =>
    have hleft : d.drawPile.length - taken.length = rest.length := by
      rw [hpile, List.length_append]
      omega
    rw [hleft]
    rfl
  | shuffled _ _ =>
    show { o with drawSize := (Deck.drawSize _).toNat } = _
    rw [hsize]

namespace Board

variable {b : Board} {step : Step} {stage : Stage}

/-- To mark somebody as investigated is to add one to the set that an observer keeps. -/
theorem observed_investigate (b : Board) (president target : Seat) (stage : Stage) :
    Board.observed { b with investigated := b.investigated.insert target () } stage =
      (b.observed stage).follow [.playerInvestigated president target] := by
  rw [observed, Table.toFinset_keys_insert]
  rfl

/-- To take somebody off the table is to take one off the set of seats. -/
theorem observed_kill (b : Board) (target : Seat) (roles : RoleMap) (stage : Stage) :
    Board.observed { b with seating := b.seating.without target, roles := roles } stage =
      (b.observed stage).follow [.playerExecuted target] := by
  rw [observed, Seating.seats, Seating.without, Table.toFinset_keys_erase]
  rfl

theorem tells_opened (b : Board) (next : Seat) (stage : Stage) :
    (b.opened next).Tells (b.observed stage) := rfl

/-- **Chaos can be followed**: the card, the count, the reshuffle and the new turn are
reported. -/
theorem Collapses.tells (h : b.Collapses step) (hsound : step.Keeps Running.Sound) :
    step.Tells (b.observed stage) := by
  cases h with
  | ended _ _ _ => exact Step.tells_after.mpr (Step.tells_gameOver _)
  | @goesOn drawn track next hdeal _ _ _ =>
    have hsize : drawn.deck.drawSize.toNat = drawn.deck.drawPile.length :=
      (Step.keeps_running.mp hsound).toNat_drawSize
    have hchaos : (b.observed stage).follow (chaosEvents drawn track) =
        (b.collapsed drawn.deck track).observed stage := by
      rw [chaosEvents, Observer.follow_append]
      exact congrArg (Observer.follow · [.policyEnacted drawn.cards .chaos track.liberal
        track.fascist]) (hdeal.follow hsize (b.observed stage))
    rw [Step.tells_after, hchaos]
    exact tells_opened _ next stage

theorem Fails.tells (h : b.Fails step) (hsound : step.Keeps Running.Sound) :
    step.Tells (b.observed stage) := by
  cases h with
  | @counted failed next _ _ _ => exact tells_opened _ next stage
  | collapsed _ _ hchaos => exact hchaos.tells hsound

/-- An enactment reports the policy, the counts and what comes of it. -/
theorem Enacts.tells {president : Seat} {p : Policy} (h : b.Enacts president p step) :
    step.Tells (b.observed stage) := by
  cases h with
  | ended _ _ => exact Step.tells_after.mpr (Step.tells_gameOver _)
  | @goesOn track next _ _ _ _ => exact Step.tells_after.mpr (tells_opened _ next stage)
  | @peeks track hand next _ _ _ _ _ => exact Step.tells_after.mpr (tells_opened _ next stage)
  | @waits track power pending _ _ _ hpending =>
    have hwaits (o : Observer) : o.watch (.powerActivated power president) =
        { o with stage := .powerPending pending president } := by
      simp only [Observer.watch, hpending]
    exact hwaits ((b.governed track).observed stage)

/-- A decided vote reports the government that is elected and the length of the pile it
draws from, or the failure. -/
theorem Resolves.tells {g : Government} {votes : Votes} {voters : Finset Seat}
    (h : b.Resolves g votes step) (hsound : step.Keeps Running.Sound) :
    step.Tells (b.observed (.voting g voters)) := by
  cases h with
  | hitlerElected _ _ => exact Step.tells_after.mpr (Step.tells_gameOver _)
  | @elected drawn _ _ hdeal =>
    have hsize : drawn.deck.drawSize.toNat = drawn.deck.drawPile.length :=
      (Step.keeps_running.mp hsound).toNat_drawSize
    exact hdeal.follow hsize (b.observed (.presidentChoice g drawn.cards))
  | rejected _ _ hfails => exact Step.tells_after.mpr (hfails.tells hsound)

end Board

/-- **Every move reports all that it changes.** -/
theorem Running.Moves.tells {g : Running} {a : Action} {step : Step} (h : g.Moves a step)
    (hg : g.Sound) : step.Tells g.observed := by
  have hsound := h.sound hg
  cases h with
  | nominate _ _ _ => rfl
  | @vote b government votes votes' seat voter ballot _ hcast _ =>
    have htold : Running.observed ⟨b, .voting government votes'⟩ =
        b.observed (.voting government (insert seat votes.ballots.keys.toFinset)) := by
      rw [observed, Phase.stage, Votes.keys_of_cast hcast]
    exact htold.symm
  | decide _ _ _ hresolves => exact Step.tells_after.mpr (hresolves.tells hsound)
  | discard _ _ => rfl
  | enact _ _ _ henacts => exact henacts.tells
  | requestVeto _ _ => rfl
  | refuseVeto _ => rfl
  | approveVeto _ hrep _ hfails =>
    cases hrep with
    | full _ => exact Step.tells_after.mpr (hfails.tells hsound)
    | shuffled hshort _ => exact absurd hg.board.stock (Nat.not_le.mpr hshort)
  | @investigate b president target next _ _ _ _ _ _ _ _ _ =>
    refine Step.tells_after.mpr ?_
    show Step.Tells _ (Observer.follow (b.observed _) [.playerInvestigated president target])
    rw [← Board.observed_investigate]
    exact Board.tells_opened _ next _
  | callElection _ _ _ => rfl
  | killHitler _ _ _ _ => rfl
  | @kill b president target next _ _ _ roles _ _ _ _ _ _ _ _ =>
    refine Step.tells_after.mpr ?_
    rw [observed, ← Board.observed_kill b target roles]
    exact Board.tells_opened _ next _

/-! ## The start -/

theorem Table.mem_keys_ofList {κ α : Type} [Ranked κ] {l : List (κ × α)} {k : κ} :
    k ∈ (ofList l).keys ↔ k ∈ l.map (·.1) := by
  have hfold : ∀ (l : List (κ × α)) (t : Table κ α),
      k ∈ (l.foldl (fun t e => t.insert e.1 e.2) t).keys ↔ k ∈ l.map (·.1) ∨ k ∈ t.keys := by
    intro l
    induction l with
    | nil => simp
    | cons e rest ih =>
      intro t
      rw [List.foldl_cons, ih, mem_keys_insert, List.map_cons, List.mem_cons]
      tauto
  rw [ofList, hfold, or_iff_left]
  exact List.not_mem_nil

/-- Names are seated from one upwards. -/
theorem Seating.toFinset_seats_of_ofNames {names : List String} {seating : Seating}
    (h : ofNames names = .ok seating) :
    seating.seats.toFinset = (Finset.range names.length).image fun i => ⟨.ofNat (i + 1)⟩ := by
  rw [ofNames, ofTable] at h
  dsimp only at h
  split at h
  · cases h
    have hplaces : names.zipIdx.map (·.2) = List.range names.length := by
      rw [List.zipIdx_map_snd, List.range_eq_range']
    ext seat
    rw [seats, List.mem_toFinset, Table.mem_keys_ofList, Finset.mem_image, List.map_map]
    simp only [Finset.mem_range, ← List.mem_range, ← hplaces, List.mem_map, Function.comp_apply,
      exists_exists_and_eq_and]
  · cases h

/-- **A start reports the table**: the observer of so many players knows the fresh
game. -/
theorem Lobby.tells_of_start {σ : Type} [RandomSource σ] {l : Lobby} {actor : String} {s t : σ}
    {step : Step} (h : l.start actor s = (.ok step, t)) :
    step.Tells (.start l.players.length) := by
  obtain ⟨c, seating, roles, deck, lot, _, hseating, _, ⟨_, hdeck⟩, _, rfl⟩ := exists_of_start h
  have hpile : deck.drawPile.length = liberalCards + fascistCards := by
    rw [hdeck, (Deck.standard_perm _).length_eq]
    rfl
  refine Step.tells_after.mpr ?_
  show _ = Running.observed _
  rw [Running.observed, Board.observed, Seating.toFinset_seats_of_ofNames hseating, hpile]
  rfl

/-! ## Runs -/

variable {σ : Type} [RandomSource σ] {r : Rules}

/-- **The log of a run**: the events of its accepted actions, in order. -/
def Game.log (g : Game) (actions : List Action) (s : σ) : List Event :=
  (g.answers actions s).flatMap fun
    | .ok step => step.events
    | .error _ => []

/-- An observer who has a sound game right keeps it right. -/
theorem Observer.Shows.log (hr : r.Valid) {g : Game} (hg : g.Sound r) {o : Observer}
    (ho : o.Shows g) (actions : List Action) (s : σ) :
    (o.follow (g.log actions s)).Shows (g.fed actions s) := by
  induction actions generalizing g o s with
  | nil => exact ho
  | cons a rest ih =>
    rw [Game.log, Game.answers, List.flatMap_cons, follow_append, Game.fed]
    obtain ⟨step, t, happly, hsound⟩ | ⟨cause, happly⟩ := hg.apply_cases hr a s
    · rw [happly]
      refine ih hsound ?_ t
      cases g with
      | lobby l => exact ho.elim
      | completed v => cases happly
      | running g =>
        obtain rfl : o = g.observed := ho
        exact (Running.moves_of_play (Game.play_of_apply happly)).tells hg
    · rw [happly]
      exact ih hg ho s

/-- **The event log determines the board.** Under a valid rule set, whoever follows the
log of a game from its start, knowing only how many joined, has it right after every
action: of a game under way the phase and who decides it, who has voted, the cards that
are held, the veto, the policies, who is alive, who was investigated, whose turn it is
and the length of the draw pile; of a finished one, how it was won. -/
theorem Rules.Valid.log_shows (hr : r.Valid) {l : Lobby} (hl : Game.Reachable r (.lobby l))
    {actor : String} {s t : σ} {step : Step}
    (hstart : Game.apply (.lobby l) (.start actor) s = (.ok step, t)) (actions : List Action) :
    ((Observer.start l.players.length).follow (step.events ++ step.game.log actions t)).Shows
      (step.game.fed actions t) := by
  have hplay : l.start actor s = (.ok step, t) := Game.play_of_apply hstart
  rw [Observer.follow_append]
  exact (Lobby.tells_of_start hplay).log hr ((hl.apply hstart).sound hr) actions t

/-- A government enacts a policy, somebody who may not act is refused, and the next
government is being voted on. -/
def watchedGame : List Action :=
  [[.nominate "a" "b"], Lobby.ofFive.ballots .yes, [.discard "a" 0, .enact "c" 0, .enact "b" 0],
    [.nominate "b" "c", .vote "a" .yes, .vote "e" .no]].flatten

/-- Who follows five players knows who has voted on the second government, and that
three cards have been drawn. -/
theorem Rules.Valid.log_shows_watched :
    Rules.standard.Valid ∧ ∃ step t,
      Game.apply (.lobby .ofFive) (.start "a") (Script.ofWords []) = (.ok step, t) ∧
      ((Observer.start 5).follow (step.events ++ step.game.log watchedGame t)).Shows
        (step.game.fed watchedGame t) ∧
      (Observer.start 5).follow (step.events ++ step.game.log watchedGame t) =
        ⟨.voting ⟨⟨2⟩, ⟨3⟩⟩ {⟨5⟩, ⟨1⟩}, {⟨1⟩, ⟨2⟩, ⟨3⟩, ⟨4⟩, ⟨5⟩}, ⟨0, 1⟩, ∅, some ⟨2⟩, 14⟩ := by
  have hr : Rules.standard.Valid := by decide
  have hfacts : (match Game.apply (.lobby .ofFive) (.start "a") (Script.ofWords []) with
      | (.ok step, t) => decide ((Observer.start 5).follow
          (step.events ++ step.game.log watchedGame t) =
            ⟨.voting ⟨⟨2⟩, ⟨3⟩⟩ {⟨5⟩, ⟨1⟩}, {⟨1⟩, ⟨2⟩, ⟨3⟩, ⟨4⟩, ⟨5⟩}, ⟨0, 1⟩, ∅, some ⟨2⟩, 14⟩)
      | (.error _, _) => false) = true := by
    decide +kernel
  rcases hstart : Game.apply (.lobby .ofFive) (.start "a") (Script.ofWords []) with
    ⟨cause | step, t⟩
  · rw [hstart] at hfacts
    cases hfacts
  · rw [hstart] at hfacts
    exact ⟨hr, step, t, rfl, hr.log_shows Lobby.reachable_ofFive hstart watchedGame,
      of_decide_eq_true hfacts⟩

end SecretHitler
