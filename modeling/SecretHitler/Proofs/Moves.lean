import SecretHitler.Play.Apply
import SecretHitler.Proofs.Deck
import SecretHitler.Proofs.Seats
/-!
# What a move does

Every accepted action of a game under way, written as a relation: who may take
it, what the board becomes and what is reported. The relations follow the
transitions from the inside out: the next turn, chaos (`Collapses`), a failed
government (`Fails`), an enactment (`Enacts`), a decided vote (`Resolves`), and
on top of them the move itself (`Moves`). `moves_of_play` reads a move off a
transition that has a value; an invariant is then one case a move, and no proof
opens a transition again.
-/

namespace SecretHitler

variable {σ : Type} [RandomSource σ]

/-- A step that ends the game, or goes on to one with a property. -/
def Step.Keeps (P : Running → Prop) (s : Step) : Prop :=
  match s.game with
  | .lobby _ => False
  | .running g => P g
  | .completed _ => True

namespace Step

variable {P : Running → Prop} {s : Step} {g : Running} {events : List Event}

@[simp] theorem keeps_after : (s.after events).Keeps P ↔ s.Keeps P := Iff.rfl

@[simp] theorem keeps_gameOver (v : Victory) : (gameOver v).Keeps P := trivial

@[simp] theorem keeps_running : Keeps P ⟨.running g, events⟩ ↔ P g := Iff.rfl

/-- What a step keeps may be weakened. -/
theorem Keeps.imp {Q : Running → Prop} (h : s.Keeps P) (hPQ : ∀ g, P g → Q g) : s.Keeps Q := by
  obtain ⟨game, events⟩ := s
  cases game with
  | lobby l => exact h
  | running g => exact hPQ g h
  | completed v => exact h

/-- What is kept one by one is kept together. -/
theorem Keeps.and {Q : Running → Prop} (hP : s.Keeps P) (hQ : s.Keeps Q) :
    s.Keeps fun g => P g ∧ Q g := by
  obtain ⟨game, events⟩ := s
  cases game with
  | lobby l => exact hP
  | running g => exact ⟨hP, hQ⟩
  | completed v => exact hP

/-- **A step leads to a game with the property, or to the end.** -/
theorem Keeps.cases (h : s.Keeps P) :
    (∃ g, s.game = .running g ∧ P g) ∨ ∃ v, s.game = .completed v := by
  rw [Keeps] at h
  cases hgame : s.game with
  | lobby l => rw [hgame] at h; cases h
  | running g => rw [hgame] at h; exact .inl ⟨g, rfl, h⟩
  | completed v => exact .inr ⟨v, rfl⟩

/-- The game that a step leads to has what the step keeps. -/
theorem Keeps.of_running (h : s.Keeps P) (hg : s.game = .running g) : P g := by
  rw [Keeps, hg] at h
  exact h

end Step

namespace Track

/-- A policy raises its own count. -/
theorem count_of_enact {t t' : Track} {p : Policy} (h : t.enact p = .ok t') :
    (t'.count p).toNat = (t.count p).toNat + 1 := by
  cases p with
  | liberal | fascist =>
    obtain ⟨n, hn, hret⟩ := Attempt.bind_eq_ok.mp h
    cases hret
    exact increment_eq_ok.mp hn

/-- And no other. -/
theorem count_of_enact_of_ne {t t' : Track} {p q : Policy} (h : t.enact p = .ok t')
    (hq : q ≠ p) : t'.count q = t.count q := by
  cases p with
  | liberal | fascist =>
    obtain ⟨n, hn, hret⟩ := Attempt.bind_eq_ok.mp h
    cases hret
    cases q with
    | liberal | fascist => first | rfl | exact absurd rfl hq

end Track

/-- Whoever has not voted yet may, and the ballot joins the others. -/
theorem Votes.cast_eq_ok {votes votes' : Votes} {s : Seat} {ballot : Ballot} :
    votes.cast s ballot = .ok votes' ↔
      votes.hasVoted s = false ∧ votes' = ⟨votes.ballots.insert s ballot⟩ := by
  rw [cast]
  split
  · rename_i hvoted
    simp [hvoted]
  · rename_i hfresh
    simp [hfresh, eq_comm]

namespace Board

/-- The turn has passed to a seat, whose nomination is open. -/
def opened (b : Board) (next : Seat) : Step :=
  beginElection { b with election := { b.election with ticker := next } } next false

/-- The board after a government's enactment. -/
def governed (b : Board) (track : Track) : Board :=
  { b with election := b.election.reset, track := track }

/-- The board after an enactment by chaos. -/
def collapsed (b : Board) (deck : Deck) (track : Track) : Board :=
  { b with deck := deck, track := track }

/-- What is reported of chaos, up to the policy that it enacts. -/
def chaosEvents (drawn : Drawn Policy) (track : Track) : List Event :=
  .countryInChaos drawn.cards :: reshuffleEvents drawn.deck drawn.reshuffled ++
    [.policyEnacted drawn.cards .chaos track.liberal track.fascist]

/-- The turn passes to whoever sits next to the ticker. -/
theorem nextElection_eq_ok {b : Board} {step : Step} :
    b.nextElection = .ok step ↔ ∃ next, b.seating.nextAfter b.election.ticker = .ok next ∧
      step = b.opened next := by
  simp only [nextElection, Election.advance, Attempt.bind_eq_ok]
  constructor
  · rintro ⟨_, ⟨next, hnext, hret⟩, hstep⟩
    cases hret
    cases hstep
    exact ⟨next, hnext, rfl⟩
  · rintro ⟨next, hnext, rfl⟩
    exact ⟨_, ⟨next, hnext, rfl⟩, rfl⟩

/-- **What chaos leads to**: the game ends, or the turn passes. -/
inductive Collapses (b : Board) : Step → Prop
  | ended {drawn : Drawn Policy} {track : Track} {v : Victory} :
      b.deck.Deals [drawn.cards] drawn.deck drawn.reshuffled →
      b.track.enact drawn.cards = .ok track →
      (b.collapsed drawn.deck track).goalReached drawn.cards = some v →
      Collapses b ((Step.gameOver v).after (chaosEvents drawn track))
  | goesOn {drawn : Drawn Policy} {track : Track} {next : Seat} :
      b.deck.Deals [drawn.cards] drawn.deck drawn.reshuffled →
      b.track.enact drawn.cards = .ok track →
      (b.collapsed drawn.deck track).goalReached drawn.cards = none →
      b.seating.nextAfter b.election.ticker = .ok next →
      Collapses b (((b.collapsed drawn.deck track).opened next).after (chaosEvents drawn track))

/-- **What a failed government leads to**: it is counted and the turn passes, or
chaos breaks out. -/
inductive Fails (b : Board) : Step → Prop
  | counted {failed : UInt32} {next : Seat} :
      increment b.election.tracker = .ok failed → failed < b.config.chaosThreshold →
      b.seating.nextAfter b.election.ticker = .ok next →
      Fails b (opened { b with election := { b.election with tracker := failed } } next)
  | collapsed {failed : UInt32} {step : Step} :
      increment b.election.tracker = .ok failed → b.config.chaosThreshold ≤ failed →
      Collapses { b with election := b.election.reset.unlimit } step → Fails b step

/-- **What a government's enactment leads to**: the game ends, the turn passes,
with or without a peek, or a power waits on the president. -/
inductive Enacts (b : Board) (president : Seat) (p : Policy) : Step → Prop
  | ended {track : Track} {v : Victory} :
      b.track.enact p = .ok track → (b.governed track).goalReached p = some v →
      Enacts b president p
        ((Step.gameOver v).after [.policyEnacted p .government track.liberal track.fascist])
  | goesOn {track : Track} {next : Seat} :
      b.track.enact p = .ok track → (b.governed track).goalReached p = none →
      (b.governed track).unlocked p = none →
      b.seating.nextAfter b.election.ticker = .ok next →
      Enacts b president p (((b.governed track).opened next).after
        [.policyEnacted p .government track.liberal track.fascist])
  | peeks {track : Track} {hand : Hand} {next : Seat} :
      b.track.enact p = .ok track → (b.governed track).goalReached p = none →
      (b.governed track).unlocked p = some .policyPeek → b.deck.peek = .ok hand →
      b.seating.nextAfter b.election.ticker = .ok next →
      Enacts b president p (((b.governed track).opened next).after
        [.policyEnacted p .government track.liberal track.fascist,
          .powerActivated .policyPeek president, .policyPeek president hand])
  | waits {track : Track} {power : Power} {pending : PendingPower} :
      b.track.enact p = .ok track → (b.governed track).goalReached p = none →
      (b.governed track).unlocked p = some power → power.pending = some pending →
      Enacts b president p ⟨.running ⟨b.governed track, .powerPending pending president⟩,
        [.policyEnacted p .government track.liberal track.fascist, .powerActivated power president]⟩

/-- **What a decided vote leads to**: Hitler is elected, the government draws
its hand, or it has failed. -/
inductive Resolves (b : Board) (g : Government) (votes : Votes) : Step → Prop
  | hitlerElected : votes.elects = true → b.hitlerElected g = .ok true →
      Resolves b g votes
        ((Step.gameOver .hitlerElected).after [.governmentElected g votes.ballots])
  | elected {drawn : Drawn Hand} : votes.elects = true → b.hitlerElected g = .ok false →
      b.deck.Deals drawn.cards.toList drawn.deck drawn.reshuffled →
      Resolves b g votes ⟨.running ⟨{ b with election := b.election.limit g, deck := drawn.deck },
          .presidentChoice g drawn.cards⟩,
        .governmentElected g votes.ballots :: .policiesDrawn g.president drawn.cards ::
          reshuffleEvents drawn.deck drawn.reshuffled⟩
  | rejected {failed : UInt32} {step : Step} : votes.elects = false →
      increment b.election.tracker = .ok failed → Fails b step →
      Resolves b g votes (step.after [.governmentRejected g votes.ballots failed])

/-! ## The transitions, read as relations -/

/-- Chaos draws one card and enacts it. -/
theorem collapses_of_countryInChaos {b : Board} {s t : σ} {step : Step}
    (h : b.countryInChaos s = (.ok step, t)) : b.Collapses step := by
  simp only [countryInChaos, enactedEvent, enactByChaos, Draws.bind_eq_ok, Draws.lift_apply,
    Prod.mk.injEq, Attempt.bind_eq_ok] at h
  obtain ⟨drawn, _, hdraw, report, _, ⟨⟨track, hrise, hreport⟩, -⟩, enacted, _,
    ⟨⟨track', hrise', henacted⟩, -⟩, last, _, ⟨hlast, -⟩, hret⟩ := h
  have hcard := Deck.drawSingle_deals hdraw
  -- the track is raised once for the report and once for the board
  obtain rfl : track = track' := Except.ok.inj (hrise.symm.trans hrise')
  cases hreport
  cases hret
  split at henacted
  · rename_i v hgoal
    cases henacted
    cases hlast
    exact .ended hcard hrise hgoal
  · rename_i hgoal
    cases henacted
    obtain ⟨next, hnext, rfl⟩ := nextElection_eq_ok.mp hlast
    exact .goesOn hcard hrise hgoal hnext

/-- A failed government is counted, or it is one too many. -/
theorem fails_of_afterFailedGovernment {b : Board} {s t : σ} {step : Step}
    (h : b.afterFailedGovernment s = (.ok step, t)) : b.Fails step := by
  simp only [afterFailedGovernment, Election.fail, Draws.bind_eq_ok, Draws.lift_apply,
    Prod.mk.injEq, Attempt.bind_eq_ok] at h
  obtain ⟨outcome, u, ⟨⟨failed, hfailed, houtcome⟩, rfl⟩, h⟩ := h
  split at houtcome
  · rename_i hreached
    cases houtcome
    exact .collapsed hfailed hreached (collapses_of_countryInChaos h)
  · rename_i hbelow
    cases houtcome
    obtain ⟨next, hnext, rfl⟩ := nextElection_eq_ok.mp (Prod.mk.inj h).1
    exact .counted hfailed (UInt32.not_le.mp hbelow) hnext

/-- An enactment ends the game, hands the president a power or passes the turn. -/
theorem enacts_of_enactByGovernment {b : Board} {president : Seat} {p : Policy} {step : Step}
    (h : b.enactByGovernment president p = .ok step) : b.Enacts president p step := by
  simp only [enactByGovernment, enactedEvent, enactByVote, Attempt.bind_eq_ok] at h
  obtain ⟨report, ⟨track, hrise, hreport⟩, enacted, ⟨track', hrise', henacted⟩, h⟩ := h
  obtain rfl : track = track' := Except.ok.inj (hrise.symm.trans hrise')
  cases hreport
  split at henacted
  · rename_i v hgoal
    cases henacted
    cases h
    exact .ended hrise hgoal
  rename_i hgoal
  split at henacted
  · rename_i power hpower
    cases henacted
    obtain ⟨last, hlast, hret⟩ := Attempt.bind_eq_ok.mp h
    cases hret
    rw [activatePower] at hlast
    split at hlast
    · rename_i pending hpending
      cases hlast
      exact .waits hrise hgoal hpower hpending
    · rename_i hpeek
      -- the one power that waits for nothing
      obtain rfl : power = .policyPeek := by
        cases power with
        | policyPeek => rfl
        | investigateParty | specialElection | execution => cases hpeek
      obtain ⟨hand, hhand, hlast⟩ := Attempt.bind_eq_ok.mp hlast
      obtain ⟨step, hstep, hret⟩ := Attempt.bind_eq_ok.mp hlast
      obtain ⟨next, hnext, rfl⟩ := nextElection_eq_ok.mp hstep
      cases hret
      exact .peeks hrise hgoal hpower hhand hnext
  · rename_i hlocked
    cases henacted
    obtain ⟨last, hlast, hret⟩ := Attempt.bind_eq_ok.mp h
    obtain ⟨next, hnext, rfl⟩ := nextElection_eq_ok.mp hlast
    cases hret
    exact .goesOn hrise hgoal hlocked hnext

/-- A vote that is complete elects or rejects. -/
theorem resolves_of_resolveVote {b : Board} {g : Government} {votes : Votes} {s t : σ}
    {step : Step} (h : b.resolveVote g votes s = (.ok step, t)) : b.Resolves g votes step := by
  rw [resolveVote] at h
  split at h
  · rename_i helects
    obtain ⟨last, u, hlast, hret⟩ := Draws.bind_eq_ok.mp h
    cases hret
    obtain ⟨hitler, u, hhitler, hlast⟩ := Draws.bind_eq_ok.mp hlast
    cases hitler with
    | true =>
      cases hlast
      exact .hitlerElected helects (Prod.mk.inj hhitler).1
    | false =>
      obtain ⟨drawn, v, hdraw, hret⟩ := Draws.bind_eq_ok.mp hlast
      cases hret
      exact .elected helects (Prod.mk.inj hhitler).1 (Deck.drawHand_deals hdraw)
  · rename_i hrejects
    obtain ⟨failed, u, hfailed, h⟩ := Draws.bind_eq_ok.mp h
    obtain ⟨last, v, hlast, hret⟩ := Draws.bind_eq_ok.mp h
    cases hret
    exact .rejected (Bool.not_eq_true _ ▸ hrejects) (Prod.mk.inj hfailed).1
      (fails_of_afterFailedGovernment hlast)

end Board

/-! ## The move -/

/-- **A move**: an action of the player whose decision is awaited, and what
comes of it. -/
inductive Running.Moves : Running → Action → Step → Prop
  | nominate {b : Board} {candidate chancellor : Seat} {actor nominee : String} :
      b.seating.seatOf? actor = some candidate → b.seating.seatOf? nominee = some chancellor →
      chancellor ∈ b.eligible candidate →
      Moves ⟨b, .nomination candidate⟩ (.nominate actor nominee)
        ⟨.running ⟨b, .voting ⟨candidate, chancellor⟩ .none⟩,
          [.chancellorNominated ⟨candidate, chancellor⟩]⟩
  | vote {b : Board} {g : Government} {votes votes' : Votes} {seat : Seat} {voter : String}
      {ballot : Ballot} :
      b.seating.seatOf? voter = some seat → votes.cast seat ballot = .ok votes' →
      votes'.isComplete b.seating = false →
      Moves ⟨b, .voting g votes⟩ (.vote voter ballot)
        ⟨.running ⟨b, .voting g votes'⟩, [.voteCast seat]⟩
  | decide {b : Board} {g : Government} {votes votes' : Votes} {seat : Seat} {voter : String}
      {ballot : Ballot} {step : Step} :
      b.seating.seatOf? voter = some seat → votes.cast seat ballot = .ok votes' →
      votes'.isComplete b.seating = true → b.Resolves g votes' step →
      Moves ⟨b, .voting g votes⟩ (.vote voter ballot) (step.after [.voteCast seat])
  | discard {b : Board} {g : Government} {hand : Hand} {agenda : Agenda} {card : Policy}
      {actor : String} {index : UInt64} :
      b.seating.seatOf? actor = some g.president → hand.take index.toNat = some (card, agenda) →
      Moves ⟨b, .presidentChoice g hand⟩ (.discard actor index)
        ⟨.running ⟨{ b with deck := b.deck.discard card }, .chancellorChoice g agenda .notRequested⟩,
          [.policiesPassed g.chancellor agenda]⟩
  | enact {b : Board} {g : Government} {agenda : Agenda} {veto : VetoStatus} {card other : Policy}
      {actor : String} {index : UInt64} {step : Step} :
      b.seating.seatOf? actor = some g.chancellor → veto ≠ .requested →
      agenda.take index.toNat = some (card, other) →
      Board.Enacts { b with deck := b.deck.discard other } g.president card step →
      Moves ⟨b, .chancellorChoice g agenda veto⟩ (.enact actor index) step
  | requestVeto {b : Board} {g : Government} {agenda : Agenda} {actor : String} :
      b.seating.seatOf? actor = some g.chancellor → b.config.vetoUnlocked b.track.fascist = true →
      Moves ⟨b, .chancellorChoice g agenda .notRequested⟩ (.requestVeto actor)
        ⟨.running ⟨b, .chancellorChoice g agenda .requested⟩, [.vetoRequested g]⟩
  | refuseVeto {b : Board} {g : Government} {agenda : Agenda} {actor : String} :
      b.seating.seatOf? actor = some g.president →
      Moves ⟨b, .chancellorChoice g agenda .requested⟩ (.answerVeto actor false)
        ⟨.running ⟨b, .chancellorChoice g agenda .rejected⟩, [.vetoRejected g]⟩
  | approveVeto {b : Board} {g : Government} {agenda : Agenda} {actor : String} {deck : Deck}
      {reshuffled : Bool} {failed : UInt32} {step : Step} :
      b.seating.seatOf? actor = some g.president →
      (b.deck.discardAll agenda.toList).Replenished deck reshuffled →
      increment b.election.tracker = .ok failed → Board.Fails { b with deck := deck } step →
      Moves ⟨b, .chancellorChoice g agenda .requested⟩ (.answerVeto actor true)
        (step.after (.vetoApproved g failed :: Board.reshuffleEvents deck reshuffled))
  | investigate {b : Board} {president target next : Seat} {actor name : String} {party : Party} :
      b.seating.seatOf? actor = some president → b.seating.seatOf? name = some target →
      target ≠ president → b.investigated.contains target = false →
      b.roles.partyOf target = .ok party → b.seating.nextAfter b.election.ticker = .ok next →
      Moves ⟨b, .powerPending .investigateParty president⟩ (.usePower .investigateParty actor name)
        ((Board.opened { b with investigated := b.investigated.insert target () } next).after
          [.playerInvestigated president target, .partyRevealed president target party])
  | callElection {b : Board} {president target : Seat} {actor name : String} :
      b.seating.seatOf? actor = some president → b.seating.seatOf? name = some target →
      target ≠ president →
      Moves ⟨b, .powerPending .specialElection president⟩ (.usePower .specialElection actor name)
        (b.callElection president target)
  | killHitler {b : Board} {president target : Seat} {actor name : String} :
      b.seating.seatOf? actor = some president → b.seating.seatOf? name = some target →
      target ≠ president → b.roles.roleOf target = .ok .hitler →
      Moves ⟨b, .powerPending .execution president⟩ (.usePower .execution actor name)
        ((Step.gameOver .hitlerKilled).after [.playerExecuted target])
  | kill {b : Board} {president target next : Seat} {actor name : String} {role : Role}
      {roles : RoleMap} :
      b.seating.seatOf? actor = some president → b.seating.seatOf? name = some target →
      target ≠ president → b.roles.roleOf target = .ok role → role ≠ .hitler →
      b.roles.without target = .ok roles → roles.seats = (b.seating.without target).seats →
      (b.seating.without target).nextAfter b.election.ticker = .ok next →
      Moves ⟨b, .powerPending .execution president⟩ (.usePower .execution actor name)
        ((Board.opened { b with seating := b.seating.without target, roles := roles } next).after
          [.playerExecuted target])

namespace Board

variable {b : Board} {step : Step}

theorem moves_of_nominate {candidate : Seat} {actor nominee : String}
    (h : b.nominate candidate actor nominee = .ok step) :
    Running.Moves ⟨b, .nomination candidate⟩ (.nominate actor nominee) step := by
  obtain ⟨president, hactor, hrest⟩ := Attempt.bind_eq_ok.mp h
  obtain ⟨hasks, rfl⟩ := Seating.authorize_eq_ok.mp hactor
  obtain ⟨chancellor, hnominee, hend⟩ := Attempt.bind_eq_ok.mp hrest
  split at hend
  · rename_i heligible
    cases hend
    exact .nominate hasks (Seating.target_eq_ok.mp hnominee) (by simpa using heligible)
  · cases hend

/-- A vote is waited for, or the last one decides. -/
theorem moves_of_castVote {g : Government} {votes : Votes} {voter : String} {ballot : Ballot}
    {s t : σ} (h : b.castVote g votes voter ballot s = (.ok step, t)) :
    Running.Moves ⟨b, .voting g votes⟩ (.vote voter ballot) step := by
  obtain ⟨seat, _, hvoter, hrest⟩ := Draws.bind_eq_ok.mp h
  obtain ⟨votes', _, hlift, hend⟩ := Draws.bind_eq_ok.mp hrest
  have hasks := Attempt.orReject_eq_ok.mp (Prod.mk.inj hvoter).1
  have hcast : votes.cast seat ballot = .ok votes' := (Prod.mk.inj hlift).1
  split at hend
  · rename_i hcomplete
    obtain ⟨last, _, hlast, hret⟩ := Draws.bind_eq_ok.mp hend
    cases hret
    exact .decide hasks hcast hcomplete (resolves_of_resolveVote hlast)
  · rename_i hopen
    cases hend
    exact .vote hasks hcast (Bool.not_eq_true _ ▸ hopen)

/-- Of the three cards one goes to the deck and two to the chancellor. -/
theorem moves_of_presidentDiscard {g : Government} {hand : Hand} {actor : String}
    {index : UInt64} (h : b.presidentDiscard g hand actor index = .ok step) :
    Running.Moves ⟨b, .presidentChoice g hand⟩ (.discard actor index) step := by
  obtain ⟨president, hactor, hrest⟩ := Attempt.bind_eq_ok.mp h
  obtain ⟨⟨card, agenda⟩, htake, hret⟩ := Attempt.bind_eq_ok.mp hrest
  cases hret
  exact .discard (Seating.authorize_eq_ok.mp hactor).1 (Attempt.orReject_eq_ok.mp htake)

/-- Of the two cards one goes to the deck and one is enacted. -/
theorem moves_of_chancellorEnact {g : Government} {agenda : Agenda} {veto : VetoStatus}
    {actor : String} {index : UInt64} (h : b.chancellorEnact g agenda veto actor index = .ok step) :
    Running.Moves ⟨b, .chancellorChoice g agenda veto⟩ (.enact actor index) step := by
  obtain ⟨chancellor, hactor, hrest⟩ := Attempt.bind_eq_ok.mp h
  split at hrest
  · cases hrest
  · rename_i hveto
    obtain ⟨⟨card, other⟩, htake, hend⟩ := Attempt.bind_eq_ok.mp hrest
    exact .enact (Seating.authorize_eq_ok.mp hactor).1 hveto (Attempt.orReject_eq_ok.mp htake)
      (enacts_of_enactByGovernment hend)

theorem moves_of_requestVeto {g : Government} {agenda : Agenda} {veto : VetoStatus}
    {actor : String} (h : b.requestVeto g agenda veto actor = .ok step) :
    Running.Moves ⟨b, .chancellorChoice g agenda veto⟩ (.requestVeto actor) step := by
  obtain ⟨chancellor, hactor, hrest⟩ := Attempt.bind_eq_ok.mp h
  cases veto with
  | requested | rejected => cases hrest
  | notRequested =>
    -- only a veto that nobody has asked for is left
    simp only at hrest
    split at hrest
    · rename_i hunlocked
      cases hrest
      exact .requestVeto (Seating.authorize_eq_ok.mp hactor).1 hunlocked
    · cases hrest

/-- A veto that is refused leaves the choice; an approved one fails the government. -/
theorem moves_of_answerVeto {g : Government} {agenda : Agenda} {veto : VetoStatus}
    {actor : String} {approved : Bool} {s t : σ}
    (h : b.answerVeto g agenda veto actor approved s = (.ok step, t)) :
    Running.Moves ⟨b, .chancellorChoice g agenda veto⟩ (.answerVeto actor approved) step := by
  obtain ⟨president, _, hactor, hrest⟩ := Draws.bind_eq_ok.mp h
  have hasks := (Seating.authorize_eq_ok.mp (Prod.mk.inj hactor).1).1
  split at hrest
  · cases hrest
  rename_i hveto
  obtain rfl : veto = .requested := not_not.mp hveto
  cases approved with
  | false =>
    cases hrest
    exact .refuseVeto hasks
  | true =>
    obtain ⟨⟨deck, reshuffled⟩, _, hdeck, hrest⟩ := Draws.bind_eq_ok.mp hrest
    obtain ⟨failed, _, hfailed, hend⟩ := Draws.bind_eq_ok.mp hrest
    obtain ⟨last, _, hlast, hret⟩ := Draws.bind_eq_ok.mp hend
    cases hret
    exact .approveVeto hasks (Deck.replenished_of_draw hdeck) (Prod.mk.inj hfailed).1
      (fails_of_afterFailedGovernment hlast)

/-- Each power is a move, and to kill Hitler is another than to kill somebody else. -/
theorem moves_of_usePower {pending power : PendingPower} {president : Seat} {actor name : String}
    (h : b.usePower pending president power actor name = .ok step) :
    Running.Moves ⟨b, .powerPending pending president⟩ (.usePower power actor name) step := by
  rw [usePower] at h
  split at h
  · cases h
  rename_i hpower
  obtain rfl : power = pending := not_not.mp hpower
  obtain ⟨owner, hactor, hrest⟩ := Attempt.bind_eq_ok.mp h
  obtain ⟨hasks, rfl⟩ := Seating.authorize_eq_ok.mp hactor
  obtain ⟨target, htarget, hend⟩ := Attempt.bind_eq_ok.mp hrest
  have hname := Seating.target_eq_ok.mp htarget
  split at hend
  · cases hend
  rename_i hother
  cases power with
  | investigateParty =>
    simp only [investigate] at hend
    split at hend
    · cases hend
    rename_i hfresh
    obtain ⟨party, hparty, hturn⟩ := Attempt.bind_eq_ok.mp hend
    obtain ⟨last, hlast, hret⟩ := Attempt.bind_eq_ok.mp hturn
    obtain ⟨next, hnext, rfl⟩ := nextElection_eq_ok.mp hlast
    cases hret
    exact .investigate hasks hname hother (Bool.not_eq_true _ ▸ hfresh) hparty hnext
  | specialElection =>
    cases hend
    exact .callElection hasks hname hother
  | execution =>
    obtain ⟨role, hrole, hkill⟩ := Attempt.bind_eq_ok.mp hend
    split at hkill
    · rename_i hhitler
      cases hkill
      exact .killHitler hasks hname hother (hhitler ▸ hrole)
    rename_i hhitler
    obtain ⟨roles, hroles, hseats⟩ := Attempt.bind_eq_ok.mp hkill
    obtain ⟨_, hmatch, hturn⟩ := Attempt.bind_eq_ok.mp hseats
    obtain ⟨last, hlast, hret⟩ := Attempt.bind_eq_ok.mp hturn
    obtain ⟨next, hnext, rfl⟩ := nextElection_eq_ok.mp hlast
    cases hret
    rw [assertRolesMatch] at hmatch
    split at hmatch
    · rename_i hseats
      exact .kill hasks hname hother hrole hhitler hroles hseats hnext
    · cases hmatch

end Board

/-- **What has a value is a move.** -/
theorem Running.moves_of_play {g : Running} {a : Action} {s t : σ} {step : Step}
    (h : g.play a s = (.ok step, t)) : g.Moves a step := by
  obtain ⟨b, phase⟩ := g
  cases phase with
  | nomination candidate =>
    cases a with
    | nominate actor nominee => exact Board.moves_of_nominate (Prod.mk.inj h).1
    | _ => cases h
  | voting government votes =>
    cases a with
    | vote voter ballot => exact Board.moves_of_castVote h
    | _ => cases h
  | presidentChoice government hand =>
    cases a with
    | discard actor index => exact Board.moves_of_presidentDiscard (Prod.mk.inj h).1
    | _ => cases h
  | chancellorChoice government agenda veto =>
    cases a with
    | enact actor index => exact Board.moves_of_chancellorEnact (Prod.mk.inj h).1
    | requestVeto actor => exact Board.moves_of_requestVeto (Prod.mk.inj h).1
    | answerVeto actor approved => exact Board.moves_of_answerVeto h
    | _ => cases h
  | powerPending power president =>
    cases a with
    | usePower power' actor name => exact Board.moves_of_usePower (Prod.mk.inj h).1
    | _ => cases h

/-! ## What is left as it was -/

namespace Board

variable {b : Board} {step : Step}

/-- A board of the same players under the same configuration. -/
def SameTable (b b' : Board) : Prop := b'.config = b.config ∧ b'.seating = b.seating

/-- Chaos kills nobody, and the configuration stays. -/
theorem Collapses.sameTable (h : b.Collapses step) : step.Keeps fun g => b.SameTable g.board := by
  cases h with
  | ended _ _ _ => exact trivial
  | goesOn _ _ _ _ => exact ⟨rfl, rfl⟩

theorem Fails.sameTable (h : b.Fails step) : step.Keeps fun g => b.SameTable g.board := by
  cases h with
  | counted _ _ _ => exact ⟨rfl, rfl⟩
  | collapsed _ _ hchaos => exact hchaos.sameTable

theorem Enacts.sameTable {president : Seat} {p : Policy} (h : b.Enacts president p step) :
    step.Keeps fun g => b.SameTable g.board := by
  cases h with
  | ended _ _ => exact trivial
  | goesOn _ _ _ _ | peeks _ _ _ _ _ | waits _ _ _ _ => exact ⟨rfl, rfl⟩

/-- Nor does a vote, whatever it comes to. -/
theorem Resolves.sameTable {g : Government} {votes : Votes} (h : b.Resolves g votes step) :
    step.Keeps fun g => b.SameTable g.board := by
  cases h with
  | hitlerElected _ _ => exact trivial
  | elected _ _ _ => exact ⟨rfl, rfl⟩
  | rejected _ _ hfails => exact hfails.sameTable

end Board

/-- **Only killing changes who plays**, and nothing the configuration. -/
theorem Running.Moves.table {g : Running} {a : Action} {step : Step} (h : g.Moves a step) :
    step.Keeps fun g' => g'.board.config = g.board.config ∧ g'.board.living ≤ g.board.living := by
  have same {b : Board} {step : Step} (hsame : step.Keeps fun g => b.SameTable g.board) :
      step.Keeps fun g => g.board.config = b.config ∧ g.board.living ≤ b.living :=
    hsame.imp fun g' ⟨hconfig, hseating⟩ =>
      ⟨hconfig, Nat.le_of_eq (congrArg Seating.size hseating)⟩
  cases h with
  | decide _ _ _ hresolves => exact same hresolves.sameTable
  | enact _ _ _ henacts => exact same henacts.sameTable
  | approveVeto _ _ _ hfails => exact same hfails.sameTable
  | killHitler _ _ _ _ => exact trivial
  | kill _ _ _ _ _ _ _ _ => exact ⟨rfl, List.length_filter_le ..⟩
  | _ => exact ⟨rfl, Nat.le_refl _⟩

end SecretHitler
