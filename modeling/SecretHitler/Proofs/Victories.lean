import SecretHitler.Proofs.Runs
/-!
# How games are won

The four ways to win, read off a game and an action before anything happens
(`Running.Wins`): a policy that reaches its goal, whoever enacts it, the
election of Hitler, and Hitler's death. In a sound game an accepted action ends
the game exactly when it is one of them (`Moves.completed_iff`), so no game
goes on past its end and none ends early. Chaos is where this is easiest to
miss: it enacts a policy in the middle of a vote or of a veto, and the goals
are checked there too.
-/

namespace SecretHitler

/-- The victory that a policy at its goal brings. -/
def Policy.victory : Policy → Victory
  | .liberal => .liberalPolicyGoal
  | .fascist => .fascistPolicyGoal

/-- The government in office while policies are chosen. -/
def Phase.sitting : Phase → Option Government
  | .presidentChoice government _ => some government
  | .chancellorChoice government _ _ => some government
  | _ => none

namespace Board

/-- One more policy of a kind reaches its goal. -/
def Nears (b : Board) (p : Policy) : Prop :=
  (b.track.count p).toNat + 1 = (b.config.goal p).toNat

/-- The policy that chaos enacts if one more government fails. -/
def Braces (b : Board) (p : Policy) : Prop :=
  b.config.chaosThreshold.toNat ≤ b.election.tracker.toNat + 1 ∧ b.deck.drawPile.head? = some p

end Board

namespace Running

/-- **The last outstanding ballot**, and the vote once it is in. -/
inductive Closes : Running → Action → Government → Votes → Prop
  | vote {b : Board} {government : Government} {votes : Votes} {seat : Seat} {voter : String}
      {ballot : Ballot} :
      b.seating.seatOf? voter = some seat →
      Votes.isComplete ⟨votes.ballots.insert seat ballot⟩ b.seating = true →
      Closes ⟨b, .voting government votes⟩ (.vote voter ballot) government
        ⟨votes.ballots.insert seat ballot⟩

/-- **A government fails**: the last ballot leaves it without a majority, or the
president agrees to a veto. -/
inductive Topples : Running → Action → Prop
  | rejected {g : Running} {a : Action} {government : Government} {votes : Votes} :
      g.Closes a government votes → votes.count .yes ≤ votes.count .no → Topples g a
  | vetoed {b : Board} {government : Government} {agenda : Agenda} {actor : String} :
      Topples ⟨b, .chancellorChoice government agenda .requested⟩ (.answerVeto actor true)

/-- **The policy that an action puts on the track**: the chancellor's choice, or
the top card when a failed government brings chaos. -/
inductive Puts : Running → Action → Policy → Prop
  | byChancellor {b : Board} {government : Government} {agenda : Agenda} {veto : VetoStatus}
      {actor : String} {index : UInt64} {card other : Policy} :
      agenda.take index.toNat = some (card, other) →
      Puts ⟨b, .chancellorChoice government agenda veto⟩ (.enact actor index) card
  | byChaos {g : Running} {a : Action} {card : Policy} :
      g.Topples a → g.board.Braces card → Puts g a card

/-- **The ways to win.** -/
inductive Wins : Running → Action → Victory → Prop
  | goal {g : Running} {a : Action} {p : Policy} :
      g.Puts a p → g.board.Nears p → Wins g a p.victory
  | hitlerElected {g : Running} {a : Action} {government : Government} {votes : Votes}
      {threshold : UInt32} :
      g.Closes a government votes → votes.count .no < votes.count .yes →
      g.board.config.hitlerThreshold = some threshold → threshold ≤ g.board.track.fascist →
      g.board.roles.roleOf government.chancellor = .ok .hitler → Wins g a .hitlerElected
  | hitlerKilled {b : Board} {president target : Seat} {actor name : String} :
      b.seating.seatOf? name = some target → b.roles.roleOf target = .ok .hitler →
      Wins ⟨b, .powerPending .execution president⟩ (.usePower .execution actor name) .hitlerKilled

end Running

theorem Policy.victory_ne_hitlerElected (p : Policy) : p.victory ≠ .hitlerElected := by
  cases p <;> exact nofun

theorem Configuration.hitlerWins_iff {c : Configuration} {fascist : UInt32} :
    c.hitlerWins fascist = true ↔ ∃ threshold, c.hitlerThreshold = some threshold ∧
      threshold ≤ fascist := by
  rw [hitlerWins]
  cases c.hitlerThreshold with
  | none => simp
  | some threshold => simp

/-- The same vote is closed by the same ballot. -/
theorem Running.closes_vote_iff {b : Board} {government government' : Government}
    {votes votes' : Votes} {seat : Seat} {voter : String} {ballot : Ballot}
    (hasks : b.seating.seatOf? voter = some seat) :
    Running.Closes ⟨b, .voting government votes⟩ (.vote voter ballot) government' votes' ↔
      government' = government ∧ votes' = ⟨votes.ballots.insert seat ballot⟩ ∧
        votes'.isComplete b.seating = true := by
  constructor
  · intro h
    cases h with
    | vote hasks' hcomplete =>
      obtain rfl := Option.some.inj (hasks.symm.trans hasks')
      exact ⟨rfl, rfl, hcomplete⟩
  · rintro ⟨rfl, rfl, hcomplete⟩
    exact .vote hasks hcomplete

@[simp] theorem Step.game_after (events : List Event) (s : Step) :
    (s.after events).game = s.game := rfl

namespace Board

variable {b : Board} {p : Policy} {v : Victory} {step : Step}

/-- **A raised count wins exactly when it was one short of its goal.** -/
theorem goalReached_eq_some_iff (b' : Board) (hbelow : b.track.count p < b.config.goal p)
    (hconfig : b'.config = b.config) (hrise : b.track.enact p = .ok b'.track) :
    b'.goalReached p = some v ↔ b.Nears p ∧ v = p.victory := by
  have hcount := Track.count_of_enact hrise
  have hreached : b.Nears p ↔ b'.config.goal p ≤ b'.track.count p := by
    rw [UInt32.lt_iff_toNat_lt] at hbelow
    rw [Nears, UInt32.le_iff_toNat_le, hconfig]
    omega
  rw [hreached]
  cases p with
  | liberal | fascist =>
    simp only [goalReached, Configuration.goal, Track.count, Policy.victory,
      Option.ite_none_right_eq_some, Option.some.injEq, eq_comm (a := v)]

/-- Chaos ends a game exactly if the top card is one short of its goal. -/
theorem Collapses.completed_iff (h : b.Collapses step) (hb : b.Sound) :
    step.game = .completed v ↔
      ∃ p, b.deck.drawPile.head? = some p ∧ b.Nears p ∧ v = p.victory := by
  cases h with
  | @ended drawn track v' hdeal hrise hgoal =>
    obtain ⟨rest, hpile, -⟩ := hdeal
    obtain ⟨hnears, rfl⟩ := (goalReached_eq_some_iff (b.collapsed drawn.deck track)
      (hb.below _) rfl hrise).mp hgoal
    constructor
    · intro hover
      cases hover
      exact ⟨drawn.cards, by rw [hpile]; rfl, hnears, rfl⟩
    · rintro ⟨p, hp, -, rfl⟩
      rw [hpile] at hp
      cases hp
      rfl
  | @goesOn drawn track next hdeal hrise hgoal hnext =>
    obtain ⟨rest, hpile, -⟩ := hdeal
    constructor
    · intro hover
      cases hover
    · rintro ⟨p, hp, hnears⟩
      rw [hpile] at hp
      cases hp
      have hwins := (goalReached_eq_some_iff (b.collapsed drawn.deck track)
        (hb.below _) rfl hrise).mpr hnears
      rw [hgoal] at hwins
      cases hwins

/-- **A failed government ends the game exactly by chaos** and its card. -/
theorem Fails.completed_iff (h : b.Fails step) (hb : b.Sound) :
    step.game = .completed v ↔ ∃ p, b.Braces p ∧ b.Nears p ∧ v = p.victory := by
  cases h with
  | @counted failed next hfailed hbelow hnext =>
    constructor
    · intro hover
      cases hover
    · rintro ⟨p, ⟨hreached, -⟩, -⟩
      rw [increment_eq_ok] at hfailed
      rw [UInt32.lt_iff_toNat_lt] at hbelow
      omega
  | @collapsed failed step hfailed hreached hchaos =>
    have hsound : Sound { b with election := b.election.reset.unlimit } :=
      { hb with patient := hb.playable.chaos_pos }
    rw [hchaos.completed_iff hsound]
    rw [increment_eq_ok] at hfailed
    rw [UInt32.le_iff_toNat_le, hfailed] at hreached
    -- the count of failed governments is no part of what the card does
    exact exists_congr fun p => ⟨fun ⟨hp, hnears⟩ => ⟨⟨hreached, hp⟩, hnears⟩,
      fun ⟨⟨_, hp⟩, hnears⟩ => ⟨hp, hnears⟩⟩

/-- An enactment ends it exactly if the policy is. -/
theorem Enacts.completed_iff {president : Seat} (h : b.Enacts president p step) (hb : b.Sound) :
    step.game = .completed v ↔ b.Nears p ∧ v = p.victory := by
  have hgoal {track : Track} (hrise : b.track.enact p = .ok track) :
      (b.governed track).goalReached p = some v ↔ b.Nears p ∧ v = p.victory :=
    goalReached_eq_some_iff _ (hb.below p) rfl hrise
  have goesOn {track : Track} {g : Running} (hrise : b.track.enact p = .ok track)
      (hnone : (b.governed track).goalReached p = none) :
      Game.running g = .completed v ↔ b.Nears p ∧ v = p.victory := by
    rw [← hgoal hrise, hnone]
    exact iff_of_false nofun nofun
  cases h with
  | ended hrise hwins =>
    rw [← hgoal hrise, hwins, Option.some.injEq]
    exact ⟨fun h => Game.completed.inj h, fun h => congrArg Game.completed h⟩
  | goesOn hrise hnone _ _ => exact goesOn hrise hnone
  | peeks hrise hnone _ _ _ => exact goesOn hrise hnone
  | waits hrise hnone _ _ => exact goesOn hrise hnone

/-- An elected chancellor wins as Hitler, once there are enough fascist policies. -/
theorem hitlerElected_eq_ok {g : Government} {wins : Bool} (h : b.hitlerElected g = .ok wins) :
    wins = true ↔ b.config.hitlerWins b.track.fascist = true ∧
      b.roles.roleOf g.chancellor = .ok .hitler := by
  rw [hitlerElected] at h
  split at h
  · rename_i hset
    obtain ⟨role, hrole, hret⟩ := Attempt.bind_eq_ok.mp h
    cases hret
    rw [hrole, beq_iff_eq, Except.ok.injEq]
    exact (and_iff_right hset).symm
  · rename_i hunset
    cases h
    exact iff_of_false Bool.false_ne_true fun h => hunset h.1

/-- **A decided vote ends the game** by Hitler's election, or by chaos. -/
theorem Resolves.completed_iff {g : Government} {votes : Votes} (h : b.Resolves g votes step)
    (hb : b.Sound) :
    step.game = .completed v ↔
      (votes.count .no < votes.count .yes ∧ b.config.hitlerWins b.track.fascist = true ∧
        b.roles.roleOf g.chancellor = .ok .hitler ∧ v = .hitlerElected) ∨
      (votes.count .yes ≤ votes.count .no ∧ ∃ p, b.Braces p ∧ b.Nears p ∧ v = p.victory) := by
  have helects_iff : votes.elects = true ↔ votes.count .no < votes.count .yes := by
    rw [Votes.elects, decide_eq_true_iff]
  cases h with
  | hitlerElected helects hhitler =>
    obtain ⟨hset, hrole⟩ := (hitlerElected_eq_ok hhitler).mp rfl
    have hmajority := helects_iff.mp helects
    constructor
    · intro hover
      cases hover
      exact .inl ⟨hmajority, hset, hrole, rfl⟩
    · rintro (⟨-, -, -, rfl⟩ | ⟨hminority, -⟩)
      · rfl
      · omega
  | elected helects hhitler _ =>
    have hmajority := helects_iff.mp helects
    constructor
    · intro hover
      cases hover
    · rintro (⟨-, hset, hrole, -⟩ | ⟨hminority, -⟩)
      · exact absurd ((hitlerElected_eq_ok hhitler).mpr ⟨hset, hrole⟩) Bool.false_ne_true
      · omega
  | @rejected failed step hrejects _ hfails =>
    have hminority : votes.count .yes ≤ votes.count .no := by
      rw [Votes.elects, decide_eq_false_iff_not] at hrejects
      omega
    rw [Step.game_after, hfails.completed_iff hb]
    constructor
    · intro hchaos
      exact .inr ⟨hminority, hchaos⟩
    · rintro (⟨hmajority, -⟩ | ⟨-, hchaos⟩)
      · omega
      · exact hchaos

end Board

namespace Running

variable {b : Board} {g : Running} {a : Action} {v : Victory} {step : Step}

/-- What a ballot wins: nothing, unless it is the last. -/
theorem wins_vote_iff {government : Government} {votes : Votes} {seat : Seat} {voter : String}
    {ballot : Ballot} (hasks : b.seating.seatOf? voter = some seat) :
    Wins ⟨b, .voting government votes⟩ (.vote voter ballot) v ↔
      let votes' : Votes := ⟨votes.ballots.insert seat ballot⟩
      votes'.isComplete b.seating = true ∧
        ((votes'.count .no < votes'.count .yes ∧ b.config.hitlerWins b.track.fascist = true ∧
          b.roles.roleOf government.chancellor = .ok .hitler ∧ v = .hitlerElected) ∨
        (votes'.count .yes ≤ votes'.count .no ∧ ∃ p, b.Braces p ∧ b.Nears p ∧ v = p.victory)) := by
  constructor
  · intro h
    cases h with
    | goal hputs hnears =>
      cases hputs with
      | byChaos htopples hbraces =>
        cases htopples with
        | rejected hcloses hminority =>
          obtain ⟨rfl, rfl, hcomplete⟩ := (closes_vote_iff hasks).mp hcloses
          exact ⟨hcomplete, .inr ⟨hminority, _, hbraces, hnears, rfl⟩⟩
    | hitlerElected hcloses hmajority hset hreached hrole =>
      obtain ⟨rfl, rfl, hcomplete⟩ := (closes_vote_iff hasks).mp hcloses
      exact ⟨hcomplete, .inl ⟨hmajority, Configuration.hitlerWins_iff.mpr ⟨_, hset, hreached⟩,
        hrole, rfl⟩⟩
  · rintro ⟨hcomplete, ⟨hmajority, hset, hrole, rfl⟩ | ⟨hminority, p, hbraces, hnears, rfl⟩⟩
    · obtain ⟨threshold, hset, hreached⟩ := Configuration.hitlerWins_iff.mp hset
      exact .hitlerElected (.vote hasks hcomplete) hmajority hset hreached hrole
    · exact .goal (.byChaos (.rejected (.vote hasks hcomplete) hminority) hbraces) hnears

/-- What a chancellor's choice wins. -/
theorem wins_enact_iff {government : Government} {agenda : Agenda} {veto : VetoStatus}
    {actor : String} {index : UInt64} {card other : Policy}
    (htake : agenda.take index.toNat = some (card, other)) :
    Wins ⟨b, .chancellorChoice government agenda veto⟩ (.enact actor index) v ↔
      b.Nears card ∧ v = card.victory := by
  constructor
  · intro h
    cases h with
    | goal hputs hnears =>
      cases hputs with
      | byChancellor htake' =>
        cases htake.symm.trans htake'
        exact ⟨hnears, rfl⟩
      | byChaos htopples _ => cases htopples with | rejected hcloses _ => cases hcloses
    | hitlerElected hcloses _ _ _ _ => cases hcloses
  · rintro ⟨hnears, rfl⟩
    exact .goal (.byChancellor htake) hnears

/-- What an approved veto wins: nothing, unless it brings chaos. -/
theorem wins_veto_iff {government : Government} {agenda : Agenda} {actor : String} :
    Wins ⟨b, .chancellorChoice government agenda .requested⟩ (.answerVeto actor true) v ↔
      ∃ p, b.Braces p ∧ b.Nears p ∧ v = p.victory := by
  constructor
  · intro h
    cases h with
    | goal hputs hnears =>
      cases hputs with
      | byChaos _ hbraces => exact ⟨_, hbraces, hnears, rfl⟩
    | hitlerElected hcloses _ _ _ _ => cases hcloses
  · rintro ⟨p, hbraces, hnears, rfl⟩
    exact .goal (.byChaos .vetoed hbraces) hnears

/-- What a killing wins. -/
theorem wins_execution_iff {president target : Seat} {actor name : String}
    (hname : b.seating.seatOf? name = some target) :
    Wins ⟨b, .powerPending .execution president⟩ (.usePower .execution actor name) v ↔
      b.roles.roleOf target = .ok .hitler ∧ v = .hitlerKilled := by
  constructor
  · intro h
    cases h with
    | goal hputs _ =>
      cases hputs with
      | byChaos htopples _ => cases htopples with | rejected hcloses _ => cases hcloses
    | hitlerElected hcloses _ _ _ _ => cases hcloses
    | hitlerKilled hname' hrole =>
      obtain rfl := Option.some.inj (hname.symm.trans hname')
      exact ⟨hrole, rfl⟩
  · rintro ⟨hrole, rfl⟩
    exact .hitlerKilled hname hrole

/-- **An accepted action ends a sound game exactly if it wins.** -/
theorem Moves.completed_iff (h : g.Moves a step) (hg : g.Sound) :
    step.game = .completed v ↔ g.Wins a v := by
  obtain ⟨hb, -, -⟩ := hg
  cases h with
  | vote hasks hcast hopen =>
    obtain ⟨-, rfl⟩ := Votes.cast_eq_ok.mp hcast
    rw [wins_vote_iff hasks]
    exact iff_of_false nofun fun h => Bool.false_ne_true (hopen.symm.trans h.1)
  | @decide b government votes votes' seat voter ballot step hasks hcast hcomplete hresolves =>
    obtain ⟨-, rfl⟩ := Votes.cast_eq_ok.mp hcast
    rw [wins_vote_iff hasks, Step.game_after, hresolves.completed_iff hb]
    exact (and_iff_right hcomplete).symm
  | enact _ _ htake henacts =>
    rw [wins_enact_iff htake]
    exact henacts.completed_iff { hb with }
  | @approveVeto b government agenda actor deck reshuffled failed step _ hrep _ hfails =>
    -- a sound deck has a full draw, so the vetoed cards do not change what is on top
    have hpile : deck.drawPile = b.deck.drawPile := by
      cases hrep with
      | full _ => rfl
      | shuffled hshort _ => exact absurd hb.stock (Nat.not_le.mpr hshort)
    have hbraces {p : Policy} : Board.Braces { b with deck := deck } p ↔ b.Braces p := by
      simp only [Board.Braces, hpile]
    rw [wins_veto_iff, Step.game_after, hfails.completed_iff (hb.replenish hrep)]
    exact exists_congr fun p => and_congr_left' hbraces
  | killHitler _ hname _ hrole =>
    rw [wins_execution_iff hname, and_iff_right hrole, Step.game_after]
    exact ⟨fun h => (Game.completed.inj h).symm, fun h => congrArg Game.completed h.symm⟩
  | kill _ hname _ hrole hnot _ _ _ =>
    rw [wins_execution_iff hname]
    exact iff_of_false nofun fun h => hnot (Except.ok.inj (hrole.symm.trans h.1))
  | _ =>
    -- nothing else votes, enacts or kills
    refine iff_of_false nofun fun h => ?_
    cases h with
    | goal hputs _ =>
      cases hputs with
      | byChaos htopples _ => cases htopples with | rejected hcloses _ => cases hcloses
    | hitlerElected hcloses _ _ _ _ => cases hcloses

/-! ## A government that may sit -/

/-- Hitler does not sit as chancellor where that would have won. -/
def Guarded (g : Running) : Prop :=
  ∀ government, g.phase.sitting = some government →
    g.board.config.hitlerWins g.board.track.fascist = true →
      g.board.roles.roleOf government.chancellor ≠ .ok .hitler

end Running

namespace Board

variable {b : Board} {step : Step}

theorem guarded_opened (b : Board) (next : Seat) : (b.opened next).Keeps Running.Guarded :=
  nofun

theorem Fails.guarded (h : b.Fails step) : step.Keeps Running.Guarded := by
  cases h with
  | counted _ _ _ => exact guarded_opened _ _
  | collapsed _ _ hchaos =>
    cases hchaos with
    | ended _ _ _ => trivial
    | goesOn _ _ _ _ => exact guarded_opened _ _

theorem Enacts.guarded {president : Seat} {p : Policy} (h : b.Enacts president p step) :
    step.Keeps Running.Guarded := by
  cases h with
  | ended _ _ => trivial
  | goesOn _ _ _ _ => exact guarded_opened _ _
  | peeks _ _ _ _ _ => exact guarded_opened _ _
  | waits _ _ _ _ => exact fun government hsits => nomatch hsits

theorem Resolves.guarded {g : Government} {votes : Votes} (h : b.Resolves g votes step) :
    step.Keeps Running.Guarded := by
  cases h with
  | hitlerElected _ _ => trivial
  | elected _ hhitler _ =>
    -- the election was checked for Hitler before the hand was drawn
    intro government hsits hset hrole
    cases hsits
    exact Bool.false_ne_true ((hitlerElected_eq_ok hhitler).mpr ⟨hset, hrole⟩)
  | rejected _ _ hfails => exact hfails.guarded

/-- Hitler sits at every sound table. -/
theorem Sound.exists_hitler (hb : b.Sound) :
    ∃ s ∈ b.seating.seats, b.roles.roleOf s = .ok .hitler := by
  obtain ⟨s, hs⟩ := RoleMap.exists_hitler hb.hitler
  exact ⟨s, hb.covered ▸ Table.mem_keys_iff.mpr ⟨_, hs⟩, RoleMap.roleOf_eq_ok.mpr hs⟩

end Board

namespace Running

variable {g : Running} {a : Action} {step : Step}

/-- Every move keeps Hitler from sitting. -/
theorem Moves.guarded (h : g.Moves a step) (hg : g.Guarded) : step.Keeps Guarded := by
  cases h with
  | nominate _ _ _ => exact fun government hsits => nomatch hsits
  | vote _ _ _ => exact fun government hsits => nomatch hsits
  | decide _ _ _ hresolves => exact hresolves.guarded
  | discard _ _ => exact hg
  | enact _ _ _ henacts => exact henacts.guarded
  | requestVeto _ _ => exact hg
  | refuseVeto _ => exact hg
  | approveVeto _ _ _ hfails => exact hfails.guarded
  | investigate _ _ _ _ _ _ => exact Board.guarded_opened _ _
  | callElection _ _ _ => exact fun government hsits => nomatch hsits
  | killHitler _ _ _ _ => trivial
  | kill _ _ _ _ _ _ _ _ => exact Board.guarded_opened _ _

theorem Started.guarded {r : Rules} {n : ℕ} (hr : r.Valid) (h : g.Started r n) : g.Guarded := by
  refine h.induction hr (fun c g _ hfresh => ?_) fun g a step _ hg hmove => hmove.guarded hg
  obtain ⟨first, -, hphase⟩ := hfresh.nomination
  rw [Guarded, hphase]
  exact fun government hsits => nomatch hsits

end Running

/-! ## Nothing is drawn for Hitler -/

/-- **Hitler's election draws nothing**: the vote is reported and the game is
over. -/
theorem Board.quiet_of_castVote {σ : Type} [RandomSource σ] {b : Board} {g : Government}
    {votes : Votes} {voter : String} {ballot : Ballot} {s t : σ} {step : Step} (hb : b.Sound)
    (h : b.castVote g votes voter ballot s = (.ok step, t))
    (hover : step.game = .completed .hitlerElected) :
    t = s ∧ ∃ seat ballots, step.events =
      [.voteCast seat, .governmentElected g ballots, .gameOver .hitlerElected] := by
  obtain ⟨seat, _, hvoter, hcast⟩ := Draws.bind_eq_ok.mp h
  obtain ⟨votes', _, hlift, hend⟩ := Draws.bind_eq_ok.mp hcast
  obtain ⟨-, rfl⟩ := Prod.mk.inj hvoter
  obtain ⟨-, rfl⟩ := Prod.mk.inj hlift
  split at hend
  · obtain ⟨last, u, hlast, hret⟩ := Draws.bind_eq_ok.mp hend
    cases hret
    rw [resolveVote] at hlast
    split at hlast
    · obtain ⟨taken, u, htaken, hret⟩ := Draws.bind_eq_ok.mp hlast
      cases hret
      obtain ⟨hitler, u, hhitler, htaken⟩ := Draws.bind_eq_ok.mp htaken
      obtain ⟨-, rfl⟩ := Prod.mk.inj hhitler
      cases hitler with
      | true =>
        cases htaken
        exact ⟨rfl, seat, _, rfl⟩
      | false =>
        obtain ⟨drawn, u, _, hret⟩ := Draws.bind_eq_ok.mp htaken
        cases hret
        cases hover
    · obtain ⟨failed, u, _, hlast⟩ := Draws.bind_eq_ok.mp hlast
      obtain ⟨taken, u, htaken, hret⟩ := Draws.bind_eq_ok.mp hlast
      cases hret
      -- chaos may end the game, but not so
      obtain ⟨p, -, -, hv⟩ := ((fails_of_afterFailedGovernment htaken).completed_iff hb).mp hover
      exact absurd hv.symm p.victory_ne_hitlerElected
  · cases hend
    cases hover

namespace Game

/-- **Victories are detected exactly.** Under a valid rule set no game under way
has reached a goal or has lost its Hitler, nor does Hitler sit as chancellor
where that wins; an accepted action ends the game exactly by one of the ways to
win; and for Hitler's election nothing is drawn. -/
theorem Reachable.completed_iff_wins {r : Rules} (hr : r.Valid) {g : Running}
    (h : Reachable r (.running g)) :
    (g.board.track.liberal < g.board.config.liberalGoal ∧
      g.board.track.fascist < g.board.config.fascistGoal ∧
      (∃ s ∈ g.board.seating.seats, g.board.roles.roleOf s = .ok .hitler) ∧
      ∀ government, g.phase.sitting = some government →
        g.board.config.hitlerWins g.board.track.fascist = true →
          g.board.roles.roleOf government.chancellor ≠ .ok .hitler) ∧
    ∀ {σ : Type} [RandomSource σ] (a : Action) (s t : σ) (step : Step),
      Game.apply (.running g) a s = (.ok step, t) →
        (∀ v, step.game = .completed v ↔ g.Wins a v) ∧
        (step.game = .completed .hitlerElected → t = s ∧ ∃ voter government ballots,
          step.events =
            [.voteCast voter, .governmentElected government ballots, .gameOver .hitlerElected]) := by
  have hsound : g.Sound := h.sound hr
  obtain ⟨n, hstarted⟩ := h.exists_started
  refine ⟨⟨hsound.board.below .liberal, hsound.board.below .fascist, hsound.board.exists_hitler,
    hstarted.guarded hr⟩, fun a s t step happly => ?_⟩
  have hplay : g.play a s = (.ok step, t) := ((h.sound hr).apply_eq_ok_iff hr).mp happly
  have hwins (v : Victory) : step.game = .completed v ↔ g.Wins a v :=
    (Running.moves_of_play hplay).completed_iff hsound
  refine ⟨hwins, fun hover => ?_⟩
  -- only a ballot elects
  obtain ⟨b, phase⟩ := g
  generalize hv : Victory.hitlerElected = v at *
  cases (hwins v).mp hover with
  | goal _ _ => exact absurd hv.symm (Policy.victory_ne_hitlerElected _)
  | hitlerElected hcloses _ _ _ _ =>
    cases hcloses with
    | vote _ _ =>
      obtain ⟨hquiet, voter, ballots, hevents⟩ := Board.quiet_of_castVote hsound.board hplay hover
      exact ⟨hquiet, voter, _, ballots, hevents⟩
  | hitlerKilled _ _ => cases hv

end Game

/-- Rules under which the first failed government decides the game, and its
card who wins. -/
def Rules.hasty : Rules :=
  { standard with liberalGoal := 1, fascistGoal := 1, chaosThreshold := 1 }

/-- Five players start, and four of them reject the first government. -/
def hastyGame : List Action :=
  ["a", "b", "c", "d", "e"].map .join ++ [.start "a", .nominate "a" "b"] ++
    ["a", "b", "c", "d"].map (.vote · .no)

/-- The fifth ballot brings chaos, whose card wins for the fascists. -/
theorem Game.Reachable.completed_iff_wins_hasty :
    Rules.hasty.Valid ∧ ∃ g, Game.Reachable .hasty (.running g) ∧
      ∃ step t, Game.apply (.running g) (.vote "e" .no) (Script.ofWords []) = (.ok step, t) ∧
        step.game = .completed .fascistPolicyGoal ∧
        g.Wins (.vote "e" .no) .fascistPolicyGoal := by
  have hr : Rules.hasty.Valid := by decide
  have hreach : Game.Reachable .hasty ((Game.new .hasty).fed hastyGame (Script.ofWords [])) :=
    Game.Reachable.new.fed hastyGame (Script.ofWords [])
  have hwon : ((Game.new .hasty).fed hastyGame (Script.ofWords [])).running?.map (fun g =>
      (Game.apply (.running g) (.vote "e" .no) (Script.ofWords [])).1.map (·.game)) =
        some (.ok (.completed .fascistPolicyGoal)) := by
    decide +kernel
  obtain ⟨g, hrunning, hanswer⟩ := Option.map_eq_some_iff.mp hwon
  rw [Game.running?_eq_some_iff.mp hrunning] at hreach
  rcases happly : Game.apply (.running g) (.vote "e" .no) (Script.ofWords []) with ⟨answer, t⟩
  rw [happly] at hanswer
  cases answer with
  | error cause => cases hanswer
  | ok step =>
    have hover : step.game = .completed .fascistPolicyGoal := Except.ok.inj hanswer
    have hwins := ((Game.Reachable.completed_iff_wins hr hreach).2 _ _ _ _ happly).1
    exact ⟨hr, g, hreach, step, t, happly, hover, (hwins _).mp hover⟩

end SecretHitler
