import SecretHitler.Proofs.Runs
/-!
# The order of the deck

Nothing moves behind the players' backs. What an accepted action draws comes off the
front of the pile, and what is left stays in order, unless too little is left for a
full draw: then, and only then, it is shuffled with everything discarded so far, and
a reshuffle is reported. `Deck.Turns` says this of one step, `Moves.draws` shows it of
every move of a sound game. So the cards that a president was shown stay on top
until somebody draws, whatever votes and nominations come in between
(`Rules.Valid.draws_in_order`). A veto is where this could fail: it discards and
replenishes before it counts a failed government, which may draw.
-/

namespace SecretHitler

/-! ## What a step reports of the deck -/

namespace Event

/-- The cards that an event reports as drawn from the pile. -/
@[simp] def drawn : Event → List Policy
  | policiesDrawn _ hand => hand.toList
  | countryInChaos card => [card]
  | _ => []

/-- The new length of the draw pile, where an event reports a reshuffle. -/
@[simp] def reshuffled : Event → Option UInt64
  | deckReshuffled cards => some cards
  | _ => none

/-- An event that reports nothing of the draw pile. -/
def Quiet (e : Event) : Prop := e.drawn = [] ∧ e.reshuffled = none

end Event

namespace Step

/-- **The cards that a step reports as drawn.** -/
def drawn (s : Step) : List Policy := s.events.flatMap Event.drawn

/-- The reshuffles that a step reports. -/
def reshuffles (s : Step) : List UInt64 := s.events.filterMap Event.reshuffled

end Step

/-- **The cards that an action lays on the discard pile.** -/
def Running.discards (g : Running) (a : Action) : List Policy :=
  match g.phase, a with
  | .presidentChoice _ hand, .discard _ index => ((hand.take index.toNat).map (·.1)).toList
  | .chancellorChoice _ agenda _, .enact _ index => ((agenda.take index.toNat).map (·.2)).toList
  | .chancellorChoice _ agenda _, .answerVeto _ true => agenda.toList
  | _, _ => []

/-- **What a step may do to the deck**: take cards off its front and lay others on the
discards. The rest stays in order, or is too short and shuffled with the discards. -/
inductive Deck.Turns (d : Deck) (taken laid : List Policy) (d' : Deck) (reports : List UInt64) :
    Prop
  | inOrder {rest : List Policy} :
      d.drawPile = taken ++ rest → standardDraw ≤ rest.length → d'.drawPile = rest →
      d'.discardPile = d.discardPile ++ laid → reports = [] → Turns d taken laid d' reports
  | shuffled {rest : List Policy} :
      d.drawPile = taken ++ rest → rest.length < standardDraw →
      d'.drawPile.Perm (rest ++ (d.discardPile ++ laid)) → d'.discardPile = [] →
      reports = [d'.drawSize] → Turns d taken laid d' reports

/-- **A step that draws openly**: at most once, off the front of the pile, and with the
rest of the deck as the rules have it. -/
structure Step.Draws (d : Deck) (laid : List Policy) (s : Step) : Prop where
  once : ∀ e ∈ s.events, e.drawn = [] ∨ e.drawn = s.drawn
  front : s.drawn <+: d.drawPile
  turns : ∀ g, s.game = .running g → d.Turns s.drawn laid g.board.deck s.reshuffles

namespace Step

variable {d : Deck} {laid : List Policy} {s : Step}

theorem drawn_eq_nil (h : ∀ e ∈ s.events, e.Quiet) : s.drawn = [] :=
  List.flatMap_eq_nil_iff.mpr fun e he => (h e he).1

theorem reshuffles_eq_nil (h : ∀ e ∈ s.events, e.Quiet) : s.reshuffles = [] :=
  List.filterMap_eq_nil_iff.mpr fun e he => (h e he).2

/-- Quiet events before a step change nothing of what it draws. -/
theorem Draws.after (h : s.Draws d laid) {events : List Event} (hquiet : ∀ e ∈ events, e.Quiet) :
    (s.after events).Draws d laid := by
  have hdrawn : (s.after events).drawn = s.drawn := by
    have hnone : events.flatMap Event.drawn = [] :=
      List.flatMap_eq_nil_iff.mpr fun e he => (hquiet e he).1
    rw [drawn, Step.after, List.flatMap_append, hnone, List.nil_append]
    rfl
  have hreshuffles : (s.after events).reshuffles = s.reshuffles := by
    have hnone : events.filterMap Event.reshuffled = [] :=
      List.filterMap_eq_nil_iff.mpr fun e he => (hquiet e he).2
    rw [reshuffles, Step.after, List.filterMap_append, hnone, List.nil_append]
    rfl
  refine ⟨fun e he => ?_, ?_, fun g hg => ?_⟩
  · rw [hdrawn]
    rcases List.mem_append.mp he with hbefore | hs
    · exact .inl (hquiet e hbefore).1
    · exact h.once e hs
  · rw [hdrawn]
    exact h.front
  · rw [hdrawn, hreshuffles]
    exact h.turns g hg

/-- A step that reports nothing leaves a full draw in order. -/
theorem draws_of_quiet (hquiet : ∀ e ∈ s.events, e.Quiet)
    (hstock : standardDraw ≤ d.drawPile.length)
    (hdeck : ∀ g, s.game = .running g → g.board.deck = d.discardAll laid) : s.Draws d laid := by
  refine ⟨fun e he => .inl (hquiet e he).1, ?_, fun g hg => ?_⟩
  · rw [drawn_eq_nil hquiet]
    exact List.nil_prefix
  · rw [drawn_eq_nil hquiet, reshuffles_eq_nil hquiet, hdeck g hg]
    exact .inOrder rfl hstock rfl rfl rfl

/-- A card that was discarded before a step draws was laid down by it. -/
theorem Draws.of_discardAll (h : s.Draws (d.discardAll laid) []) : s.Draws d laid := by
  refine ⟨h.once, h.front, fun g hg => ?_⟩
  cases h.turns g hg with
  | inOrder hpile hfull hrest hdiscards hreports =>
    rw [List.append_nil] at hdiscards
    exact .inOrder hpile hfull hrest hdiscards hreports
  | shuffled hpile hshort hperm hdiscards hreports =>
    rw [List.append_nil] at hperm
    exact .shuffled hpile hshort hperm hdiscards hreports

end Step

namespace Board

variable {b : Board} {step : Step}

theorem mem_reshuffleEvents {d : Deck} {reshuffled : Bool} {e : Event} :
    e ∈ reshuffleEvents d reshuffled ↔ reshuffled = true ∧ e = .deckReshuffled d.drawSize := by
  cases reshuffled with
  | false => simp [reshuffleEvents]
  | true => simp [reshuffleEvents]

/-- **A deal, as it is reported**: the cards, a reshuffle if there was one, and nothing
more of the deck. -/
theorem draws_of_deals {game : Game} {d deck : Deck} {taken : List Policy} {reshuffled : Bool}
    {e : Event} {rest : List Event} (hdeal : d.Deals taken deck reshuffled)
    (hdrawn : e.drawn = taken) (hnone : e.reshuffled = none) (hquiet : ∀ e ∈ rest, e.Quiet)
    (hdeck : ∀ g, game = .running g → g.board.deck = deck) :
    Step.Draws d [] ⟨game, e :: (reshuffleEvents deck reshuffled ++ rest)⟩ := by
  obtain ⟨left, hpile, hrep⟩ := hdeal
  have hsilent : (reshuffleEvents deck reshuffled ++ rest).flatMap Event.drawn = [] := by
    refine List.flatMap_eq_nil_iff.mpr fun e' he' => ?_
    rcases List.mem_append.mp he' with hreshuffle | hrest
    · rw [(mem_reshuffleEvents.mp hreshuffle).2]
      rfl
    · exact (hquiet e' hrest).1
  have htaken : Step.drawn ⟨game, e :: (reshuffleEvents deck reshuffled ++ rest)⟩ = taken := by
    rw [Step.drawn, List.flatMap_cons, hsilent, hdrawn, List.append_nil]
  have hreports : Step.reshuffles ⟨game, e :: (reshuffleEvents deck reshuffled ++ rest)⟩ =
      (reshuffleEvents deck reshuffled).filterMap Event.reshuffled := by
    have hrest : rest.filterMap Event.reshuffled = [] :=
      List.filterMap_eq_nil_iff.mpr fun e' he' => (hquiet e' he').2
    rw [Step.reshuffles, List.filterMap_cons_none hnone, List.filterMap_append, hrest,
      List.append_nil]
  refine ⟨fun e' he' => ?_, ?_, fun g hg => ?_⟩
  · rw [htaken]
    rcases List.mem_cons.mp he' with rfl | hlater
    · exact .inr hdrawn
    · exact .inl (List.flatMap_eq_nil_iff.mp hsilent e' hlater)
  · rw [htaken, hpile]
    exact List.prefix_append ..
  · rw [htaken, hreports, hdeck g hg]
    cases hrep with
    | full hfull => exact .inOrder hpile hfull rfl (List.append_nil _).symm rfl
    | shuffled hshort hperm =>
      refine .shuffled hpile hshort ?_ rfl rfl
      rw [List.append_nil]
      exact hperm

/-! ## Moves -/

theorem Collapses.draws (h : b.Collapses step) : step.Draws b.deck [] := by
  cases h with
  | @ended drawn track v hdeal _ _ =>
    have hdraws : Step.Draws b.deck [] ⟨.completed v, .countryInChaos drawn.cards ::
        (reshuffleEvents drawn.deck drawn.reshuffled ++
          [.policyEnacted drawn.cards .chaos track.liberal track.fascist, .gameOver v])⟩ :=
      draws_of_deals hdeal rfl rfl (by simp [Event.Quiet]) fun g hg => by cases hg
    rwa [List.append_cons] at hdraws
  | @goesOn drawn track next hdeal _ _ _ =>
    have hdraws : Step.Draws b.deck [] ⟨((b.collapsed drawn.deck track).opened next).game,
        .countryInChaos drawn.cards :: (reshuffleEvents drawn.deck drawn.reshuffled ++
          [.policyEnacted drawn.cards .chaos track.liberal track.fascist,
            .electionStarted next false])⟩ :=
      draws_of_deals hdeal rfl rfl (by simp [Event.Quiet]) fun g hg => by cases hg; rfl
    rwa [List.append_cons] at hdraws

theorem Fails.draws (h : b.Fails step) (hstock : standardDraw ≤ b.deck.drawPile.length) :
    step.Draws b.deck [] := by
  cases h with
  | counted _ _ _ =>
    refine Step.draws_of_quiet ?_ hstock fun g hg => ?_
    · simp [opened, beginElection, Event.Quiet]
    · cases hg
      simp [Deck.discardAll]
  | collapsed _ _ hchaos => exact hchaos.draws

theorem Enacts.draws {president : Seat} {p : Policy} (h : b.Enacts president p step)
    (hstock : standardDraw ≤ b.deck.drawPile.length) : step.Draws b.deck [] := by
  refine Step.draws_of_quiet ?_ hstock fun g hg => ?_
  · cases h with
    | ended _ _ | goesOn _ _ _ _ | peeks _ _ _ _ _ | waits _ _ _ _ =>
      simp [Step.after, Step.gameOver, opened, beginElection, Event.Quiet]
  · cases h with
    | ended _ _ => cases hg
    | goesOn _ _ _ _ | peeks _ _ _ _ _ | waits _ _ _ _ =>
      cases hg
      simp [governed, Deck.discardAll]

theorem Resolves.draws {g : Government} {votes : Votes} (h : b.Resolves g votes step)
    (hstock : standardDraw ≤ b.deck.drawPile.length) : step.Draws b.deck [] := by
  cases h with
  | hitlerElected _ _ =>
    refine Step.draws_of_quiet ?_ hstock fun g hg => by cases hg
    simp [Step.after, Step.gameOver, Event.Quiet]
  | @elected drawn _ _ hdeal =>
    have hdraws : Step.Draws b.deck [] ⟨.running ⟨{ b with
        election := b.election.limit g, deck := drawn.deck }, .presidentChoice g drawn.cards⟩,
        .policiesDrawn g.president drawn.cards ::
          (reshuffleEvents drawn.deck drawn.reshuffled ++ [])⟩ :=
      draws_of_deals hdeal rfl rfl (by simp) fun g' hg' => by cases hg'; rfl
    rw [List.append_nil] at hdraws
    have helected : ∀ e ∈ [Event.governmentElected g votes.ballots], e.Quiet := by
      simp [Event.Quiet]
    exact hdraws.after helected
  | rejected _ _ hfails =>
    exact (hfails.draws hstock).after (by simp [Event.Quiet])

end Board

/-- **Every move draws openly.** -/
theorem Running.Moves.draws {g : Running} {a : Action} {step : Step} (h : g.Moves a step)
    (hg : g.Sound) : step.Draws g.board.deck (g.discards a) := by
  have hstock := hg.board.stock
  cases h with
  | decide _ _ _ hresolves =>
    exact (hresolves.draws hstock).after (by simp [Event.Quiet])
  | @discard b government hand agenda card actor index _ htake =>
    have hcard : discards ⟨b, .presidentChoice government hand⟩ (.discard actor index) =
        [card] := by
      simp [discards, htake]
    rw [hcard]
    refine Step.draws_of_quiet ?_ hstock fun g hg => ?_
    · simp [Event.Quiet]
    · cases hg
      rfl
  | @enact b government agenda veto card other actor index step _ _ htake henacts =>
    have hother : discards ⟨b, .chancellorChoice government agenda veto⟩ (.enact actor index) =
        [other] := by
      simp [discards, htake]
    rw [hother]
    exact (henacts.draws hstock).of_discardAll
  | @approveVeto b government agenda actor deck reshuffled failed step _ hrep _ hfails =>
    -- with a full draw in the pile the two cards are laid down and nothing is shuffled
    cases hrep with
    | full _ =>
      have hdraws : step.Draws b.deck agenda.toList := (hfails.draws hstock).of_discardAll
      exact hdraws.after (by simp [Board.reshuffleEvents, Event.Quiet])
    | shuffled hshort _ => exact absurd hstock (Nat.not_le.mpr hshort)
  | _ =>
    refine Step.draws_of_quiet ?_ hstock fun g hg => ?_
    · simp [Step.after, Step.gameOver, Board.opened, Board.callElection, Board.beginElection,
        Event.Quiet]
    · cases hg <;> simp [Deck.discardAll, discards]


/-! ## What a president was shown -/

namespace Board

variable {b : Board} {step : Step} {president : Seat} {hand : Hand}

theorem Collapses.policyPeek_notMem (h : b.Collapses step) :
    .policyPeek president hand ∉ step.events := by
  cases h with
  | ended _ _ _ | goesOn _ _ _ _ =>
    simp [Step.after, Step.gameOver, opened, beginElection, chaosEvents, mem_reshuffleEvents]

theorem Fails.policyPeek_notMem (h : b.Fails step) : .policyPeek president hand ∉ step.events := by
  cases h with
  | counted _ _ _ => simp [opened, beginElection]
  | collapsed _ _ hchaos => exact hchaos.policyPeek_notMem

theorem Resolves.policyPeek_notMem {g : Government} {votes : Votes} (h : b.Resolves g votes step) :
    .policyPeek president hand ∉ step.events := by
  cases h with
  | hitlerElected _ _ => simp [Step.after, Step.gameOver]
  | elected _ _ _ => simp [mem_reshuffleEvents]
  | rejected _ _ hfails => simp [Step.after, hfails.policyPeek_notMem]

/-- An enactment that shows a president cards leaves them where they are. -/
theorem Enacts.peeked {owner : Seat} {p : Policy} (h : b.Enacts owner p step)
    (hpeek : .policyPeek president hand ∈ step.events) :
    ∃ g, step.game = .running g ∧ hand.toList <+: g.board.deck.drawPile := by
  cases h with
  | @peeks track shown next _ _ _ hshown _ =>
    have hsame : president = owner ∧ hand = shown := by
      simpa [Step.after, opened, beginElection] using hpeek
    rw [hsame.2]
    exact ⟨_, rfl, Deck.prefix_of_peek hshown⟩
  | ended _ _ | goesOn _ _ _ _ | waits _ _ _ _ =>
    simp [Step.after, Step.gameOver, opened, beginElection] at hpeek

end Board

namespace Running

/-- **What a president was shown lies on top of the pile.** -/
theorem Moves.peeked {g : Running} {a : Action} {step : Step} {president : Seat} {hand : Hand}
    (h : g.Moves a step) (hpeek : .policyPeek president hand ∈ step.events) :
    ∃ g', step.game = .running g' ∧ hand.toList <+: g'.board.deck.drawPile := by
  cases h with
  | enact _ _ _ henacts => exact henacts.peeked hpeek
  | decide _ _ _ hresolves =>
    simp [Step.after, hresolves.policyPeek_notMem] at hpeek
  | approveVeto _ _ _ hfails =>
    simp [Step.after, Board.mem_reshuffleEvents, hfails.policyPeek_notMem] at hpeek
  | _ =>
    simp [Step.after, Step.gameOver, Board.opened, Board.callElection, Board.beginElection]
      at hpeek

end Running

namespace Deck.Turns

variable {d d' : Deck} {taken laid : List Policy} {reports : List UInt64}

/-- With nothing taken, a full draw stays on top. -/
theorem prefix_of_nil {shown : List Policy} (h : d.Turns [] laid d' reports)
    (hstock : standardDraw ≤ d.drawPile.length) (hshown : shown <+: d.drawPile) :
    shown <+: d'.drawPile := by
  cases h with
  | inOrder hpile _ hrest _ _ =>
    rw [hrest]
    rwa [hpile] at hshown
  | shuffled hpile hshort _ _ _ =>
    rw [hpile] at hstock
    exact absurd hstock (Nat.not_le.mpr hshort)

end Deck.Turns

variable {σ : Type} [RandomSource σ]

/-- **Cards on top stay there until somebody draws**, whatever else is accepted or
refused in between. -/
theorem Running.Sound.prefix_at_draw {r : Rules} (hr : r.Valid) {g : Running} (hg : g.Sound)
    {shown : List Policy} (hshown : shown <+: g.board.deck.drawPile) {actions : List Action} {s : σ}
    {between after : List (Attempt Step)} {drawn : Step}
    (hanswers : (Game.running g).answers actions s = between ++ .ok drawn :: after)
    (hnone : ∀ step, .ok step ∈ between → step.drawn = []) :
    ∃ g' a, Sound g' ∧ g'.Moves a drawn ∧ shown <+: g'.board.deck.drawPile := by
  induction between generalizing g actions s with
  | nil =>
    obtain ⟨a, rest, t, happly, _⟩ := Game.exists_of_answers_eq_cons hanswers
    exact ⟨g, a, hg, moves_of_play (Game.play_of_apply happly), hshown⟩
  | cons answer between ih =>
    cases actions with
    | nil => cases hanswers
    | cons a rest =>
      have hsound : (Game.running g).Sound r := hg
      rw [Game.answers, List.cons_append, List.cons.injEq] at hanswers
      obtain ⟨hfirst, hrest⟩ := hanswers
      obtain ⟨step, t, happly, hnext⟩ | ⟨cause, happly⟩ := hsound.apply_cases hr a s
      · rw [happly] at hfirst hrest
        have hmove : g.Moves a step := moves_of_play (Game.play_of_apply happly)
        have hquiet : step.drawn = [] := hnone step (hfirst ▸ List.mem_cons_self)
        obtain ⟨g', hgame, hg'⟩ | ⟨v, hgame⟩ := (hmove.sound hg).cases
        · have hturns := (hmove.draws hg).turns g' hgame
          rw [hquiet] at hturns
          rw [Game.next, hgame] at hrest
          exact ih hg' (hturns.prefix_of_nil hg.board.stock hshown) hrest
            fun step' hstep' => hnone step' (List.mem_cons_of_mem _ hstep')
        · -- a finished game accepts nothing, so nobody would draw
          rw [Game.next, hgame] at hrest
          have hdrawn : .ok drawn ∈ (Game.completed v).answers rest t := by
            rw [hrest]
            simp
          cases Game.eq_of_mem_answers_completed hdrawn
      · rw [happly] at hrest
        exact ih hg hshown hrest fun step' hstep' => hnone step' (List.mem_cons_of_mem _ hstep')

/-- Of two cards or hands off the front of one pile, the shorter starts the longer. -/
theorem Step.Draws.drawn_prefix {d : Deck} {laid : List Policy} {s : Step} (h : s.Draws d laid)
    {hand : Hand} (hhand : hand.toList <+: d.drawPile) {e : Event} (he : e ∈ s.events) :
    (∀ president hand', e = .policiesDrawn president hand' → hand' = hand) ∧
      ∀ card, e = .countryInChaos card → card = hand.first := by
  have hfront : e.drawn <+: d.drawPile := by
    rcases h.once e he with hnone | hdrawn
    · rw [hnone]
      exact List.nil_prefix
    · rw [hdrawn]
      exact h.front
  constructor
  · rintro president hand' rfl
    have hsame : hand'.toList = hand.toList :=
      (List.prefix_of_prefix_length_le hfront hhand (Nat.le_refl _)).eq_of_length rfl
    simp only [Hand.toList, List.cons.injEq, and_true] at hsame
    obtain ⟨hfirst, hsecond, hthird⟩ := hsame
    cases hand
    cases hand'
    subst hfirst hsecond hthird
    rfl
  · rintro card rfl
    have hcard : [card] <+: hand.toList :=
      List.prefix_of_prefix_length_le hfront hhand (by simp [standardDraw])
    simpa [Hand.toList] using hcard

/-- In a lobby nobody is shown a card. -/
theorem Lobby.policyPeek_notMem {l : Lobby} {a : Action} {s t : σ} {step : Step} {president : Seat}
    {hand : Hand} (h : l.play a s = (.ok step, t)) : .policyPeek president hand ∉ step.events := by
  cases a with
  | join name =>
    obtain ⟨_, rfl⟩ := join_eq_ok.mp (Prod.mk.inj h).1
    simp
  | leave name =>
    have hleave : l.leave name = .ok step := (Prod.mk.inj h).1
    rw [leave] at hleave
    split at hleave
    · cases hleave
      simp
    · cases hleave
  | start actor =>
    obtain ⟨_, _, _, _, _, _, _, _, _, _, rfl⟩ := exists_of_start h
    simp [Step.after, Board.beginElection]
  | _ => cases h

/-- The deck that a move of a sound game leaves, in full. -/
theorem Running.Moves.deck_eq {g g' : Running} {a : Action} {step : Step} (h : g.Moves a step)
    (hg : g.Sound) (hgame : step.game = .running g') :
    ∃ rest, g.board.deck.drawPile = step.drawn ++ rest ∧
      (standardDraw ≤ rest.length → g'.board.deck.drawPile = rest ∧
        g'.board.deck.discardPile = g.board.deck.discardPile ++ g.discards a ∧
        step.reshuffles = []) ∧
      (rest.length < standardDraw → g'.board.deck.discardPile = [] ∧
        g'.board.deck.drawPile.Perm (rest ++ (g.board.deck.discardPile ++ g.discards a)) ∧
        ∃ cards, step.reshuffles = [cards] ∧ cards.toNat = g'.board.deck.drawPile.length) := by
  have hsound : g'.Sound := (h.sound hg).of_running hgame
  cases (h.draws hg).turns g' hgame with
  | @inOrder rest hpile hfull hrest hdiscards hreports =>
    exact ⟨rest, hpile, fun _ => ⟨hrest, hdiscards, hreports⟩,
      fun hshort => absurd hfull (Nat.not_le.mpr hshort)⟩
  | @shuffled rest hpile hshort hperm hdiscards hreports =>
    exact ⟨rest, hpile, fun hfull => absurd hfull (Nat.not_le.mpr hshort),
      fun _ => ⟨hdiscards, hperm, _, hreports, hsound.toNat_drawSize⟩⟩

/-- **The draw order is never disturbed unseen.** Under a valid rule set, what an
accepted action reports as drawn comes off the front of the pile. If a full draw is
left, it stays in order, the discards are added to and no reshuffle is reported;
otherwise all that is left is shuffled with the discards and the report tells the new
length. A peek shows the first three cards, and whatever comes in between, the next
draw yields them, or the first of them to chaos. -/
theorem Rules.Valid.draws_in_order {r : Rules} (hr : r.Valid) :
    (∀ (g : Running) (a : Action) (s t : σ) (step : Step), Game.Reachable r (.running g) →
      Game.apply (.running g) a s = (.ok step, t) →
      (∀ e ∈ step.events, e.drawn = [] ∨ e.drawn = step.drawn) ∧
      step.drawn <+: g.board.deck.drawPile ∧
      ∀ g', step.game = .running g' →
        (∃ rest, g.board.deck.drawPile = step.drawn ++ rest ∧
          (standardDraw ≤ rest.length → g'.board.deck.drawPile = rest ∧
            g'.board.deck.discardPile = g.board.deck.discardPile ++ g.discards a ∧
            step.reshuffles = []) ∧
          (rest.length < standardDraw → g'.board.deck.discardPile = [] ∧
            g'.board.deck.drawPile.Perm (rest ++ (g.board.deck.discardPile ++ g.discards a)) ∧
            ∃ cards, step.reshuffles = [cards] ∧
              cards.toNat = g'.board.deck.drawPile.length)) ∧
        ∀ president hand, .policyPeek president hand ∈ step.events →
          g'.board.deck.drawPile.take standardDraw = hand.toList) ∧
    ∀ (actions : List Action) (s : σ) (before between after : List (Attempt Step))
      (peeked drawn : Step) (president : Seat) (hand : Hand),
      (Game.new r).answers actions s = before ++ .ok peeked :: (between ++ .ok drawn :: after) →
      .policyPeek president hand ∈ peeked.events →
      (∀ step, .ok step ∈ between → step.drawn = []) →
      (∀ drawer hand', .policiesDrawn drawer hand' ∈ drawn.events → hand' = hand) ∧
        ∀ card, .countryInChaos card ∈ drawn.events → card = hand.first := by
  constructor
  · intro g a s t step hreach happly
    have hg : g.Sound := hreach.sound hr
    have hmove : g.Moves a step := Running.moves_of_play (Game.play_of_apply happly)
    have hdraws := hmove.draws hg
    refine ⟨hdraws.once, hdraws.front, fun g' hgame => ⟨hmove.deck_eq hg hgame, ?_⟩⟩
    intro president hand hpeek
    obtain ⟨shown, hshown, hprefix⟩ := hmove.peeked hpeek
    obtain rfl : shown = g' := Game.running.inj (hshown.symm.trans hgame)
    exact (List.prefix_iff_eq_take.mp hprefix).symm
  · intro actions s before between after peeked drawn president hand hanswers hpeek hnone
    obtain ⟨g, actions, s, hreach, hanswers⟩ :=
      Game.Reachable.new.exists_of_answers_append hanswers
    obtain ⟨a, rest, t, happly, hrest⟩ := Game.exists_of_answers_eq_cons hanswers
    -- only a game under way shows anybody cards
    cases g with
    | completed v => cases happly
    | lobby l => exact absurd hpeek (Lobby.policyPeek_notMem (Game.play_of_apply happly))
    | running g =>
      have hg : g.Sound := hreach.sound hr
      have hmove : g.Moves a peeked := Running.moves_of_play (Game.play_of_apply happly)
      obtain ⟨g', hgame, hshown⟩ := hmove.peeked hpeek
      rw [hgame] at hrest
      have hg' : g'.Sound := (hmove.sound hg).of_running hgame
      obtain ⟨g'', a', hg'', hmove', hshown'⟩ := hg'.prefix_at_draw hr hshown hrest hnone
      have hdraws := hmove'.draws hg''
      exact ⟨fun drawer hand' hdrawn => (hdraws.drawn_prefix hshown' hdrawn).1 _ _ rfl,
        fun card hchaos => (hdraws.drawn_prefix hshown' hchaos).2 _ rfl⟩

/-- Rules under which the first fascist policy shows the president three cards. -/
def Rules.peeking : Rules :=
  { standard with
    brackets := [{ minPlayers := 5, maxPlayers := 10, fascists := 1,
                   powers := [⟨1, .policyPeek⟩] }] }

/-- The first government enacts a policy and the president peeks. The next one is
rejected, a nomination out of turn is refused, and the one after that is elected. -/
def peekingGame : List Action :=
  [Lobby.ofFive.players.map .join, [.start "a", .nominate "a" "b"], Lobby.ofFive.ballots .yes,
    [.discard "a" 0, .enact "b" 0, .nominate "b" "c"], Lobby.ofFive.ballots .no,
    [.nominate "b" "c", .nominate "c" "d"], Lobby.ofFive.ballots .yes].flatten

/-- What the first president saw, the third one draws; and the second hand that is
drawn comes off the front of the pile. -/
theorem Rules.Valid.draws_in_order_peeking :
    Rules.peeking.Valid ∧
    (∃ g step t, Game.Reachable .peeking (.running g) ∧
      Game.apply (.running g) (.vote "e" .yes) (Script.ofWords []) = (.ok step, t) ∧
      step.drawn = [.fascist, .liberal, .fascist] ∧ step.drawn <+: g.board.deck.drawPile) ∧
    ∃ before between after peeked drawn hand hand',
      (Game.new .peeking).answers peekingGame (Script.ofWords []) =
        before ++ .ok peeked :: (between ++ .ok drawn :: after) ∧
      .policyPeek ⟨1⟩ hand ∈ peeked.events ∧ (∀ step, .ok step ∈ between → step.drawn = []) ∧
      .policiesDrawn ⟨3⟩ hand' ∈ drawn.events ∧ hand' = hand := by
  have hr : Rules.peeking.Valid := by decide
  obtain ⟨hsteps, hruns⟩ := hr.draws_in_order (σ := Script)
  have hfirst : ∃ g step t, Game.Reachable .peeking (.running g) ∧
      Game.apply (.running g) (.vote "e" .yes) (Script.ofWords []) = (.ok step, t) ∧
      step.drawn = [.fascist, .liberal, .fascist] ∧ step.drawn <+: g.board.deck.drawPile := by
    have hreach : Game.Reachable .peeking
        ((Game.new .peeking).fed (peekingGame.take 26) (Script.ofWords [])) :=
      Game.Reachable.new.fed _ _
    have hdrawn : ((Game.new .peeking).fed (peekingGame.take 26) (Script.ofWords [])).running?.map
        (fun g => (Game.apply (.running g) (.vote "e" .yes) (Script.ofWords [])).1.map (·.drawn)) =
          some (.ok [.fascist, .liberal, .fascist]) := by
      decide +kernel
    obtain ⟨g, hrunning, hanswer⟩ := Option.map_eq_some_iff.mp hdrawn
    rw [Game.running?_eq_some_iff.mp hrunning] at hreach
    rcases happly : Game.apply (.running g) (.vote "e" .yes) (Script.ofWords []) with
      ⟨cause | step, t⟩
    · rw [happly] at hanswer
      cases hanswer
    · rw [happly] at hanswer
      exact ⟨g, step, t, hreach, happly, Except.ok.inj hanswer, (hsteps _ _ _ _ _ hreach happly).2.1⟩
  refine ⟨hr, hfirst, ?_⟩
  have split {l : List (Attempt Step)} {i : ℕ} {answer : Attempt Step}
      (h : l[i]? = some answer) : l = l.take i ++ answer :: l.drop (i + 1) := by
    obtain ⟨hi, rfl⟩ := List.getElem?_eq_some_iff.mp h
    rw [List.getElem_cons_drop, List.take_append_drop]
  have ok_of_toOption {answer : Attempt Step} {step : Step} (h : answer.toOption = some step) :
      answer = .ok step := by
    cases answer with
    | error cause => cases h
    | ok step' => exact congrArg _ (Option.some.inj h)
  -- the fourteenth answer shows three cards, and the twenty-seventh draws
  have hfacts : (do
      let peeked ← (← ((Game.new .peeking).answers peekingGame (Script.ofWords []))[13]?).toOption
      let drawn ← (← (((Game.new .peeking).answers peekingGame
        (Script.ofWords [])).drop 14)[12]?).toOption
      return decide (.policyPeek ⟨1⟩ ⟨.fascist, .liberal, .fascist⟩ ∈ peeked.events ∧
        .policiesDrawn ⟨3⟩ ⟨.fascist, .liberal, .fascist⟩ ∈ drawn.events ∧
        ∀ answer ∈ (((Game.new .peeking).answers peekingGame
          (Script.ofWords [])).drop 14).take 12, ∀ step ∈ answer.toOption, step.drawn = [])) =
        some true := by
    decide +kernel
  obtain ⟨_, hat, hfacts⟩ := Option.bind_eq_some_iff.mp hfacts
  obtain ⟨peeked, hpeeked, hfacts⟩ := Option.bind_eq_some_iff.mp hfacts
  obtain ⟨_, hat', hfacts⟩ := Option.bind_eq_some_iff.mp hfacts
  obtain ⟨drawn, hdrawn, hfacts⟩ := Option.bind_eq_some_iff.mp hfacts
  obtain ⟨hshown, hdraws, hnone⟩ := of_decide_eq_true (Option.some.inj hfacts)
  obtain rfl := ok_of_toOption hpeeked
  obtain rfl := ok_of_toOption hdrawn
  have hanswers := split hat
  rw [split hat'] at hanswers
  have hquiet : ∀ step, .ok step ∈ (((Game.new .peeking).answers peekingGame
      (Script.ofWords [])).drop 14).take 12 → step.drawn = [] :=
    fun step hstep => hnone _ hstep step rfl
  exact ⟨_, _, _, peeked, drawn, _, _, hanswers, hshown, hquiet, hdraws,
    (hruns _ _ _ _ _ _ _ _ _ hanswers hshown hquiet).1 _ _ hdraws⟩

end SecretHitler
