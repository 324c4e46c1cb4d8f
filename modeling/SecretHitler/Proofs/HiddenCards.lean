import SecretHitler.Proofs.Secrecy
/-!
# Hidden cards stay hidden

Two games that differ in nothing but which policy each card is, played by the same
actions on the same luck, cannot be told apart by anybody who is not shown a card, as
long as neither breaks and both enact the same policies. A shuffle moves cards by
their places and so takes the same luck of both; a hand or an agenda is chosen from
by position. What is enacted is where the cards come out: the card that a chancellor
picks, and the top card in chaos.

Two computations `Cover` the cards if they break, or end alike and leave the source
alike. Steps are `Parallel` if they are alike as soon as they enact the same; each
transition is one lemma that keeps them so, built along its own steps.
-/

namespace SecretHitler

/-! ## Games that differ in their cards -/

/-- Decks whose piles are equally high. -/
structure Deck.SameSize (d d' : Deck) : Prop where
  drawPile : d.drawPile.length = d'.drawPile.length
  discardPile : d.discardPile.length = d'.discardPile.length

/-- A board with another deck. -/
def Board.withDeck (b : Board) (d : Deck) : Board := { b with deck := d }

/-- Phases that agree on everything but the cards that are held. -/
inductive Phase.SameButCards : Phase → Phase → Prop
  | nomination (candidate : Seat) : SameButCards (.nomination candidate) (.nomination candidate)
  | voting (government : Government) (votes : Votes) :
      SameButCards (.voting government votes) (.voting government votes)
  | presidentChoice (government : Government) (hand hand' : Hand) :
      SameButCards (.presidentChoice government hand) (.presidentChoice government hand')
  | chancellorChoice (government : Government) (agenda agenda' : Agenda) (veto : VetoStatus) :
      SameButCards (.chancellorChoice government agenda veto)
        (.chancellorChoice government agenda' veto)
  | powerPending (power : PendingPower) (president : Seat) :
      SameButCards (.powerPending power president) (.powerPending power president)

theorem Phase.SameButCards.refl (phase : Phase) : phase.SameButCards phase := by
  cases phase with
  | nomination candidate => exact .nomination candidate
  | voting government votes => exact .voting government votes
  | presidentChoice government hand => exact .presidentChoice government hand hand
  | chancellorChoice government agenda veto => exact .chancellorChoice government agenda agenda veto
  | powerPending power president => exact .powerPending power president

/-- **Games under way that agree on everything but which policy each card is.** -/
inductive Running.SameButCards : Running → Running → Prop
  | dealt (b : Board) {d : Deck} {phase phase' : Phase} : b.deck.SameSize d →
      phase.SameButCards phase' → SameButCards ⟨b, phase⟩ ⟨b.withDeck d, phase'⟩

/-- Games that agree on everything but which policy each card is, under way or over. -/
inductive Game.SameButCards : Game → Game → Prop
  | playing {g g' : Running} : g.SameButCards g' → SameButCards (.running g) (.running g')
  | ended (v : Victory) : SameButCards (.completed v) (.completed v)

/-- **Events that agree on everything but the cards that somebody is shown.** -/
inductive Event.SameButCards : Event → Event → Prop
  | same (e : Event) : SameButCards e e
  | drawn (president : Seat) (hand hand' : Hand) :
      SameButCards (.policiesDrawn president hand) (.policiesDrawn president hand')
  | passed (chancellor : Seat) (agenda agenda' : Agenda) :
      SameButCards (.policiesPassed chancellor agenda) (.policiesPassed chancellor agenda')
  | peeked (president : Seat) (hand hand' : Hand) :
      SameButCards (.policyPeek president hand) (.policyPeek president hand')

/-- What an enactment leads to, but for the cards. -/
inductive Enacted.SameButCards : Enacted → Enacted → Prop
  | gameOver (v : Victory) : SameButCards (.gameOver v) (.gameOver v)
  | continues (b : Board) {d : Deck} : b.deck.SameSize d →
      SameButCards (.continues b) (.continues (b.withDeck d))
  | unlocks (b : Board) {d : Deck} (power : Power) : b.deck.SameSize d →
      SameButCards (.unlocks b power) (.unlocks (b.withDeck d) power)

/-- Draws that agree on everything but the cards. -/
structure Drawn.SameButCards {α : Type} (drawn drawn' : Drawn α) : Prop where
  deck : drawn.deck.SameSize drawn'.deck
  reshuffled : drawn.reshuffled = drawn'.reshuffled

/-- **Steps that cannot be told apart**, but for the cards that somebody is shown. -/
structure Step.AlikeButCards (step step' : Step) : Prop where
  game : step.game.SameButCards step'.game
  events : List.Forall₂ Event.SameButCards step.events step'.events

/-- The policy that an event reports as enacted. -/
@[simp] def Event.enacted : Event → Option Policy
  | policyEnacted policy _ _ _ => some policy
  | _ => none

/-- **The policies that a step enacts**, by a government or by chaos. -/
def Step.enacted (step : Step) : List Policy := step.events.filterMap Event.enacted

/-- The policies that an answer enacts. -/
def Attempt.enacted : Attempt Step → List Policy
  | .ok step => step.enacted
  | .error _ => []

/-- Steps that cannot be told apart, but for the cards, if they enact the same. -/
def Step.Parallel (step step' : Step) : Prop :=
  step.enacted = step'.enacted → step.AlikeButCards step'

namespace Event.SameButCards

variable {e e' : Event} {events events' : List Event}

theorem refl_list (events : List Event) : List.Forall₂ SameButCards events events :=
  List.forall₂_same.mpr fun e _ => .same e

/-- Events that differ in cards nobody saw enact the same. -/
theorem enacted_eq (h : e.SameButCards e') : e.enacted = e'.enacted := by
  cases h with
  | same e => rfl
  | drawn _ _ _ | passed _ _ _ | peeked _ _ _ => rfl

theorem filterMap_enacted_eq (h : List.Forall₂ SameButCards events events') :
    events.filterMap Event.enacted = events'.filterMap Event.enacted := by
  induction h with
  | nil => rfl
  | cons he _ ih => rw [List.filterMap_cons, List.filterMap_cons, he.enacted_eq, ih]

end Event.SameButCards

namespace Step

variable {step step' : Step} {events events' : List Event} {game game' : Game}

@[simp] theorem enacted_after :
    (step.after events).enacted = events.filterMap Event.enacted ++ step.enacted :=
  List.filterMap_append

/-- Reports that agree but for the cards lead to games that do. -/
theorem parallel_of_game (hgame : game.SameButCards game')
    (hevents : List.Forall₂ Event.SameButCards events events') :
    Parallel ⟨game, events⟩ ⟨game', events'⟩ :=
  fun _ => ⟨hgame, hevents⟩

/-- What is reported first enacts the same. -/
theorem Parallel.after (h : step.Parallel step')
    (hevents : List.Forall₂ Event.SameButCards events events') :
    (step.after events).Parallel (step'.after events') := by
  intro henacted
  rw [enacted_after, enacted_after, Event.SameButCards.filterMap_enacted_eq hevents,
    List.append_cancel_left_eq] at henacted
  exact ⟨(h henacted).game, List.rel_append hevents (h henacted).events⟩

end Step

/-! ## Computations that cover the cards -/

namespace Attempt

variable {α β : Type} {R : α → α → Prop} {S : β → β → Prop}

/-- Whether an attempt breaks. -/
abbrev Breaks (x : Attempt α) : Prop := x.Tells fun _ => False

/-- **Attempts that cover the cards**: unless one of them breaks, they end alike. -/
abbrev Covers (R : α → α → Prop) (x x' : Attempt α) : Prop := x.Hides (fun _ => False) R x'

/-- Two attempts that agree so far may go on, as long as their values go together. -/
theorem Covers.bind {x x' : Attempt α} {f f' : α → Attempt β} (h : Covers R x x')
    (hf : ∀ a a', R a a' → Covers S (f a) (f' a')) : Covers S (x >>= f) (x' >>= f') :=
  Hides.bind h (fun _ => False.elim) hf

/-- Two attempts that refuse nothing agree where both have a value. -/
theorem covers_of_not_rejects {x x' : Attempt α} (hx : ¬ x.Rejects) (hx' : ¬ x'.Rejects)
    (h : ∀ a a', x = .ok a → x' = .ok a' → R a a') : Covers R x x' :=
  hides_of_not_rejects hx hx' fun a a' ha ha' => .inr (.inr (h a a' ha ha'))

/-- What is reported of parallel steps keeps them parallel. -/
theorem Covers.after {x x' : Attempt Step} (h : Covers Step.Parallel x x')
    {events events' : List Event} (hevents : List.Forall₂ Event.SameButCards events events') :
    Covers Step.Parallel (x >>= fun step => pure (step.after events))
      (x' >>= fun step => pure (step.after events')) :=
  Covers.bind h fun _ _ hparallel => .ok (hparallel.after hevents)

end Attempt

namespace Draws

variable {σ α β : Type} {R : α → α → Prop} {S : β → β → Prop}

/-- **Computations that cover the cards**: unless one of them breaks, they end alike
and leave the source alike. -/
abbrev Covers (R : α → α → Prop) (x x' : Draws σ α) : Prop := x.Hides (fun _ => False) R x'

/-- The same for computations that draw alike. -/
theorem Covers.bind {x x' : Draws σ α} {f f' : α → Draws σ β} (h : Covers R x x')
    (hf : ∀ a a', R a a' → Covers S (f a) (f' a')) : Covers S (x >>= f) (x' >>= f') :=
  Hides.bind h (fun _ => False.elim) hf

/-- What is reported of parallel steps keeps them parallel. -/
theorem Covers.after {x x' : Draws σ Step} (h : Covers Step.Parallel x x')
    {events events' : List Event} (hevents : List.Forall₂ Event.SameButCards events events') :
    Covers Step.Parallel (x >>= fun step => pure (step.after events))
      (x' >>= fun step => pure (step.after events')) :=
  Covers.bind h fun _ _ hparallel => hides_pure (hparallel.after hevents)

/-- Two attempts in a row draw as little as one. -/
theorem lift_bind (x : Attempt α) (f : α → Attempt β) :
    (liftM (x >>= f) : Draws σ β) = (liftM x : Draws σ α) >>= fun a => liftM (f a) := by
  funext s
  rw [bind_apply, lift_apply, lift_apply]
  cases x <;> rfl

end Draws

/-! ## The deck -/

namespace RandomSource

variable {σ : Type} [RandomSource σ]

/-- How much luck a shuffle takes is a matter of how much it shuffles. -/
theorem shuffleTo_source {α : Type} (i : ℕ) (a a' : Array α) (s : σ) :
    (shuffleTo i a s).2 = (shuffleTo i a' s).2 := by
  induction i generalizing a a' s with
  | zero => rfl
  | succ i ih => exact ih _ _ _

/-- **A shuffle takes as much luck as there are cards**, whatever they are. -/
theorem shuffle_source {α : Type} {l l' : List α} (h : l.length = l'.length) (s : σ) :
    (shuffle l s).2 = (shuffle l' s).2 := by
  simp only [shuffle, h]
  exact shuffleTo_source _ _ _ s

end RandomSource

namespace Deck.SameSize

variable {σ : Type} [RandomSource σ] {d d' : Deck}

theorem discard (h : d.SameSize d') (p p' : Policy) : (d.discard p).SameSize (d'.discard p') :=
  ⟨h.drawPile, by simp [Deck.discard, h.discardPile]⟩

theorem discardAll (h : d.SameSize d') {ps ps' : List Policy} (hps : ps.length = ps'.length) :
    (d.discardAll ps).SameSize (d'.discardAll ps') :=
  ⟨h.drawPile, by simp [Deck.discardAll, h.discardPile, hps]⟩

/-- A reshuffle reports how long the pile is, and no card of it. -/
theorem reshuffleEvents_eq (h : d.SameSize d') (reshuffled : Bool) :
    Board.reshuffleEvents d reshuffled = Board.reshuffleEvents d' reshuffled := by
  simp only [Board.reshuffleEvents, drawSize, h.drawPile]

/-- Decks of one size are replenished at once, by the same shuffle. -/
theorem replenish (h : d.SameSize d') :
    Draws.Covers (fun x x' => x.1.SameSize x'.1 ∧ x.2 = x'.2)
      (.draw d.replenish : Draws σ (Deck × Bool)) (.draw d'.replenish) := by
  intro s
  rw [Draws.draw_apply, Draws.draw_apply, Deck.replenish, Deck.replenish, h.drawPile]
  split
  · exact .inr (.inr ⟨.carriedOut ⟨h, rfl⟩, rfl⟩)
  · have hlength : (d.drawPile ++ d.discardPile).length =
        (d'.drawPile ++ d'.discardPile).length := by
      rw [List.length_append, List.length_append, h.drawPile, h.discardPile]
    have hsame : (RandomSource.shuffle (d.drawPile ++ d.discardPile) s).1.length =
        (RandomSource.shuffle (d'.drawPile ++ d'.discardPile) s).1.length := by
      rw [(RandomSource.shuffle_perm _ s).length_eq, (RandomSource.shuffle_perm _ s).length_eq,
        hlength]
    exact .inr (.inr ⟨.carriedOut ⟨⟨hsame, rfl⟩, rfl⟩, RandomSource.shuffle_source hlength s⟩)

/-- Decks of one size yield a hand together or not at all. -/
theorem drawHand (h : d.SameSize d') :
    Draws.Covers Drawn.SameButCards (d.drawHand : Draws σ (Drawn Hand)) d'.drawHand := by
  obtain ⟨pile, discards⟩ := d
  obtain ⟨pile', discards'⟩ := d'
  obtain ⟨hpile, hdiscards⟩ := h
  match pile, pile', hpile with
  | a :: b :: c :: rest, a' :: b' :: c' :: rest', hpile =>
    have hrest : SameSize ⟨rest, discards⟩ ⟨rest', discards'⟩ := ⟨by simpa using hpile, hdiscards⟩
    exact Draws.Covers.bind hrest.replenish fun x x' hx => Draws.hides_pure ⟨hx.1, hx.2⟩
  | [], _, _ | [_], _, _ | [_, _], _, _ => exact fun _ => .inl trivial

theorem drawSingle (h : d.SameSize d') :
    Draws.Covers Drawn.SameButCards (d.drawSingle : Draws σ (Drawn Policy)) d'.drawSingle := by
  obtain ⟨pile, discards⟩ := d
  obtain ⟨pile', discards'⟩ := d'
  obtain ⟨hpile, hdiscards⟩ := h
  match pile, pile', hpile with
  | a :: rest, a' :: rest', hpile =>
    have hrest : SameSize ⟨rest, discards⟩ ⟨rest', discards'⟩ := ⟨by simpa using hpile, hdiscards⟩
    exact Draws.Covers.bind hrest.replenish fun x x' hx => Draws.hides_pure ⟨hx.1, hx.2⟩
  | [], _, _ => exact fun _ => .inl trivial

end Deck.SameSize

/-! ## The transitions -/

namespace Board

variable {σ : Type} [RandomSource σ] {b : Board} {d : Deck}

theorem nextElection_covers (h : b.deck.SameSize d) :
    b.nextElection.Covers Step.Parallel (b.withDeck d).nextElection :=
  Attempt.hides_bind fun election => .ok (Step.parallel_of_game
    (.playing (.dealt { b with election := election } h (.nomination _)))
    (Event.SameButCards.refl_list _))

/-- An enactment looks at no card but the one that is enacted. -/
theorem enactByChaos_covers (h : b.deck.SameSize d) (p : Policy) :
    (b.enactByChaos p).Covers Enacted.SameButCards ((b.withDeck d).enactByChaos p) := by
  refine Attempt.hides_bind fun track => ?_
  have hgoal : goalReached { b.withDeck d with track := track } p =
      goalReached { b with track := track } p := rfl
  dsimp only
  rw [hgoal]
  cases goalReached { b with track := track } p with
  | some v => exact .ok (.gameOver v)
  | none => exact .ok (.continues { b with track := track } h)

theorem enactByVote_covers (h : b.deck.SameSize d) (p : Policy) :
    (b.enactByVote p).Covers Enacted.SameButCards ((b.withDeck d).enactByVote p) := by
  refine Attempt.hides_bind fun track => ?_
  have hgoal : goalReached { b.withDeck d with track := track } p =
      goalReached { b with track := track } p := rfl
  have hpower : unlocked { b.withDeck d with track := track } p =
      unlocked { b with track := track } p := rfl
  dsimp only
  rw [hgoal, hpower]
  cases goalReached { b with track := track } p with
  | some v => exact .ok (.gameOver v)
  | none =>
    cases unlocked { b with track := track } p with
    | some power => exact .ok (.unlocks { b with track := track } power h)
    | none => exact .ok (.continues { b with track := track } h)

theorem afterChaos_covers {enacted enacted' : Enacted} (h : enacted.SameButCards enacted') :
    (afterChaos enacted).Covers Step.Parallel (afterChaos enacted') := by
  cases h with
  | gameOver v =>
    exact .ok (Step.parallel_of_game (.ended v) (Event.SameButCards.refl_list _))
  | continues b hdeck => exact nextElection_covers hdeck
  | unlocks b power hdeck => exact nextElection_covers hdeck

/-- What chaos does once a card is drawn. -/
def collapse (b : Board) (p : Policy) (events : List Event) : Attempt Step := do
  let report ← b.enactedEvent p .chaos
  let enacted ← b.enactByChaos p
  let step ← afterChaos enacted
  return step.after (events ++ [report])

/-- Chaos is a draw, and then what the card makes of it. -/
theorem countryInChaos_eq (b : Board) :
    (b.countryInChaos : Draws σ Step) = b.deck.drawSingle >>= fun drawn =>
      liftM (collapse { b with deck := drawn.deck } drawn.cards
        (.countryInChaos drawn.cards :: reshuffleEvents drawn.deck drawn.reshuffled)) := by
  simp only [collapse, Draws.lift_bind]
  rfl

theorem not_rejects_collapse (b : Board) (p : Policy) (events : List Event) :
    ¬ (b.collapse p events).Rejects :=
  Attempt.not_rejects_bind (b.not_rejects_enactedEvent p _) fun _ =>
    Attempt.not_rejects_bind (b.not_rejects_enactByChaos p) fun enacted =>
    Attempt.not_rejects_bind (not_rejects_afterChaos enacted) fun _ => Attempt.not_rejects_ok _

/-- The turn passes without an enactment. -/
theorem enacted_of_nextElection {step : Step} (h : b.nextElection = .ok step) :
    step.enacted = [] := by
  obtain ⟨next, _, rfl⟩ := nextElection_eq_ok.mp h
  rfl

/-- Chaos enacts the card that is drawn. -/
theorem enacted_of_collapse {p : Policy} {events : List Event} {step : Step}
    (h : b.collapse p events = .ok step) (hevents : events.filterMap Event.enacted = []) :
    step.enacted = [p] := by
  obtain ⟨report, hreport, hrest⟩ := Attempt.bind_eq_ok.mp h
  obtain ⟨enacted, _, hrest⟩ := Attempt.bind_eq_ok.mp hrest
  obtain ⟨last, hlast, hret⟩ := Attempt.bind_eq_ok.mp hrest
  obtain ⟨track, _, hreport⟩ := Attempt.bind_eq_ok.mp hreport
  have hnone : last.enacted = [] := by
    cases enacted with
    | gameOver v =>
      cases hlast
      rfl
    | continues b | unlocks b power => exact enacted_of_nextElection hlast
  cases hreport
  cases hret
  simp [hevents, hnone]

/-- The same card enacts the same. -/
theorem collapse_covers (h : b.deck.SameSize d) (p : Policy) (events : List Event) :
    (b.collapse p events).Covers Step.Parallel ((b.withDeck d).collapse p events) := by
  have hreport : (b.withDeck d).enactedEvent p .chaos = b.enactedEvent p .chaos := rfl
  rw [collapse, collapse, hreport]
  refine Attempt.hides_bind fun report => ?_
  refine Attempt.Covers.bind (enactByChaos_covers h p) fun enacted enacted' hsame => ?_
  exact Attempt.Covers.after (afterChaos_covers hsame) (Event.SameButCards.refl_list _)

/-- **Chaos covers the cards**: the one that it draws is the one that it enacts. -/
theorem countryInChaos_covers (h : b.deck.SameSize d) :
    (b.countryInChaos : Draws σ Step).Covers Step.Parallel (b.withDeck d).countryInChaos := by
  rw [countryInChaos_eq, countryInChaos_eq]
  refine Draws.Covers.bind h.drawSingle fun drawn drawn' hdrawn => Draws.hides_lift ?_
  have hquiet (drawn : Drawn Policy) : (Event.countryInChaos drawn.cards ::
      reshuffleEvents drawn.deck drawn.reshuffled).filterMap Event.enacted = [] := by
    cases hreshuffled : drawn.reshuffled <;> simp [reshuffleEvents]
  by_cases hcard : drawn.cards = drawn'.cards
  · rw [← hcard, ← hdrawn.reshuffled, ← hdrawn.deck.reshuffleEvents_eq]
    exact collapse_covers hdrawn.deck drawn.cards _
  · refine Attempt.covers_of_not_rejects (not_rejects_collapse _ _ _) (not_rejects_collapse _ _ _)
      fun step step' hstep hstep' henacted => ?_
    rw [enacted_of_collapse hstep (hquiet drawn), enacted_of_collapse hstep' (hquiet drawn')]
      at henacted
    exact absurd (List.cons.inj henacted).1 hcard

/-- The deck has no part in counting failures. -/
theorem afterFailedGovernment_covers (h : b.deck.SameSize d) :
    (b.afterFailedGovernment : Draws σ Step).Covers Step.Parallel
      (b.withDeck d).afterFailedGovernment := by
  refine Draws.hides_bind fun failed => ?_
  cases failed with
  | advanced election =>
    exact Draws.hides_lift (nextElection_covers (b := { b with election := election }) h)
  | chaos election =>
    exact countryInChaos_covers (b := { b with election := election.unlimit }) h

/-- A peek shows cards to one player, and the rest sees that it happens. -/
theorem activatePower_covers (h : b.deck.SameSize d) (power : Power) (president : Seat) :
    (b.activatePower power president).Covers Step.Parallel
      ((b.withDeck d).activatePower power president) := by
  rw [activatePower, activatePower]
  cases power.pending with
  | some pending =>
    exact .ok (Step.parallel_of_game (.playing (.dealt b h (.powerPending pending president)))
      (Event.SameButCards.refl_list _))
  | none =>
    refine Attempt.Covers.bind (R := fun _ _ => True) ?_ fun hand hand' _ => ?_
    · exact Attempt.covers_of_not_rejects (Deck.not_rejects_peek _) (Deck.not_rejects_peek _)
        fun _ _ _ _ => trivial
    · exact Attempt.Covers.after (nextElection_covers h)
        (.cons (.same _) (.cons (.peeked president hand hand') .nil))

/-- A government enacts the card that it is given. -/
theorem Enacts.enacted {president : Seat} {p : Policy} {step : Step}
    (h : b.Enacts president p step) : step.enacted = [p] := by
  cases h with
  | ended _ _ | goesOn _ _ _ _ | peeks _ _ _ _ _ => rfl
  | waits _ _ _ _ => rfl

/-- **A government covers the cards**, up to the one that it enacts. -/
theorem enactByGovernment_covers (h : b.deck.SameSize d) (president : Seat) (p p' : Policy) :
    (b.enactByGovernment president p).Covers Step.Parallel
      ((b.withDeck d).enactByGovernment president p') := by
  by_cases hcard : p = p'
  · subst hcard
    refine Attempt.hides_bind fun report => ?_
    refine Attempt.Covers.bind (enactByVote_covers (b := { b with election := b.election.reset }) h p)
      fun enacted enacted' hsame => ?_
    cases hsame with
    | gameOver v =>
      exact .ok (Step.parallel_of_game (.ended v) (Event.SameButCards.refl_list _))
    | continues b hdeck =>
      exact Attempt.Covers.after (nextElection_covers hdeck) (Event.SameButCards.refl_list _)
    | unlocks b power hdeck =>
      exact Attempt.Covers.after (activatePower_covers hdeck power president)
        (Event.SameButCards.refl_list _)
  · refine Attempt.covers_of_not_rejects (not_rejects_enactByGovernment _ _ _)
      (not_rejects_enactByGovernment _ _ _) fun step step' hstep hstep' henacted => ?_
    rw [(enacts_of_enactByGovernment hstep).enacted, (enacts_of_enactByGovernment hstep').enacted]
      at henacted
    exact absurd (List.cons.inj henacted).1 hcard

/-- An elected president draws from either deck. -/
theorem elected_covers (h : b.deck.SameSize d) (g : Government) :
    (b.elected g : Draws σ Step).Covers Step.Parallel ((b.withDeck d).elected g) := by
  have hhitler : (b.withDeck d).hitlerElected g = b.hitlerElected g := rfl
  rw [elected, elected, hhitler]
  refine Draws.hides_bind fun hitler => ?_
  split
  · exact Draws.hides_pure (Step.parallel_of_game (.ended _) (Event.SameButCards.refl_list _))
  · refine Draws.Covers.bind h.drawHand fun drawn drawn' hdrawn => ?_
    rw [← hdrawn.reshuffled, ← hdrawn.deck.reshuffleEvents_eq]
    refine Draws.hides_pure (Step.parallel_of_game ?_ ?_)
    · exact .playing (.dealt { b with election := b.election.limit g, deck := drawn.deck }
        hdrawn.deck (.presidentChoice g drawn.cards drawn'.cards))
    · exact .cons (.drawn g.president drawn.cards drawn'.cards) (Event.SameButCards.refl_list _)

theorem resolveVote_covers (h : b.deck.SameSize d) (g : Government) (votes : Votes) :
    (b.resolveVote g votes : Draws σ Step).Covers Step.Parallel
      ((b.withDeck d).resolveVote g votes) := by
  rw [resolveVote, resolveVote]
  split
  · exact Draws.Covers.after (elected_covers h g) (Event.SameButCards.refl_list _)
  · exact Draws.hides_bind fun tracker =>
      Draws.Covers.after (afterFailedGovernment_covers h) (Event.SameButCards.refl_list _)

/-- A vote is counted without a look at the deck. -/
theorem castVote_covers (h : b.deck.SameSize d) (g : Government) (votes : Votes)
    (voter : String) (ballot : Ballot) :
    (b.castVote g votes voter ballot : Draws σ Step).Covers Step.Parallel
      ((b.withDeck d).castVote g votes voter ballot) := by
  refine Draws.hides_bind fun seat => Draws.hides_bind fun votes' => ?_
  have hcomplete : votes'.isComplete (b.withDeck d).seating = votes'.isComplete b.seating := rfl
  rw [hcomplete]
  split
  · exact Draws.Covers.after (resolveVote_covers h g votes') (Event.SameButCards.refl_list _)
  · exact Draws.hides_pure (Step.parallel_of_game (.playing (.dealt b h (.voting g votes')))
      (Event.SameButCards.refl_list _))

theorem nominate_covers (h : b.deck.SameSize d) (candidate : Seat) (actor nominee : String) :
    (b.nominate candidate actor nominee).Covers Step.Parallel
      ((b.withDeck d).nominate candidate actor nominee) := by
  refine Attempt.hides_bind fun president => Attempt.hides_bind fun chancellor => ?_
  have heligible : (b.withDeck d).eligible president = b.eligible president := rfl
  rw [heligible]
  split
  · exact .ok (Step.parallel_of_game (.playing (.dealt b h (.voting _ _)))
      (Event.SameButCards.refl_list _))
  · exact .inr (.inr (.refused _))

/-- A hand is chosen from by position. -/
theorem covers_takeHand (hand hand' : Hand) (index : UInt64) :
    Attempt.Covers (fun _ _ => True) (.orReject (.invalidPolicyIndex index) (hand.take index.toNat))
      (.orReject (.invalidPolicyIndex index) (hand'.take index.toNat)) := by
  match index.toNat with
  | 0 | 1 | 2 => exact .ok trivial
  | _ + 3 => exact .inr (.inr (.refused _))

/-- The same for the two cards of a chancellor. -/
theorem covers_takeAgenda (agenda agenda' : Agenda) (index : UInt64) :
    Attempt.Covers (fun _ _ => True)
      (.orReject (.invalidPolicyIndex index) (agenda.take index.toNat))
      (.orReject (.invalidPolicyIndex index) (agenda'.take index.toNat)) := by
  match index.toNat with
  | 0 | 1 => exact .ok trivial
  | _ + 2 => exact .inr (.inr (.refused _))

/-- Which card a president discards is not seen. -/
theorem presidentDiscard_covers (h : b.deck.SameSize d) (g : Government) (hand hand' : Hand)
    (actor : String) (index : UInt64) :
    (b.presidentDiscard g hand actor index).Covers Step.Parallel
      ((b.withDeck d).presidentDiscard g hand' actor index) := by
  refine Attempt.hides_bind fun _ =>
    Attempt.Covers.bind (covers_takeHand hand hand' index) fun taken taken' _ => .ok ?_
  refine Step.parallel_of_game (.playing ?_) (.cons (.passed _ taken.2 taken'.2) .nil)
  exact .dealt { b with deck := b.deck.discard taken.1 } (h.discard taken.1 taken'.1)
    (.chancellorChoice g taken.2 taken'.2 .notRequested)

/-- Which card a chancellor enacts is: the games part here, unless it is the same. -/
theorem chancellorEnact_covers (h : b.deck.SameSize d) (g : Government)
    (agenda agenda' : Agenda) (veto : VetoStatus) (actor : String) (index : UInt64) :
    (b.chancellorEnact g agenda veto actor index).Covers Step.Parallel
      ((b.withDeck d).chancellorEnact g agenda' veto actor index) := by
  refine Attempt.hides_bind fun _ => ?_
  split
  · exact .inr (.inr (.refused _))
  · exact Attempt.Covers.bind (covers_takeAgenda agenda agenda' index) fun taken taken' _ =>
      enactByGovernment_covers (b := { b with deck := b.deck.discard taken.2 })
        (h.discard taken.2 taken'.2) g.president taken.1 taken'.1

theorem requestVeto_covers (h : b.deck.SameSize d) (g : Government) (agenda agenda' : Agenda)
    (veto : VetoStatus) (actor : String) :
    (b.requestVeto g agenda veto actor).Covers Step.Parallel
      ((b.withDeck d).requestVeto g agenda' veto actor) := by
  refine Attempt.hides_bind fun _ => ?_
  have hunlocked : (b.withDeck d).config.vetoUnlocked (b.withDeck d).track.fascist =
      b.config.vetoUnlocked b.track.fascist := rfl
  cases veto with
  | requested | rejected => exact .inr (.inr (.refused _))
  | notRequested =>
    dsimp only
    rw [hunlocked]
    split
    · exact .ok (Step.parallel_of_game
        (.playing (.dealt b h (.chancellorChoice g agenda agenda' .requested)))
        (Event.SameButCards.refl_list _))
    · exact .inr (.inr (.refused _))

/-- An approved veto discards two cards that nobody else has seen. -/
theorem answerVeto_covers (h : b.deck.SameSize d) (g : Government) (agenda agenda' : Agenda)
    (veto : VetoStatus) (actor : String) (approved : Bool) :
    (b.answerVeto g agenda veto actor approved : Draws σ Step).Covers Step.Parallel
      ((b.withDeck d).answerVeto g agenda' veto actor approved) := by
  refine Draws.hides_bind fun _ => ?_
  split
  · exact fun _ => .inr (.inr ⟨.refused _, rfl⟩)
  cases approved with
  | false =>
    exact Draws.hides_pure (Step.parallel_of_game
      (.playing (.dealt b h (.chancellorChoice g agenda agenda' .rejected)))
      (Event.SameButCards.refl_list _))
  | true =>
    -- both cards are laid down, whichever they are
    have hlaid : (b.deck.discardAll agenda.toList).SameSize (d.discardAll agenda'.toList) :=
      h.discardAll rfl
    refine Draws.Covers.bind hlaid.replenish fun x x' hx => Draws.hides_bind fun tracker => ?_
    rw [← hx.2, ← hx.1.reshuffleEvents_eq]
    exact Draws.Covers.after (afterFailedGovernment_covers (b := { b with deck := x.1 }) hx.1)
      (Event.SameButCards.refl_list _)

theorem investigate_covers (h : b.deck.SameSize d) (president target : Seat) :
    (b.investigate president target).Covers Step.Parallel
      ((b.withDeck d).investigate president target) := by
  have hknown : (b.withDeck d).investigated = b.investigated := rfl
  rw [investigate, investigate, hknown]
  split
  · exact .inr (.inr (.refused _))
  · exact Attempt.hides_bind fun party => Attempt.Covers.after
      (nextElection_covers (b := { b with investigated := b.investigated.insert target () }) h)
      (Event.SameButCards.refl_list _)

theorem execute_covers (h : b.deck.SameSize d) (target : Seat) :
    (b.execute target).Covers Step.Parallel ((b.withDeck d).execute target) := by
  refine Attempt.hides_bind fun role => ?_
  split
  · exact .ok (Step.parallel_of_game (.ended _) (Event.SameButCards.refl_list _))
  · exact Attempt.hides_bind fun roles => Attempt.hides_bind fun _ => Attempt.Covers.after
      (nextElection_covers
        (b := { b with seating := b.seating.without target, roles := roles }) h)
      (Event.SameButCards.refl_list _)

/-- A power is aimed at players, not at cards. -/
theorem usePower_covers (h : b.deck.SameSize d) (pending : PendingPower) (owner : Seat)
    (power : PendingPower) (actor target : String) :
    (b.usePower pending owner power actor target).Covers Step.Parallel
      ((b.withDeck d).usePower pending owner power actor target) := by
  rw [usePower, usePower]
  split
  · exact .inr (.inr (.refused _))
  refine Attempt.hides_bind fun president => Attempt.hides_bind fun seat => ?_
  split
  · exact .inr (.inr (.refused _))
  cases power with
  | investigateParty => exact investigate_covers h president seat
  | specialElection =>
    exact .ok (Step.parallel_of_game (.playing (.dealt b h (.nomination seat)))
      (Event.SameButCards.refl_list _))
  | execution => exact execute_covers h seat

end Board

/-! ## Actions -/

variable {σ : Type} [RandomSource σ]

/-- **An action does the same in two games that agree but for their cards**, as far as it
enacts the same. -/
theorem Running.SameButCards.play_covers {g g' : Running} (h : g.SameButCards g') (a : Action) :
    (g.play a : Draws σ Step).Covers Step.Parallel (g'.play a) := by
  have hnotAwaited : (Draws.of (.reject .notAwaited) : Draws σ Step).Covers Step.Parallel
      (Draws.of (.reject .notAwaited)) := fun _ => .inr (.inr ⟨.refused _, rfl⟩)
  obtain ⟨b, hdeck, hphase⟩ := h
  cases hphase with
  | nomination candidate =>
    cases a with
    | nominate actor nominee =>
      exact Draws.hides_lift (Board.nominate_covers hdeck candidate actor nominee)
    | _ => exact hnotAwaited
  | voting government votes =>
    cases a with
    | vote voter ballot => exact Board.castVote_covers hdeck government votes voter ballot
    | _ => exact hnotAwaited
  | presidentChoice government hand hand' =>
    cases a with
    | discard actor index =>
      exact Draws.hides_lift (Board.presidentDiscard_covers hdeck government hand hand' actor index)
    | _ => exact hnotAwaited
  | chancellorChoice government agenda agenda' veto =>
    cases a with
    | enact actor index =>
      exact Draws.hides_lift
        (Board.chancellorEnact_covers hdeck government agenda agenda' veto actor index)
    | requestVeto actor =>
      exact Draws.hides_lift (Board.requestVeto_covers hdeck government agenda agenda' veto actor)
    | answerVeto actor approved =>
      exact Board.answerVeto_covers hdeck government agenda agenda' veto actor approved
    | _ => exact hnotAwaited
  | powerPending pending president =>
    cases a with
    | usePower power actor name =>
      exact Draws.hides_lift (Board.usePower_covers hdeck pending president power actor name)
    | _ => exact hnotAwaited

namespace Game

variable {g g' : Game}

namespace SameButCards

/-- **Cards take no part in what may be done.** -/
theorem legalActions_eq (h : g.SameButCards g') : g.legalActions = g'.legalActions := by
  cases h with
  | ended v => rfl
  | playing hrunning =>
    obtain ⟨b, _, hphase⟩ := hrunning
    cases hphase with
    | chancellorChoice government agenda agenda' veto => cases veto <;> rfl
    | _ => rfl

theorem play_covers (h : g.SameButCards g') (a : Action) :
    (g.play a : Draws σ Step).Covers Step.Parallel (g'.play a) := by
  cases h with
  | playing hrunning => exact hrunning.play_covers a
  | ended v => exact fun _ => .inr (.inr ⟨.refused _, rfl⟩)

/-- **An action tells nothing of the cards** but what it enacts, unless it breaks. -/
theorem apply_covers (h : g.SameButCards g') (a : Action) :
    (g.apply a : Draws σ Step).Covers Step.Parallel (g'.apply a) := by
  refine Draws.Covers.bind (h.play_covers a) fun step step' hparallel => ?_
  refine Draws.Covers.bind (R := fun _ _ => True) (Draws.hides_lift ?_) fun found found' _ => ?_
  · exact Attempt.covers_of_not_rejects (not_rejects_violation _) (not_rejects_violation _)
      fun _ _ _ _ => trivial
  · cases found with
    | some v => exact fun _ => .inl trivial
    | none =>
      cases found' with
      | some v => exact fun _ => .inr (.inl trivial)
      | none => exact Draws.hides_pure hparallel

end SameButCards

end Game

/-! ## Runs -/

/-- The seat that an event shows cards to. -/
@[simp] def Event.holder : Event → Option Seat
  | policiesDrawn president _ => some president
  | policyPeek president _ => some president
  | policiesPassed chancellor _ => some chancellor
  | _ => none

/-- What a player is shown does not tell, unless it is a card. -/
theorem Event.SameButCards.filter_visibleTo {events events' : List Event} {seat : Seat}
    (h : List.Forall₂ Event.SameButCards events events')
    (hseat : ∀ e ∈ events, e.holder ≠ some seat) :
    events.filter (·.visibleTo seat) = events'.filter (·.visibleTo seat) := by
  refine Event.filter_visibleTo_eq h fun e he e' hsame => ?_
  cases hsame with
  | same e => exact .inl rfl
  | drawn owner _ _ | passed owner _ _ | peeked owner _ _ =>
    have hother : (owner == seat) = false :=
      beq_eq_false_iff_ne.mpr fun heq => hseat _ he (congrArg some heq)
    exact .inr ⟨hother, hother⟩

/-- **Answers that cannot be told apart without a look at the cards**: refused for one
reason, or carried out with one outcome but for the cards, the same actions to follow
and the same events but for the cards in them, which only the player who is shown them
can tell. -/
inductive Game.IndistinctButCards : Attempt Step → Attempt Step → Prop
  | refused (cause : Rejection) :
      IndistinctButCards (.error (.rejected cause)) (.error (.rejected cause))
  | carriedOut {step step' : Step} :
      step.game.SameButCards step'.game → step.game.legalActions = step'.game.legalActions →
      List.Forall₂ Event.SameButCards step.events step'.events →
      (∀ seat, (∀ e ∈ step.events, e.holder ≠ some seat) →
        step.eventsFor seat = step'.eventsFor seat) →
      IndistinctButCards (.ok step) (.ok step')

namespace Game

variable {g g' : Game} {s : σ}

/-- **Runs that enact the same answer alike**, as long as they do not break. -/
theorem SameButCards.answers (h : g.SameButCards g') {actions : List Action}
    (hwhole : ∀ answer ∈ g.answers actions s, ¬ answer.Breaks)
    (hwhole' : ∀ answer ∈ g'.answers actions s, ¬ answer.Breaks)
    (henacted : (g.answers actions s).map Attempt.enacted =
      (g'.answers actions s).map Attempt.enacted) :
    List.Forall₂ IndistinctButCards (g.answers actions s) (g'.answers actions s) := by
  induction actions generalizing g g' s with
  | nil => exact .nil
  | cons a rest ih =>
    obtain ⟨hfirst, hrest⟩ := List.cons.inj henacted
    have hlater : ∀ answer ∈ (g.next (g.apply a s).1).answers rest (g.apply a s).2,
        ¬ answer.Breaks := fun answer hmem => hwhole answer (.tail _ hmem)
    have hlater' : ∀ answer ∈ (g'.next (g'.apply a s).1).answers rest (g'.apply a s).2,
        ¬ answer.Breaks := fun answer hmem => hwhole' answer (.tail _ hmem)
    rcases h.apply_covers a s with hbreaks | hbreaks | ⟨halike, hsource⟩
    · exact absurd hbreaks (hwhole _ (.head _))
    · exact absurd hbreaks (hwhole' _ (.head _))
    rw [Game.answers, Game.answers]
    -- both runs go on from the same source
    rw [← hsource] at hrest hlater' ⊢
    generalize (g.apply a s).1 = answer at *
    generalize (g'.apply a s).1 = answer' at *
    cases halike with
    | refused cause => exact .cons (.refused cause) (ih h hlater hlater' hrest)
    | @carriedOut step step' hparallel =>
      have hsame : step.AlikeButCards step' := hparallel hfirst
      exact .cons (.carriedOut hsame.game hsame.game.legalActions_eq hsame.events fun seat hseat =>
        Event.SameButCards.filter_visibleTo hsame.events hseat) (ih hsame.game hlater hlater' hrest)

end Game

/-- **Hidden cards do not leak.** Two games under way that differ in nothing but which
policy each card is allow the same actions; and as long as the answers to the same
actions on the same luck break in neither run, and enact the same policies at the same
steps, nobody can tell them apart who is not shown a card. -/
theorem Running.SameButCards.answers_indistinctButCards {g g' : Running} (h : g.SameButCards g')
    (actions : List Action) (s : σ) :
    (Game.running g).legalActions = (Game.running g').legalActions ∧
    ∀ k,
      (∀ answer ∈ ((Game.running g).answers actions s).take k, ¬ answer.Breaks) →
      (∀ answer ∈ ((Game.running g').answers actions s).take k, ¬ answer.Breaks) →
      (((Game.running g).answers actions s).take k).map Attempt.enacted =
        (((Game.running g').answers actions s).take k).map Attempt.enacted →
      List.Forall₂ Game.IndistinctButCards (((Game.running g).answers actions s).take k)
        (((Game.running g').answers actions s).take k) := by
  have hsame : (Game.running g).SameButCards (.running g') := .playing h
  refine ⟨hsame.legalActions_eq, fun k hwhole hwhole' henacted => ?_⟩
  rw [Game.answers_take] at hwhole hwhole' henacted ⊢
  rw [Game.answers_take] at henacted ⊢
  exact hsame.answers hwhole hwhole' henacted

/-- A game whose draw pile is turned upside down. -/
def Running.upsideDown (g : Running) : Running :=
  ⟨g.board.withDeck { g.board.deck with drawPile := g.board.deck.drawPile.reverse }, g.phase⟩

/-- A deck turned upside down has as many cards. -/
theorem Running.sameButCards_upsideDown (g : Running) : g.SameButCards g.upsideDown :=
  .dealt g.board ⟨List.length_reverse.symm, rfl⟩ (.refl g.phase)

/-- Two governments are elected and enact a policy each; somebody who may not act is
refused. -/
def coveredGame : List Action :=
  [[.nominate "a" "b"], Lobby.ofFive.ballots .yes, [.discard "a" 0, .enact "b" 0],
    [.nominate "b" "c"], Lobby.ofFive.ballots .yes,
    [.enact "c" 0, .discard "b" 0, .enact "c" 0]].flatten

/-- Two coherent games whose second presidents draw different hands: what the
government is shown is all that differs. -/
theorem Running.SameButCards.answers_indistinctButCards_covered :
    ∃ g : Running, (Game.new .standard).fed (Lobby.ofFive.players.map .join ++ [.start "a"])
        (Script.ofWords []) = .running g ∧
      g.violation = .ok none ∧ g.upsideDown.violation = .ok none ∧ g.SameButCards g.upsideDown ∧
      (Game.running g).answers coveredGame (Script.ofWords []) ≠
        (Game.running g.upsideDown).answers coveredGame (Script.ofWords []) ∧
      List.Forall₂ Game.IndistinctButCards
        (((Game.running g).answers coveredGame (Script.ofWords [])).take 17)
        (((Game.running g.upsideDown).answers coveredGame (Script.ofWords [])).take 17) := by
  have hfacts : ((Game.new .standard).fed (Lobby.ofFive.players.map .join ++ [.start "a"])
      (Script.ofWords [])).running?.map (fun g => decide
        ((g.violation = .ok none ∧ g.upsideDown.violation = .ok none ∧
          (Game.running g).answers coveredGame (Script.ofWords []) ≠
            (Game.running g.upsideDown).answers coveredGame (Script.ofWords [])) ∧
        (∀ answer ∈ ((Game.running g).answers coveredGame (Script.ofWords [])).take 17,
          ¬ answer.Breaks) ∧
        (∀ answer ∈ ((Game.running g.upsideDown).answers coveredGame (Script.ofWords [])).take 17,
          ¬ answer.Breaks) ∧
        (((Game.running g).answers coveredGame (Script.ofWords [])).take 17).map Attempt.enacted =
          (((Game.running g.upsideDown).answers coveredGame (Script.ofWords [])).take 17).map
            Attempt.enacted)) = some true := by
    decide +kernel
  obtain ⟨g, hrunning, hdecided⟩ := Option.map_eq_some_iff.mp hfacts
  obtain ⟨⟨hcoherent, hcoherent', hdiffer⟩, hwhole, hwhole', henacted⟩ :=
    of_decide_eq_true hdecided
  exact ⟨g, Game.running?_eq_some_iff.mp hrunning, hcoherent, hcoherent',
    g.sameButCards_upsideDown, hdiffer,
    (Running.SameButCards.answers_indistinctButCards g.sameButCards_upsideDown coveredGame
      (Script.ofWords [])).2 17 hwhole hwhole' henacted⟩

end SecretHitler
