import SecretHitler.Proofs.Soundness
import SecretHitler.Randomness.Script
/-!
# Nothing is lost, from any board

A game that is read from a file may be one that no play leads to: any thresholds,
any tracker, a government of nobody. What play does to it still loses no card and
no role. A game is balanced if its cards are somewhere, its roles cover the living
and one of them is Hitler, and every move keeps it balanced (`Moves.balanced`). With
the cards of the box that is coherence without the length of the draw pile
(`Balanced.violation_cases`). The length is what a move can break: a deck of two is
all that is left of some boards.

The cards of a deck are counted in 32-bit words, so a file may name a deck that passes
for one of the box and has more cards by a multiple of such a word. It keeps them too.
-/

namespace SecretHitler

/-- **A balanced board**, while some cards are held: its cards are somewhere, every
player has a role and one of them is Hitler. -/
structure Board.Balanced (number : Policy → ℕ) (b : Board) (held : List Policy) : Prop where
  cards : b.Holds number held
  covered : b.roles.seats = b.seating.seats
  hitler : b.roles.hitlers = 1

/-- A game whose board is balanced with the cards that its phase holds. -/
def Running.Balanced (number : Policy → ℕ) (g : Running) : Prop :=
  g.board.Balanced number g.phase.cards

/-! ## Coherence and balance -/

namespace Running

variable {g : Running} {number : Policy → ℕ} {p : Policy}

/-- The cards of a kind that there are in a game. -/
def total (g : Running) (p : Policy) : ℕ := g.board.total g.phase.cards p

/-- The count is right up to a word. -/
theorem cardCount_mod (g : Running) (p : Policy) :
    g.cardCount p % UInt32.size = g.total p % UInt32.size := by
  simp only [cardCount, total, Board.total, Deck.count, UInt32.size]
  omega

/-- What is truncated is not more than there is. -/
theorem cardCount_le (g : Running) (p : Policy) : g.cardCount p ≤ g.total p :=
  Nat.add_le_add_right (Nat.add_le_add_left (Nat.mod_le _ _) _) _

/-- A kind is in order exactly if the count is that of the box. -/
theorem cardViolation_eq_none_iff : g.cardViolation p = .ok none ↔ g.cardCount p = p.cards := by
  have hbox := p.cards_lt
  rw [cardViolation]
  split
  · rename_i hoverflow
    refine iff_of_false (fun h => ?_) fun h => by omega
    cases h
  · split
    · rename_i heq
      exact iff_of_true rfl heq
    · rename_i hne
      refine iff_of_false (fun h => ?_) hne
      cases h

/-- Cards that pass for those of the box are not found wrong, but if there are more of
them they may be too many to count. -/
theorem cardViolation_cases (h : g.total p % UInt32.size = p.cards) :
    g.cardViolation p = .ok none ∨ g.cardViolation p = .fail .overflow ∧ g.total p ≠ p.cards := by
  by_cases hmany : UInt32.size ≤ g.cardCount p
  · refine .inr ⟨if_pos hmany, fun heq => ?_⟩
    have hle : g.cardCount p ≤ p.cards := heq ▸ g.cardCount_le p
    exact Nat.not_lt.mpr (Nat.le_trans hmany hle) p.cards_lt
  · refine .inl (cardViolation_eq_none_iff.mpr ?_)
    rw [← h, ← cardCount_mod, Nat.mod_eq_of_lt (Nat.lt_of_not_le hmany)]

/-- **A coherent game is balanced**, and its cards pass for those of the box. They are
those of the box if its deck can be counted. -/
theorem balanced_of_violation (h : g.violation = .ok none) :
    g.Balanced g.total ∧ ∀ p, g.total p % UInt32.size = p.cards ∧
      (g.total p = p.cards ∨ UInt32.size ≤ g.board.deck.copies p) := by
  rw [violation] at h
  obtain ⟨liberal, hliberal, hrest⟩ := Attempt.bind_eq_ok.mp h
  cases liberal with
  | some v => cases hrest
  | none =>
    obtain ⟨fascist, hfascist, htable⟩ := Attempt.bind_eq_ok.mp hrest
    cases fascist with
    | some v => cases htable
    | none =>
      have hnone : g.tableViolation = none := Except.ok.inj htable
      rw [tableViolation] at hnone
      split at hnone
      · cases hnone
      split at hnone
      · cases hnone
      split at hnone
      · cases hnone
      rename_i hcovered hhitler
      refine ⟨⟨fun _ => rfl, not_not.mp hcovered, not_not.mp hhitler⟩, fun p => ?_⟩
      have hcount : g.cardCount p = p.cards := by
        cases p with
        | liberal => exact cardViolation_eq_none_iff.mp hliberal
        | fascist => exact cardViolation_eq_none_iff.mp hfascist
      refine ⟨?_, (Nat.lt_or_ge (g.board.deck.copies p) UInt32.size).imp_left fun hfits => ?_⟩
      · rw [← cardCount_mod, hcount, Nat.mod_eq_of_lt p.cards_lt]
      · rw [← hcount, cardCount, Deck.count_eq_copies hfits]
        rfl

/-- **A balanced game has one thing that can be wrong**: its draw pile. But if it has
cards that the box has not, they may be too many to count. -/
theorem Balanced.violation_cases (h : g.Balanced number)
    (hpass : ∀ p, number p % UInt32.size = p.cards) :
    g.violation = .ok (if g.board.deck.drawPile.length < standardDraw ∧ ¬ g.phase.isPolicyChoice
      then some (.drawPileTooSmall g.board.deck.drawPile.length) else none) ∨
    g.violation = .fail .overflow ∧ ∃ p, number p ≠ p.cards := by
  have htotal (p : Policy) : g.total p = number p := h.cards p
  have hcards (p : Policy) := cardViolation_cases (g := g) (p := p) (by rw [htotal, hpass])
  rw [violation]
  obtain hliberal | ⟨hliberal, hmore⟩ := hcards .liberal
  · obtain hfascist | ⟨hfascist, hmore⟩ := hcards .fascist
    · rw [hliberal, Attempt.ok_bind, hfascist, Attempt.ok_bind, tableViolation,
        if_neg (not_not.mpr h.covered), if_neg (not_not.mpr h.hitler)]
      exact .inl rfl
    · rw [hliberal, Attempt.ok_bind, hfascist]
      exact .inr ⟨rfl, _, htotal _ ▸ hmore⟩
  · rw [hliberal]
    exact .inr ⟨rfl, _, htotal _ ▸ hmore⟩

end Running

/-! ## Moves -/

namespace Board

variable {b : Board} {number : Policy → ℕ} {step : Step}

theorem Balanced.opened (h : b.Balanced number []) (next : Seat) :
    (b.opened next).Keeps (Running.Balanced number) :=
  Step.keeps_running.mpr ⟨h.cards, h.covered, h.hitler⟩

/-- The card that chaos draws is on the track. -/
theorem Collapses.balanced (h : b.Collapses step) (hb : b.Balanced number []) :
    step.Keeps (Running.Balanced number) := by
  cases h with
  | ended _ _ _ => exact trivial
  | @goesOn drawn track next hdeal hrise _ _ =>
    have hcards : (b.collapsed drawn.deck track).Holds number [] := (hb.cards.deal hdeal).enact hrise
    have hbalanced : (b.collapsed drawn.deck track).Balanced number [] :=
      ⟨hcards, hb.covered, hb.hitler⟩
    exact hbalanced.opened next

/-- A failed government puts a card on the track at most, and that from the deck. -/
theorem Fails.balanced (h : b.Fails step) (hb : b.Balanced number []) :
    step.Keeps (Running.Balanced number) := by
  cases h with
  | @counted failed next _ _ _ =>
    have hbalanced : Balanced number { b with election := { b.election with tracker := failed } } [] :=
      ⟨hb.cards, hb.covered, hb.hitler⟩
    exact hbalanced.opened next
  | collapsed _ _ hchaos => exact hchaos.balanced ⟨hb.cards, hb.covered, hb.hitler⟩

/-- The card that a chancellor held is on the track. -/
theorem Enacts.balanced {president : Seat} {p : Policy} (h : b.Enacts president p step)
    (hb : b.Balanced number [p]) : step.Keeps (Running.Balanced number) := by
  have governed {track : Track} (hrise : b.track.enact p = .ok track) :
      (b.governed track).Balanced number [] :=
    ⟨hb.cards.enact hrise, hb.covered, hb.hitler⟩
  cases h with
  | ended _ _ => exact trivial
  | goesOn hrise _ _ _ => exact (governed hrise).opened _
  | peeks hrise _ _ _ _ => exact (governed hrise).opened _
  | waits hrise _ _ _ => exact Step.keeps_running.mpr (governed hrise)

/-- The cards that a president draws are held. -/
theorem Resolves.balanced {g : Government} {votes : Votes} (h : b.Resolves g votes step)
    (hb : b.Balanced number []) : step.Keeps (Running.Balanced number) := by
  cases h with
  | hitlerElected _ _ => exact trivial
  | elected _ _ hdeal =>
    have hheld := hb.cards.deal hdeal
    rw [List.append_nil] at hheld
    exact Step.keeps_running.mpr ⟨hheld, hb.covered, hb.hitler⟩
  | rejected _ _ hfails => exact hfails.balanced hb

end Board

/-- **Every move keeps a game balanced.** -/
theorem Running.Moves.balanced {g : Running} {number : Policy → ℕ} {a : Action} {step : Step}
    (h : g.Moves a step) (hg : g.Balanced number) : step.Keeps (Running.Balanced number) := by
  obtain ⟨hcards, hcovered, hhitler⟩ := hg
  cases h with
  | nominate _ _ _ => exact Step.keeps_running.mpr ⟨hcards, hcovered, hhitler⟩
  | vote _ _ _ => exact Step.keeps_running.mpr ⟨hcards, hcovered, hhitler⟩
  | decide _ _ _ hresolves => exact hresolves.balanced ⟨hcards, hcovered, hhitler⟩
  | discard _ htake =>
    exact Step.keeps_running.mpr ⟨hcards.discard (Hand.perm_take htake), hcovered, hhitler⟩
  | enact _ _ htake henacts =>
    -- the other card goes to the deck, the chosen one is still held
    have hheld := (List.Perm.swap ..).trans (Agenda.perm_take htake)
    exact henacts.balanced ⟨hcards.discard hheld, hcovered, hhitler⟩
  | requestVeto _ _ => exact Step.keeps_running.mpr ⟨hcards, hcovered, hhitler⟩
  | refuseVeto _ => exact Step.keeps_running.mpr ⟨hcards, hcovered, hhitler⟩
  | approveVeto _ hrep _ hfails =>
    exact hfails.balanced ⟨hcards.discardAll.replenish hrep, hcovered, hhitler⟩
  | @investigate b _ target next _ _ _ _ _ _ _ _ _ =>
    have hbalanced : Board.Balanced number
        { b with investigated := b.investigated.insert target () } [] :=
      ⟨hcards, hcovered, hhitler⟩
    exact hbalanced.opened next
  | callElection _ _ _ => exact Step.keeps_running.mpr ⟨hcards, hcovered, hhitler⟩
  | killHitler _ _ _ _ => exact trivial
  | @kill b _ target next _ _ _ roles _ _ _ _ _ hroles hseats _ =>
    -- the seat is vacated on both maps, and a role map without Hitler is refused
    have hone : roles.hitlers = 1 := (RoleMap.ofTable_eq_ok.mp hroles).2
    have hbalanced : Board.Balanced number
        { b with seating := b.seating.without target, roles := roles } [] :=
      ⟨hcards, hseats, hone⟩
    exact hbalanced.opened next

/-- **Nothing is lost, from any board.** Whatever game under way is coherent, and
whatever action is carried out in it, all that can be wrong with what comes of it is
a draw pile that is too small: every card is accounted for, the roles cover exactly
the living, and one of them is Hitler. Only a game with more cards of a kind in its deck
than a word can count may have cards that the box has not, by a multiple of a word. It
keeps them as well, but they may be too many for the check. -/
theorem Running.violation_of_play {σ : Type} [RandomSource σ] {g : Running} {a : Action}
    {s t : σ} {step : Step} (hg : g.violation = .ok none)
    (hplay : Game.play (.running g) a s = (.ok step, t)) :
    (step.game.violation = .ok none ∨
      (∃ cards, step.game.violation = .ok (some (.drawPileTooSmall cards))) ∨
      step.game.violation = .fail .overflow ∧ ∃ p, UInt32.size ≤ g.board.deck.copies p) ∧
    ∀ g', step.game = .running g' →
      (∀ p, ((g'.board.track.count p).toNat + g'.board.deck.copies p + g'.phase.cards.count p =
          p.cards ∨ UInt32.size ≤ g.board.deck.copies p) ∧
        g'.total p = g.total p ∧ g'.total p % UInt32.size = p.cards) ∧
      g'.board.roles.seats = g'.board.seating.seats ∧ g'.board.roles.hitlers = 1 := by
  have hmove : g.Moves a step := Running.moves_of_play hplay
  obtain ⟨hbalanced, hpass⟩ := balanced_of_violation hg
  have hkeeps := hmove.balanced hbalanced
  refine ⟨?_, fun g' hg' => ?_⟩
  · obtain ⟨g', hg', hbalanced'⟩ | ⟨v, hv⟩ := hkeeps.cases
    · rw [hg', Game.violation]
      obtain hviolation | ⟨hoverflow, p, hmore⟩ :=
        hbalanced'.violation_cases fun p => (hpass p).1
      · split at hviolation
        · exact .inr (.inl ⟨_, hviolation⟩)
        · exact .inl hviolation
      · exact .inr (.inr ⟨hoverflow, p, (hpass p).2.resolve_left hmore⟩)
    · rw [hv]
      exact .inl rfl
  · have hbalanced' : g'.Balanced g.total := hkeeps.of_running hg'
    refine ⟨fun p => ?_, hbalanced'.covered, hbalanced'.hitler⟩
    have htotal : g'.total p = g.total p := hbalanced'.cards p
    exact ⟨(hpass p).2.imp_left htotal.trans, htotal, htotal ▸ (hpass p).1⟩

/-- A board that no rules lead to: all but three cards are on the track, and the
president is asked to agree to a veto of two of them. -/
def Running.spent : Running :=
  ⟨{ config := ⟨20, 20, none, 5, 1, 1, false, .empty⟩
     seating := ⟨.ofList [(⟨2⟩, "b"), (⟨7⟩, "g")]⟩
     roles := ⟨.ofList [(⟨2⟩, .hitler), (⟨7⟩, .liberal)]⟩
     track := ⟨6, 8⟩
     deck := ⟨[.fascist], []⟩
     election := .start ⟨9⟩
     investigated := .empty },
    .chancellorChoice ⟨⟨7⟩, ⟨2⟩⟩ ⟨.fascist, .fascist⟩ .requested⟩

/-- The veto leads to a reshuffle, chaos and a ninth policy, and leaves two cards to
draw. -/
theorem Running.violation_of_play_spent :
    spent.violation = .ok none ∧ ∃ step t,
      Game.play (.running spent) (.answerVeto "g" true) (Script.ofWords []) = (.ok step, t) ∧
      step.game.violation = .ok (some (.drawPileTooSmall 2)) ∧
      ∃ g', step.game = .running g' ∧
        (∀ p, (g'.board.track.count p).toNat + g'.board.deck.copies p + g'.phase.cards.count p =
          p.cards) ∧
        g'.board.roles.seats = g'.board.seating.seats ∧ g'.board.roles.hitlers = 1 := by
  have hcoherent : spent.violation = .ok none := by decide
  have hleft : (Game.play (.running spent) (.answerVeto "g" true) (Script.ofWords [])).1.map
      (·.game.violation) = .ok (.ok (some (.drawPileTooSmall 2))) := by
    decide +kernel
  rcases hplay : Game.play (.running spent) (.answerVeto "g" true) (Script.ofWords []) with
    ⟨cause | step, t⟩
  · rw [hplay] at hleft
    cases hleft
  rw [hplay] at hleft
  have hsmall : step.game.violation = .ok (some (.drawPileTooSmall 2)) := Except.ok.inj hleft
  refine ⟨hcoherent, step, t, rfl, hsmall, ?_⟩
  -- only a game under way has a draw pile
  cases hgame : step.game with
  | running g' =>
    obtain ⟨hcards, hcovered, hhitler⟩ := (Running.violation_of_play hcoherent hplay).2 g' hgame
    have hfits (p : Policy) : ¬ UInt32.size ≤ spent.board.deck.copies p := by cases p <;> decide
    exact ⟨g', rfl, fun p => (hcards p).1.resolve_right (hfits p), hcovered, hhitler⟩
  | lobby l => rw [hgame] at hsmall; cases hsmall
  | completed v => rw [hgame] at hsmall; cases hsmall

end SecretHitler
