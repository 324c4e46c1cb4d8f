import SecretHitler.Coherence
import SecretHitler.Proofs.Moves
/-!
# Sound games

The invariant of a game under way. A sound board is short of both goals and of
chaos, has distinct names, one role a living player, one Hitler and a full
draw; a sound phase awaits players who are there; and no card is ever lost.
One short of both goals the deck still holds six cards (`Sound.deck_size`),
which is why every draw leaves a full draw behind, even while a hand is out.

Every move keeps a game sound (`Running.Moves.sound`), and a sound game is
coherent (`Sound.violation_eq`).
-/

namespace SecretHitler

/-- The count at which a policy wins. -/
def Configuration.goal (c : Configuration) : Policy → UInt32
  | .liberal => c.liberalGoal
  | .fascist => c.fascistGoal

/-- **What a valid rule set promises of a configuration**: one short of both
goals, two full draws are left. -/
structure Configuration.Playable (c : Configuration) : Prop where
  goal_pos : ∀ p, 0 < c.goal p
  chaos_pos : 0 < c.chaosThreshold
  in_play : 2 * standardDraw + (c.liberalGoal.toNat - 1) + (c.fascistGoal.toNat - 1) ≤
    liberalCards + fascistCards

/-- A government of two players who are there. -/
structure Government.Seated (g : Government) (t : Seating) : Prop where
  president : g.president ∈ t.seats
  chancellor : g.chancellor ∈ t.seats
  distinct : g.chancellor ≠ g.president

namespace Board

variable {b : Board} {number : Policy → ℕ} {held : List Policy} {p : Policy} {track : Track}

/-- **A sound board.** -/
structure Sound (b : Board) : Prop where
  playable : b.config.Playable
  below : ∀ p, b.track.count p < b.config.goal p
  patient : b.election.tracker < b.config.chaosThreshold
  distinct : b.seating.Distinct
  covered : b.roles.seats = b.seating.seats
  hitler : b.roles.hitlers = 1
  stock : standardDraw ≤ b.deck.drawPile.length

/-- The cards of a kind on the track, in the deck and held. -/
def total (b : Board) (held : List Policy) (p : Policy) : ℕ :=
  (b.track.count p).toNat + b.deck.copies p + held.count p

/-- **A number of cards of each kind** is on the track, in the deck or held. -/
def Holds (number : Policy → ℕ) (b : Board) (held : List Policy) : Prop :=
  ∀ p, b.total held p = number p

/-- Every card of the box is. -/
def Accounts (b : Board) (held : List Policy) : Prop := b.Holds Policy.cards held

theorem mem_eligible_iff {candidate s : Seat} :
    s ∈ b.eligible candidate ↔
      s ∈ b.seating.seats ∧ s ≠ candidate ∧ b.election.isLimited s b.living = false := by
  simp [eligible]

theorem goalReached_eq_none : b.goalReached p = none ↔ b.track.count p < b.config.goal p := by
  cases p with
  | liberal | fascist => simp [goalReached, Configuration.goal, Track.count]

/-- **Six cards are always in play.** -/
theorem Sound.deck_size (h : b.Sound) (hcards : b.Accounts held) :
    2 * standardDraw ≤ b.deck.size + held.length := by
  have hl := h.below .liberal
  have hf := h.below .fascist
  have hlcards : b.total held .liberal = liberalCards := hcards .liberal
  have hfcards : b.total held .fascist = fascistCards := hcards .fascist
  have hplay := h.playable.in_play
  -- the counts are one short of the goals at most, and every card is somewhere
  rw [UInt32.lt_iff_toNat_lt] at hl hf
  rw [Deck.size_eq, Policy.length_eq held]
  simp only [Configuration.goal] at hl hf
  simp only [total] at hlcards hfcards
  omega

/-- No deck holds more than the box did. -/
theorem Accounts.deck_size_le (h : b.Accounts held) : b.deck.size ≤ liberalCards + fascistCards := by
  have hliberal : b.total held .liberal = liberalCards := h .liberal
  have hfascist : b.total held .fascist = fascistCards := h .fascist
  rw [Deck.size_eq]
  simp only [total] at hliberal hfascist
  omega

/-- A policy that does not win leaves every count below its goal. -/
theorem Sound.enact (h : b.Sound) (hrise : b.track.enact p = .ok track)
    (hgoal : goalReached { b with track := track } p = none) :
    ∀ q, track.count q < b.config.goal q := by
  intro q
  by_cases hq : q = p
  · rw [hq]
    exact goalReached_eq_none.mp hgoal
  · rw [Track.count_of_enact_of_ne hrise hq]
    exact h.below q

/-- A held card that is enacted is on the track. -/
theorem Holds.enact (h : b.Holds number (p :: held)) (hrise : b.track.enact p = .ok track) :
    Holds number { b with track := track } held := by
  intro q
  have hq := h q
  rw [total, List.count_cons] at hq
  by_cases hp : q = p
  · subst hp
    have := Track.count_of_enact hrise
    simp only [beq_self_eq_true, if_true] at hq
    show (track.count q).toNat + b.deck.copies q + held.count q = number q
    omega
  · rw [if_neg (by simpa using Ne.symm hp)] at hq
    show (track.count q).toNat + b.deck.copies q + held.count q = number q
    rw [Track.count_of_enact_of_ne hrise hp]
    exact hq

/-- Cards that are dealt are held. -/
theorem Holds.deal {deck : Deck} {reshuffled : Bool} {taken : List Policy}
    (h : b.Holds number held) (hdeal : b.deck.Deals taken deck reshuffled) :
    Holds number { b with deck := deck } (taken ++ held) := by
  intro p
  have := hdeal.copies_eq p
  have := h p
  simp only [total, List.count_append] at *
  omega

end Board

/-- A phase that awaits players who are there; a vote is open. -/
def Phase.Sound (t : Seating) : Phase → Prop
  | .nomination candidate => candidate ∈ t.seats
  | .voting g votes => g.Seated t ∧ votes.isComplete t = false
  | .presidentChoice g _ => g.Seated t
  | .chancellorChoice g _ _ => g.Seated t
  | .powerPending _ president => ∃ chancellor, Government.Seated ⟨president, chancellor⟩ t

/-- **A sound game.** -/
structure Running.Sound (g : Running) : Prop where
  board : g.board.Sound
  phase : g.phase.Sound g.board.seating
  cards : g.board.Accounts g.phase.cards

/-- In a sound game events report the length of the draw pile as it is. -/
theorem Running.Sound.toNat_drawSize {g : Running} (h : g.Sound) :
    g.board.deck.drawSize.toNat = g.board.deck.drawPile.length := by
  have hsize : g.board.deck.drawPile.length ≤ liberalCards + fascistCards :=
    Nat.le_trans (Nat.le_add_right ..) h.cards.deck_size_le
  exact Deck.toNat_drawSize (Nat.lt_of_le_of_lt hsize (by decide))

/-- A sound game is coherent. -/
theorem Running.Sound.violation_eq {g : Running} (h : g.Sound) : g.violation = .ok none := by
  have hcards : ∀ p, g.cardViolation p = .ok none := by
    intro p
    have hp : g.board.total g.phase.cards p = p.cards := h.cards p
    have hfits : g.board.deck.copies p < UInt32.size := by
      have hbox := p.cards_lt
      rw [Board.total] at hp
      omega
    have hcount : g.cardCount p = p.cards := by
      rw [cardCount, Deck.count_eq_copies hfits]
      exact hp
    rw [cardViolation, hcount, if_neg (Nat.not_le.mpr p.cards_lt), if_pos rfl]
  have htable : g.tableViolation = none := by
    rw [tableViolation, if_neg fun hshort => Nat.not_le.mpr hshort.1 h.board.stock,
      if_neg (not_not.mpr h.board.covered), if_neg (not_not.mpr h.board.hitler)]
  rw [violation, hcards, Attempt.ok_bind, hcards, Attempt.ok_bind, htable]
  rfl

namespace Board

variable {b : Board} {held : List Policy} {p : Policy} {track : Track} {step : Step}

/-- A turn that passes leaves a sound game. -/
theorem Sound.opened (h : b.Sound) (hcards : b.Accounts []) {next : Seat}
    (hnext : next ∈ b.seating.seats) : (b.opened next).Keeps Running.Sound :=
  Step.keeps_running.mpr ⟨{ h with }, hnext, hcards⟩

/-- Chaos does: one card leaves a deck of six. -/
theorem Collapses.sound (h : b.Collapses step) (hb : b.Sound) (hcards : b.Accounts []) :
    step.Keeps Running.Sound := by
  have hsize := hb.deck_size hcards
  cases h with
  | ended _ _ _ => simp
  | @goesOn drawn track next hdeal hrise hgoal hnext =>
    have hstock := hdeal.stock (by
      simp only [standardDraw, List.length_cons, List.length_nil] at hsize ⊢
      omega)
    have hsound : (b.collapsed drawn.deck track).Sound :=
      { hb with below := hb.enact hrise hgoal, stock := hstock }
    have hnone : (b.collapsed drawn.deck track).Accounts [] := (hcards.deal hdeal).enact hrise
    exact hsound.opened hnone (Seating.mem_seats_of_nextAfter hnext)

/-- A failed government does: the count stays below the threshold or starts
over. -/
theorem Fails.sound (h : b.Fails step) (hb : b.Sound) (hcards : b.Accounts []) :
    step.Keeps Running.Sound := by
  cases h with
  | @counted failed next _ hbelow hnext =>
    have hsound : Sound { b with election := { b.election with tracker := failed } } :=
      { hb with patient := hbelow }
    exact hsound.opened hcards (Seating.mem_seats_of_nextAfter hnext)
  | collapsed _ _ hchaos =>
    have hsound : Sound { b with election := b.election.reset.unlimit } :=
      { hb with patient := hb.playable.chaos_pos }
    exact hchaos.sound hsound hcards

/-- An enactment does: the card was held, and the deck is not touched. -/
theorem Enacts.sound {g : Government} (h : b.Enacts g.president p step) (hb : b.Sound)
    (hg : g.Seated b.seating) (hcards : b.Accounts [p]) : step.Keeps Running.Sound := by
  have governed {track : Track} (hrise : b.track.enact p = .ok track)
      (hgoal : (b.governed track).goalReached p = none) :
      (b.governed track).Sound ∧ (b.governed track).Accounts [] :=
    ⟨{ hb with below := hb.enact hrise hgoal, patient := hb.playable.chaos_pos },
      hcards.enact hrise⟩
  cases h with
  | ended _ _ => simp
  | goesOn hrise hgoal _ hnext =>
    obtain ⟨hsound, hnone⟩ := governed hrise hgoal
    exact hsound.opened hnone (Seating.mem_seats_of_nextAfter hnext)
  | peeks hrise hgoal _ _ hnext =>
    obtain ⟨hsound, hnone⟩ := governed hrise hgoal
    exact hsound.opened hnone (Seating.mem_seats_of_nextAfter hnext)
  | waits hrise hgoal _ _ =>
    obtain ⟨hsound, hnone⟩ := governed hrise hgoal
    exact Step.keeps_running.mpr ⟨hsound, ⟨g.chancellor, hg⟩, hnone⟩

/-- A decided vote does: a hand leaves a full draw of a deck of six. -/
theorem Resolves.sound {g : Government} {votes : Votes} (h : b.Resolves g votes step)
    (hb : b.Sound) (hg : g.Seated b.seating) (hcards : b.Accounts []) :
    step.Keeps Running.Sound := by
  have hsize := hb.deck_size hcards
  cases h with
  | hitlerElected _ _ => simp
  | elected _ _ hdeal =>
    have hstock := hdeal.stock (by
      simp only [standardDraw, Hand.length_toList, List.length_nil] at hsize ⊢
      omega)
    have hheld := hcards.deal hdeal
    rw [List.append_nil] at hheld
    exact Step.keeps_running.mpr ⟨{ hb with stock := hstock }, hg, hheld⟩
  | rejected _ _ hfails => exact hfails.sound hb hcards

end Board

theorem Hand.perm_take {h : Hand} {i : ℕ} {card : Policy} {agenda : Agenda}
    (htake : h.take i = some (card, agenda)) : (card :: agenda.toList).Perm h.toList := by
  match i, htake with
  | 0, htake => cases htake; exact .refl _
  | 1, htake => cases htake; exact .swap ..
  | 2, htake => cases htake; exact .trans (.swap ..) (.cons _ (.swap ..))

theorem Agenda.perm_take {a : Agenda} {i : ℕ} {card other : Policy}
    (htake : a.take i = some (card, other)) : [card, other].Perm a.toList := by
  match i, htake with
  | 0, htake => cases htake; exact .refl _
  | 1, htake => cases htake; exact .swap ..

namespace Board

variable {b : Board} {number : Policy → ℕ} {held rest : List Policy} {card : Policy}

/-- A held card that is discarded is in the deck. -/
theorem Holds.discard (h : b.Holds number held) (htake : (card :: rest).Perm held) :
    Holds number { b with deck := b.deck.discard card } rest := by
  intro p
  have := htake.count_eq p
  have := h p
  simp only [total, Deck.copies_discard, List.count_cons, List.count_nil] at *
  omega

/-- And so are all of them. -/
theorem Holds.discardAll (h : b.Holds number held) :
    Holds number { b with deck := b.deck.discardAll held } [] := by
  intro p
  have := h p
  simp only [total, Deck.copies_discardAll, List.count_nil] at *
  omega

/-- A shuffle loses none. -/
theorem Holds.replenish {deck : Deck} {reshuffled : Bool} (h : b.Holds number held)
    (hrep : b.deck.Replenished deck reshuffled) : Holds number { b with deck := deck } held := by
  intro p
  rw [← h p, total, hrep.copies_eq]
  rfl

/-- A deck that takes cards back has a full draw again. -/
theorem Sound.replenish {deck : Deck} {reshuffled : Bool} (h : b.Sound)
    (hrep : (b.deck.discardAll held).Replenished deck reshuffled) :
    Sound { b with deck := deck } := by
  refine { h with stock := hrep.stock ?_ }
  exact Nat.le_trans h.stock (Nat.le_add_right ..)

/-- A player whose role map still holds Hitler without it can be taken off a
sound board. -/
theorem Sound.kill (h : b.Sound) {target : Seat} {roles : RoleMap}
    (hroles : b.roles.without target = .ok roles)
    (hseats : roles.seats = (b.seating.without target).seats) :
    Sound { b with seating := b.seating.without target, roles := roles } := by
  obtain ⟨rfl, hone⟩ := RoleMap.ofTable_eq_ok.mp hroles
  exact { h with distinct := Seating.distinct_without h.distinct target, covered := hseats,
                 hitler := hone }

end Board

/-- **Every move keeps a game sound.** -/
theorem Running.Moves.sound {g : Running} {a : Action} {step : Step} (h : g.Moves a step)
    (hg : g.Sound) : step.Keeps Running.Sound := by
  obtain ⟨hb, hphase, hcards⟩ := hg
  cases h with
  | @nominate b candidate chancellor actor nominee _ hnominee heligible =>
    have hseated : Government.Seated ⟨candidate, chancellor⟩ b.seating :=
      ⟨hphase, Seating.mem_seats_of_seatOf? hnominee, (Board.mem_eligible_iff.mp heligible).2.1⟩
    -- nobody has voted yet, and the candidate is there to vote
    have hopen : Votes.none.isComplete b.seating = false :=
      List.all_eq_false.mpr ⟨candidate, hphase, nofun⟩
    exact Step.keeps_running.mpr ⟨hb, ⟨hseated, hopen⟩, hcards⟩
  | vote _ _ hopen => exact Step.keeps_running.mpr ⟨hb, ⟨hphase.1, hopen⟩, hcards⟩
  | decide _ _ _ hresolves => exact hresolves.sound hb hphase.1 hcards
  | discard _ htake =>
    exact Step.keeps_running.mpr
      ⟨{ hb with }, hphase, hcards.discard (Hand.perm_take htake)⟩
  | enact _ _ htake henacts =>
    -- the other card goes to the deck, the chosen one is still held
    have hheld := (List.Perm.swap ..).trans (Agenda.perm_take htake)
    exact henacts.sound { hb with } hphase (hcards.discard hheld)
  | requestVeto _ _ => exact Step.keeps_running.mpr ⟨hb, hphase, hcards⟩
  | refuseVeto _ => exact Step.keeps_running.mpr ⟨hb, hphase, hcards⟩
  | approveVeto _ hrep _ hfails =>
    exact hfails.sound (hb.replenish hrep) (hcards.discardAll.replenish hrep)
  | @investigate b president target _ _ _ _ _ _ _ _ _ hnext =>
    have hsound : Board.Sound { b with investigated := b.investigated.insert target () } :=
      { hb with }
    exact hsound.opened hcards (Seating.mem_seats_of_nextAfter hnext)
  | callElection _ hname _ =>
    exact Step.keeps_running.mpr ⟨hb, Seating.mem_seats_of_seatOf? hname, hcards⟩
  | killHitler _ _ _ _ => simp
  | kill _ _ _ _ _ hroles hseats hnext =>
    exact (hb.kill hroles hseats).opened hcards (Seating.mem_seats_of_nextAfter hnext)

end SecretHitler
