import SecretHitler.Proofs.Permission
import SecretHitler.Proofs.Soundness
/-!
# What is allowed happens

In a sound game nothing breaks: the counters are below their bounds, the deck
has its draw, the turn finds a player and every player has a role. An allowed
action of a sound game is carried out whatever the source of randomness yields
(`play_succeeds`); with `play_rejects` this decides every action.
-/

namespace SecretHitler

variable {σ : Type} [RandomSource σ]

/-- A count below some bound can be raised. -/
theorem Track.enact_succeeds {t : Track} {p : Policy} {bound : UInt32} (h : t.count p < bound) :
    (t.enact p).Succeeds := by
  cases p with
  | liberal | fascist =>
    exact (increment_succeeds h).bind fun _ _ => ⟨_, rfl⟩

namespace Board

variable {b : Board} {s : Seat} {p : Policy} {g : Government}

theorem nextElection_succeeds (h : s ∈ b.seating.seats) : b.nextElection.Succeeds := by
  obtain ⟨next, hnext⟩ := Seating.nextAfter_succeeds h b.election.ticker
  exact ⟨_, nextElection_eq_ok.mpr ⟨next, hnext, rfl⟩⟩

/-- So chaos can enact what has not won yet. -/
theorem enactByChaos_succeeds (h : b.track.count p < b.config.goal p) :
    (b.enactByChaos p).Succeeds := by
  refine (Track.enact_succeeds h).bind fun track _ => ?_
  dsimp only
  split
  · exact ⟨_, rfl⟩
  · exact ⟨_, rfl⟩

theorem afterChaos_succeeds {enacted : Enacted} (h : s ∈ b.seating.seats)
    (henacted : b.enactByChaos p = .ok enacted) : (afterChaos enacted).Succeeds := by
  obtain ⟨track, _, hend⟩ := Attempt.bind_eq_ok.mp henacted
  dsimp only at hend
  split at hend
  · cases hend
    exact ⟨_, rfl⟩
  · cases hend
    exact nextElection_succeeds h

/-- Chaos has a card to enact. -/
theorem countryInChaos_succeeds (hb : b.Sound) (hs : s ∈ b.seating.seats) :
    (b.countryInChaos : Draws σ Step).Succeeds := by
  have hcard : 1 ≤ b.deck.drawPile.length := Nat.le_trans (by decide) hb.stock
  refine .bind (Deck.drawSingle_succeeds hcard) fun drawn _ _ _ => ?_
  refine .bind (.lift ?_) fun report _ _ _ => ?_
  · exact (Track.enact_succeeds (hb.below drawn.cards)).bind fun _ _ => ⟨_, rfl⟩
  refine .bind (.lift (enactByChaos_succeeds (hb.below drawn.cards))) fun enacted _ _ h => ?_
  refine .bind (.lift ?_) fun _ _ _ _ => .pure _
  exact afterChaos_succeeds (b := { b with deck := drawn.deck }) hs (Prod.mk.inj h).1

/-- A failed government can be counted. -/
theorem afterFailedGovernment_succeeds (hb : b.Sound) (hs : s ∈ b.seating.seats) :
    (b.afterFailedGovernment : Draws σ Step).Succeeds := by
  have hfail : (b.election.fail b.config.chaosThreshold).Succeeds := by
    refine (increment_succeeds hb.patient).bind fun failed _ => ?_
    split
    · exact ⟨_, rfl⟩
    · exact ⟨_, rfl⟩
  refine .bind (.lift hfail) fun outcome _ _ houtcome => ?_
  obtain ⟨failed, _, hend⟩ := Attempt.bind_eq_ok.mp (Prod.mk.inj houtcome).1
  split at hend
  · cases hend
    have hsound : Sound { b with election := b.election.reset.unlimit } :=
      { hb with patient := hb.playable.chaos_pos }
    exact countryInChaos_succeeds hsound hs
  · cases hend
    exact .lift (nextElection_succeeds hs)

/-- A president's power can be handed over. -/
theorem activatePower_succeeds (hstock : standardDraw ≤ b.deck.drawPile.length)
    (hs : s ∈ b.seating.seats) (power : Power) (president : Seat) :
    (b.activatePower power president).Succeeds := by
  rw [activatePower]
  split
  · exact ⟨_, rfl⟩
  · refine (Deck.peek_succeeds hstock).bind fun hand _ => ?_
    exact (nextElection_succeeds hs).bind fun _ _ => ⟨_, rfl⟩

/-- A government can enact. -/
theorem enactByGovernment_succeeds (hb : b.Sound) (hs : s ∈ b.seating.seats) (president : Seat)
    (p : Policy) : (b.enactByGovernment president p).Succeeds := by
  obtain ⟨track, hrise⟩ := Track.enact_succeeds (hb.below p)
  refine Attempt.Succeeds.bind ⟨_, Attempt.bind_eq_ok.mpr ⟨track, hrise, rfl⟩⟩ fun report _ => ?_
  refine Attempt.Succeeds.bind ?_ fun enacted henacted => ?_
  · refine Attempt.Succeeds.bind ⟨track, hrise⟩ fun track _ => ?_
    dsimp only
    split
    · exact ⟨_, rfl⟩
    · split
      · exact ⟨_, rfl⟩
      · exact ⟨_, rfl⟩
  obtain ⟨track, _, hend⟩ := Attempt.bind_eq_ok.mp henacted
  dsimp only at hend
  split at hend
  · cases hend
    exact ⟨_, rfl⟩
  split at hend
  · cases hend
    have hactivate := activatePower_succeeds (b := b.governed track) hb.stock hs
    exact (hactivate _ president).bind fun _ _ => ⟨_, rfl⟩
  · cases hend
    have hnext := nextElection_succeeds (b := b.governed track) hs
    exact hnext.bind fun _ _ => ⟨_, rfl⟩

/-- The chancellor's role is known. -/
theorem hitlerElected_succeeds (hb : b.Sound) (hg : g.Seated b.seating) :
    (b.hitlerElected g).Succeeds := by
  rw [hitlerElected]
  split
  · have hrole : (b.roles.roleOf g.chancellor).Succeeds := by
      refine RoleMap.roleOf_succeeds ?_
      rw [hb.covered]
      exact hg.chancellor
    exact hrole.bind fun _ _ => ⟨_, rfl⟩
  · exact ⟨_, rfl⟩

/-- A vote can be decided. -/
theorem resolveVote_succeeds (hb : b.Sound) (hg : g.Seated b.seating) (votes : Votes) :
    (b.resolveVote g votes : Draws σ Step).Succeeds := by
  rw [resolveVote]
  split
  · refine .bind (.bind (.lift (hitlerElected_succeeds hb hg)) fun hitler _ _ _ => ?_)
      fun _ _ _ _ => .pure _
    split
    · exact .pure _
    · exact .bind (Deck.drawHand_succeeds hb.stock) fun _ _ _ _ => .pure _
  · refine .bind (.lift (increment_succeeds hb.patient)) fun _ _ _ _ => ?_
    exact .bind (afterFailedGovernment_succeeds hb hg.president) fun _ _ _ _ => .pure _

/-! ## The actions -/

theorem nominate_succeeds {candidate : Seat} {actor nominee : String}
    (h : Running.Allows ⟨b, .nomination candidate⟩ (.nominate actor nominee)) :
    (b.nominate candidate actor nominee).Succeeds := by
  obtain ⟨hactor, chancellor, heligible, hnominee⟩ := h
  rw [nominate, Seating.authorize_eq_ok.mpr ⟨hactor, rfl⟩, Attempt.ok_bind,
    Seating.target_eq_ok.mpr hnominee, Attempt.ok_bind]
  exact ⟨_, if_pos (by simpa using heligible)⟩

/-- A vote succeeds, and if it is the last one so does what it decides. -/
theorem castVote_succeeds {votes : Votes} {voter : String} {ballot : Ballot} (hb : b.Sound)
    (hg : g.Seated b.seating) (h : Running.Allows ⟨b, .voting g votes⟩ (.vote voter ballot)) :
    (b.castVote g votes voter ballot : Draws σ Step).Succeeds := by
  obtain ⟨seat, hvoter, hfresh⟩ := h
  have hcast : (votes.cast seat ballot).Succeeds := ⟨_, if_neg (by simp [hfresh])⟩
  rw [castVote, Attempt.orReject_eq_ok.mpr hvoter, Draws.lift_ok_bind]
  refine .bind (.lift hcast) fun votes' _ _ _ => ?_
  split
  · exact .bind (resolveVote_succeeds hb hg votes') fun _ _ _ _ => .pure _
  · exact .pure _

theorem presidentDiscard_succeeds {hand : Hand} {actor : String} {index : UInt64}
    (h : Running.Allows ⟨b, .presidentChoice g hand⟩ (.discard actor index)) :
    (b.presidentDiscard g hand actor index).Succeeds := by
  obtain ⟨hactor, hindex⟩ := h
  obtain ⟨taken, htake⟩ := hand.exists_take hindex
  rw [presidentDiscard, Seating.authorize_eq_ok.mpr ⟨hactor, rfl⟩, Attempt.ok_bind,
    Attempt.orReject_eq_ok.mpr htake, Attempt.ok_bind]
  exact ⟨_, rfl⟩

/-- An enactment succeeds, and so does the power that it unlocks. -/
theorem chancellorEnact_succeeds {agenda : Agenda} {veto : VetoStatus} {actor : String}
    {index : UInt64} (hb : b.Sound) (hg : g.Seated b.seating)
    (h : Running.Allows ⟨b, .chancellorChoice g agenda veto⟩ (.enact actor index)) :
    (b.chancellorEnact g agenda veto actor index).Succeeds := by
  obtain ⟨hactor, hveto, hindex⟩ := h
  obtain ⟨⟨card, other⟩, htake⟩ := agenda.exists_take hindex
  have hsound : Sound { b with deck := b.deck.discard other } := { hb with }
  rw [chancellorEnact, Seating.authorize_eq_ok.mpr ⟨hactor, rfl⟩, Attempt.ok_bind,
    if_neg hveto, Attempt.orReject_eq_ok.mpr htake, Attempt.ok_bind]
  exact enactByGovernment_succeeds hsound hg.president g.president card

theorem requestVeto_succeeds {agenda : Agenda} {veto : VetoStatus} {actor : String}
    (h : Running.Allows ⟨b, .chancellorChoice g agenda veto⟩ (.requestVeto actor)) :
    (b.requestVeto g agenda veto actor).Succeeds := by
  obtain ⟨hactor, rfl, hunlocked⟩ := h
  unfold requestVeto
  rw [Seating.authorize_eq_ok.mpr ⟨hactor, rfl⟩, Attempt.ok_bind]
  exact ⟨_, if_pos hunlocked⟩

/-- An answer succeeds, and with it the chaos that an approved veto may bring. -/
theorem answerVeto_succeeds {agenda : Agenda} {veto : VetoStatus} {actor : String}
    {approved : Bool} (hb : b.Sound) (hg : g.Seated b.seating)
    (h : Running.Allows ⟨b, .chancellorChoice g agenda veto⟩ (.answerVeto actor approved)) :
    (b.answerVeto g agenda veto actor approved : Draws σ Step).Succeeds := by
  obtain ⟨hactor, rfl⟩ := h
  rw [answerVeto, Seating.authorize_eq_ok.mpr ⟨hactor, rfl⟩, Draws.lift_ok_bind,
    if_neg (not_not.mpr rfl)]
  cases approved with
  | false => exact .pure _
  | true =>
    refine .bind (.draw _) fun drawn _ _ hdeck => ?_
    obtain ⟨deck, reshuffled⟩ := drawn
    refine .bind (.lift (increment_succeeds hb.patient)) fun _ _ _ _ => ?_
    -- nothing of the agenda is lost, so the board is as sound as before
    have hsound : Sound { b with deck := deck } := hb.replenish (Deck.replenished_of_draw hdeck)
    exact .bind (afterFailedGovernment_succeeds hsound hg.president) fun _ _ _ _ => .pure _

/-- A player who is not Hitler can be killed, and Hitler too. -/
theorem execute_succeeds {president target : Seat} (hb : b.Sound)
    (hpresident : president ∈ b.seating.seats) (htarget : target ∈ b.seating.seats)
    (hother : target ≠ president) : (b.execute target).Succeeds := by
  refine Attempt.Succeeds.bind (RoleMap.roleOf_succeeds (hb.covered ▸ htarget)) fun role hrole => ?_
  split
  · exact ⟨_, rfl⟩
  rename_i hhitler
  -- whoever dies is not Hitler, so the roles that are left hold one Hitler still
  have hroles : b.roles.without target = .ok ⟨b.roles.roles.erase target⟩ := by
    refine RoleMap.ofTable_eq_ok.mpr ⟨rfl, ?_⟩
    rw [RoleMap.hitlers_erase (RoleMap.roleOf_eq_ok.mp hrole) hhitler, hb.hitler]
  have hseats : (⟨b.roles.roles.erase target⟩ : RoleMap).seats =
      (b.seating.without target).seats := by
    have := hb.covered
    simp only [RoleMap.seats, Seating.seats, Seating.without, Table.keys_erase] at this ⊢
    rw [this]
  have hremains : president ∈ (b.seating.without target).seats :=
    Seating.mem_seats_without.mpr ⟨hpresident, Ne.symm hother⟩
  rw [hroles, Attempt.ok_bind]
  refine Attempt.Succeeds.bind ⟨(), if_pos hseats⟩ fun _ _ => ?_
  exact (nextElection_succeeds hremains).bind fun _ _ => ⟨_, rfl⟩

/-- A power that is aimed at somebody finds a role there. -/
theorem usePower_succeeds {pending power : PendingPower} {president : Seat} {actor name : String}
    (hb : b.Sound) (hpresident : president ∈ b.seating.seats)
    (h : Running.Allows ⟨b, .powerPending pending president⟩ (.usePower power actor name)) :
    (b.usePower pending president power actor name).Succeeds := by
  obtain ⟨rfl, hactor, target, htarget, hname⟩ := h
  obtain ⟨hseat, hother, hfresh⟩ := mem_targets_iff.mp htarget
  rw [usePower, if_neg (not_not.mpr rfl), Seating.authorize_eq_ok.mpr ⟨hactor, rfl⟩,
    Attempt.ok_bind, Seating.target_eq_ok.mpr hname, Attempt.ok_bind, if_neg hother]
  cases power with
  | investigateParty =>
    have hparty := RoleMap.partyOf_succeeds (hb.covered ▸ hseat)
    rw [investigate, if_neg (by simp [hfresh rfl])]
    have hnext := nextElection_succeeds
      (b := { b with investigated := b.investigated.insert target () }) hpresident
    exact hparty.bind fun party _ => hnext.bind fun _ _ => ⟨_, rfl⟩
  | specialElection => exact ⟨_, rfl⟩
  | execution => exact execute_succeeds hb hpresident hseat hother

end Board

/-- **What is allowed happens**, whatever the source yields. -/
theorem Running.play_succeeds {g : Running} {a : Action} (hg : g.Sound) (h : g.Allows a) :
    (g.play a : Draws σ Step).Succeeds := by
  obtain ⟨b, phase⟩ := g
  obtain ⟨hb, hphase, hcards⟩ := hg
  cases phase with
  | nomination candidate =>
    cases a with
    | nominate actor nominee => exact .lift (Board.nominate_succeeds h)
    | _ => exact absurd h id
  | voting government votes =>
    cases a with
    | vote voter ballot => exact Board.castVote_succeeds hb hphase.1 h
    | _ => exact absurd h id
  | presidentChoice government hand =>
    cases a with
    | discard actor index => exact .lift (Board.presidentDiscard_succeeds h)
    | _ => exact absurd h id
  | chancellorChoice government agenda veto =>
    cases a with
    | enact actor index => exact .lift (Board.chancellorEnact_succeeds hb hphase h)
    | requestVeto actor => exact .lift (Board.requestVeto_succeeds h)
    | answerVeto actor approved => exact Board.answerVeto_succeeds hb hphase h
    | _ => exact absurd h id
  | powerPending power president =>
    cases a with
    | usePower power' actor name =>
      obtain ⟨chancellor, hseated⟩ := hphase
      exact .lift (Board.usePower_succeeds hb hseated.president h)
    | _ => exact absurd h id

/-- **An action of a sound game is carried out exactly if it is allowed.** -/
theorem Running.play_eq_ok_iff {g : Running} {a : Action} (hg : g.Sound) (s : σ) :
    (∃ step t, g.play a s = (.ok step, t)) ↔ g.Allows a := by
  constructor
  · rintro ⟨step, t, h⟩
    by_contra hforbidden
    exact (play_rejects hforbidden).ne_ok h
  · intro h
    exact play_succeeds hg h s

end SecretHitler
