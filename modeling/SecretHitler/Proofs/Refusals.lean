import SecretHitler.Play.Apply
import SecretHitler.Proofs.Outcome
/-!
# What is never refused

Only what a player asks for is refused. What the rules do by themselves, once an
action is under way, has a value or breaks: policies are enacted, cards are drawn,
powers are handed out, the turn passes and the outcome is checked without a single
rejection.
-/

namespace SecretHitler

namespace Attempt

variable {α β : Type}

theorem not_rejects_ok (a : α) : ¬ Rejects (.ok a : Attempt α) := by
  rintro ⟨cause, h⟩
  cases h

/-- To break off is not to refuse. -/
theorem not_rejects_fail (f : Fault) : ¬ Rejects (fail f : Attempt α) := by
  rintro ⟨cause, h⟩
  cases h

/-- What is missing where it must not be is a fault. -/
theorem not_rejects_orFail (f : Fault) (o : Option α) : ¬ (orFail f o).Rejects := by
  rintro ⟨cause, h⟩
  cases o <;> cases h

/-- Parts that are not refused make up a whole that is not. -/
theorem not_rejects_bind {x : Attempt α} {f : α → Attempt β} (hx : ¬ x.Rejects)
    (hf : ∀ a, ¬ (f a).Rejects) : ¬ Attempt.Rejects (x >>= f) := by
  rintro ⟨cause, h⟩
  rcases x with halt | a
  · exact hx ⟨cause, congrArg Except.error (Except.error.inj h)⟩
  · exact hf a ⟨cause, h⟩

end Attempt

namespace Draws

variable {σ α β : Type}

/-- A computation that is not refused, whatever it draws. -/
def NeverRejects (x : Draws σ α) : Prop := ∀ s, ¬ (x s).1.Rejects

namespace NeverRejects

theorem lift {x : Attempt α} (h : ¬ x.Rejects) : NeverRejects (liftM x : Draws σ α) := fun _ => h

theorem pure (a : α) : NeverRejects (Pure.pure a : Draws σ α) := fun _ => Attempt.not_rejects_ok a

theorem draw (f : σ → α × σ) : NeverRejects (Draws.draw f) := fun _ => Attempt.not_rejects_ok _

/-- A computation refuses nothing if its parts do not. -/
theorem bind {x : Draws σ α} {f : α → Draws σ β} (hx : x.NeverRejects)
    (hf : ∀ a, (f a).NeverRejects) : NeverRejects (x >>= f) := by
  rintro s ⟨cause, h⟩
  rw [bind_apply] at h
  rcases hs : x s with ⟨halt | a, t⟩
  · rw [hs] at h
    exact hx s ⟨cause, by rw [hs]; exact congrArg Except.error (Except.error.inj h)⟩
  · rw [hs] at h
    exact hf a t ⟨cause, h⟩

end NeverRejects

end Draws

namespace RoleMap

/-- A seat without a role is a fault. -/
theorem not_rejects_roleOf (m : RoleMap) (s : Seat) : ¬ (m.roleOf s).Rejects :=
  Attempt.not_rejects_orFail _ _

theorem not_rejects_partyOf (m : RoleMap) (s : Seat) : ¬ (m.partyOf s).Rejects :=
  Attempt.not_rejects_bind (m.not_rejects_roleOf s) fun _ => Attempt.not_rejects_ok _

/-- Roles without their one Hitler are a fault. -/
theorem not_rejects_ofTable (roles : Table Seat Role) : ¬ (ofTable roles).Rejects := by
  rw [ofTable]
  split
  · exact Attempt.not_rejects_ok _
  · exact Attempt.not_rejects_fail _

theorem not_rejects_without (m : RoleMap) (s : Seat) : ¬ (m.without s).Rejects :=
  not_rejects_ofTable _

/-- The roles are dealt. -/
theorem deal_neverRejects {σ : Type} [RandomSource σ] (seats : List Seat) (fascists : Nat) :
    (deal seats fascists : Draws σ RoleMap).NeverRejects := by
  rw [deal]
  split
  · exact .bind (.draw _) fun order => .lift (not_rejects_ofTable _)
  · exact fun _ => Attempt.not_rejects_fail _

end RoleMap

/-- Names that are not distinct are a fault. -/
theorem Seating.not_rejects_ofNames (names : List String) : ¬ (ofNames names).Rejects := by
  rw [ofNames, ofTable]
  split
  · exact Attempt.not_rejects_ok _
  · exact Attempt.not_rejects_fail _

/-- A full word is a fault. -/
theorem not_rejects_increment (n : UInt32) : ¬ (increment n).Rejects := by
  rw [increment]
  split
  · exact Attempt.not_rejects_ok _
  · exact Attempt.not_rejects_fail _

theorem Track.not_rejects_enact (t : Track) (p : Policy) : ¬ (t.enact p).Rejects := by
  cases p with
  | liberal | fascist =>
    exact Attempt.not_rejects_bind (not_rejects_increment _) fun _ => Attempt.not_rejects_ok _

/-- A failure is counted or too many to count. -/
theorem Election.not_rejects_fail (e : Election) (threshold : UInt32) :
    ¬ (e.fail threshold).Rejects := by
  refine Attempt.not_rejects_bind (not_rejects_increment _) fun failed => ?_
  split <;> exact Attempt.not_rejects_ok _

namespace Deck

variable {σ : Type} [RandomSource σ]

/-- A pile too short to look at is a fault. -/
theorem not_rejects_peek (d : Deck) : ¬ d.peek.Rejects := by
  rw [peek]
  split
  · exact Attempt.not_rejects_ok _
  · exact Attempt.not_rejects_fail _

/-- A pile too short to draw from is one too. -/
theorem drawHand_neverRejects (d : Deck) : (d.drawHand : Draws σ (Drawn Hand)).NeverRejects := by
  rw [drawHand]
  split
  · exact .bind (.draw _) fun _ => .pure _
  · exact fun _ => Attempt.not_rejects_fail _

theorem drawSingle_neverRejects (d : Deck) :
    (d.drawSingle : Draws σ (Drawn Policy)).NeverRejects := by
  rw [drawSingle]
  split
  · exact .bind (.draw _) fun _ => .pure _
  · exact fun _ => Attempt.not_rejects_fail _

end Deck

namespace Board

variable {σ : Type} [RandomSource σ]

/-- Roles and seats that differ are a fault. -/
theorem not_rejects_assertRolesMatch (b : Board) : ¬ b.assertRolesMatch.Rejects := by
  rw [assertRolesMatch]
  split
  · exact Attempt.not_rejects_ok _
  · exact Attempt.not_rejects_fail _

theorem not_rejects_setUp (c : Configuration) (seating : Seating) (roles : RoleMap) (deck : Deck)
    (election : Election) : ¬ (setUp c seating roles deck election).Rejects :=
  Attempt.not_rejects_bind (not_rejects_assertRolesMatch _) fun _ => Attempt.not_rejects_ok _

/-- The turn passes. -/
theorem not_rejects_nextElection (b : Board) : ¬ b.nextElection.Rejects := by
  have hnext : ¬ (b.seating.nextAfter b.election.ticker).Rejects := by
    rw [Seating.nextAfter]
    split
    · exact Attempt.not_rejects_ok _
    · exact Attempt.not_rejects_orFail _ _
  exact Attempt.not_rejects_bind
    (Attempt.not_rejects_bind hnext fun _ => Attempt.not_rejects_ok _)
    fun _ => Attempt.not_rejects_ok _

theorem not_rejects_enactedEvent (b : Board) (p : Policy) (enactor : Enactor) :
    ¬ (b.enactedEvent p enactor).Rejects :=
  Attempt.not_rejects_bind (Track.not_rejects_enact _ _) fun _ => Attempt.not_rejects_ok _

theorem not_rejects_enactByChaos (b : Board) (p : Policy) : ¬ (b.enactByChaos p).Rejects := by
  refine Attempt.not_rejects_bind (Track.not_rejects_enact _ _) fun track => ?_
  dsimp only
  split <;> exact Attempt.not_rejects_ok _

/-- A count of policies may be full, and nothing else goes wrong with an enactment. -/
theorem not_rejects_enactByVote (b : Board) (p : Policy) : ¬ (b.enactByVote p).Rejects := by
  refine Attempt.not_rejects_bind (Track.not_rejects_enact _ _) fun track => ?_
  dsimp only
  split
  · exact Attempt.not_rejects_ok _
  · split <;> exact Attempt.not_rejects_ok _

/-- After chaos the game is over or the turn passes. -/
theorem not_rejects_afterChaos (enacted : Enacted) : ¬ (afterChaos enacted).Rejects := by
  cases enacted with
  | gameOver v => exact Attempt.not_rejects_ok _
  | continues b | unlocks b power => exact b.not_rejects_nextElection

/-- Chaos breaks out. -/
theorem countryInChaos_neverRejects (b : Board) :
    (b.countryInChaos : Draws σ Step).NeverRejects :=
  .bind b.deck.drawSingle_neverRejects fun _ =>
    .bind (.lift (not_rejects_enactedEvent _ _ _)) fun _ =>
    .bind (.lift (not_rejects_enactByChaos _ _)) fun enacted =>
    .bind (.lift (not_rejects_afterChaos enacted)) fun _ => .pure _

/-- A government fails. -/
theorem afterFailedGovernment_neverRejects (b : Board) :
    (b.afterFailedGovernment : Draws σ Step).NeverRejects := by
  refine .bind (.lift (b.election.not_rejects_fail _)) fun outcome => ?_
  cases outcome with
  | advanced election => exact .lift (not_rejects_nextElection _)
  | chaos election => exact countryInChaos_neverRejects _

/-- A veto is agreed to. -/
theorem approveVeto_neverRejects (b : Board) (g : Government) (agenda : Agenda) :
    (b.approveVeto g agenda : Draws σ Step).NeverRejects :=
  .bind (.draw _) fun _ =>
    .bind (.lift (not_rejects_increment _)) fun _ =>
    .bind (afterFailedGovernment_neverRejects _) fun _ => .pure _

theorem not_rejects_activatePower (b : Board) (power : Power) (president : Seat) :
    ¬ (b.activatePower power president).Rejects := by
  rw [activatePower]
  cases power.pending with
  | some pending => exact Attempt.not_rejects_ok _
  | none =>
    exact Attempt.not_rejects_bind b.deck.not_rejects_peek fun _ =>
      Attempt.not_rejects_bind b.not_rejects_nextElection fun _ => Attempt.not_rejects_ok _

/-- A government enacts a policy. -/
theorem not_rejects_enactByGovernment (b : Board) (president : Seat) (p : Policy) :
    ¬ (b.enactByGovernment president p).Rejects := by
  refine Attempt.not_rejects_bind (not_rejects_enactedEvent _ _ _) fun report =>
    Attempt.not_rejects_bind (not_rejects_enactByVote _ _) fun enacted => ?_
  cases enacted with
  | gameOver v => exact Attempt.not_rejects_ok _
  | continues b =>
    exact Attempt.not_rejects_bind b.not_rejects_nextElection fun _ => Attempt.not_rejects_ok _
  | unlocks b power =>
    exact Attempt.not_rejects_bind (b.not_rejects_activatePower power president)
      fun _ => Attempt.not_rejects_ok _

theorem not_rejects_hitlerElected (b : Board) (g : Government) : ¬ (b.hitlerElected g).Rejects := by
  rw [hitlerElected]
  split
  · exact Attempt.not_rejects_bind (RoleMap.not_rejects_roleOf _ _)
      fun _ => Attempt.not_rejects_ok _
  · exact Attempt.not_rejects_ok _

/-- A vote is decided. -/
theorem resolveVote_neverRejects (b : Board) (g : Government) (votes : Votes) :
    (b.resolveVote g votes : Draws σ Step).NeverRejects := by
  have helected : (b.elected g : Draws σ Step).NeverRejects := by
    refine .bind (.lift (b.not_rejects_hitlerElected g)) fun hitler => ?_
    split
    · exact .pure _
    · exact .bind (Deck.drawHand_neverRejects _) fun _ => .pure _
  rw [resolveVote]
  split
  · exact .bind helected fun _ => .pure _
  · exact .bind (.lift (not_rejects_increment _)) fun _ =>
      .bind b.afterFailedGovernment_neverRejects fun _ => .pure _

/-- A player is killed. -/
theorem not_rejects_execute (b : Board) (target : Seat) : ¬ (b.execute target).Rejects := by
  refine Attempt.not_rejects_bind (RoleMap.not_rejects_roleOf _ _) fun role => ?_
  split
  · exact Attempt.not_rejects_ok _
  · exact Attempt.not_rejects_bind (RoleMap.not_rejects_without _ _) fun _ =>
      Attempt.not_rejects_bind (not_rejects_assertRolesMatch _) fun _ =>
      Attempt.not_rejects_bind (not_rejects_nextElection _) fun _ => Attempt.not_rejects_ok _

end Board

/-- **A game starts** unless its lobby or its rules refuse it: what comes after the
configuration is never refused. -/
theorem Lobby.exists_start_eq {σ : Type} [RandomSource σ] (l : Lobby) (actor : String) :
    ∃ deal : Configuration → Draws σ Step, (∀ c, (deal c).NeverRejects) ∧
      l.start actor = liftM (l.configuration actor) >>= deal := by
  refine ⟨_, fun c => ?_, rfl⟩
  exact .bind (.lift (Seating.not_rejects_ofNames _)) fun seating =>
    .bind (RoleMap.deal_neverRejects _ _) fun roles =>
    .bind (.draw _) fun deck =>
    .bind (.draw _) fun lot =>
    .bind (.lift (Board.not_rejects_setUp _ _ _ _ _)) fun board => .pure _

/-- The outcome is checked. -/
theorem Running.not_rejects_violation (g : Running) : ¬ g.violation.Rejects := by
  have hcards (p : Policy) : ¬ (g.cardViolation p).Rejects := by
    rw [cardViolation]
    split
    · exact Attempt.not_rejects_fail _
    · split <;> exact Attempt.not_rejects_ok _
  refine Attempt.not_rejects_bind (hcards .liberal) fun liberal => ?_
  cases liberal with
  | some v => exact Attempt.not_rejects_ok _
  | none =>
    refine Attempt.not_rejects_bind (hcards .fascist) fun fascist => ?_
    cases fascist with
    | some v => exact Attempt.not_rejects_ok _
    | none => exact Attempt.not_rejects_ok _

/-- A check finds something wrong or nothing; it refuses nothing. -/
theorem Game.not_rejects_violation (g : Game) : ¬ g.violation.Rejects := by
  cases g with
  | running g => exact g.not_rejects_violation
  | lobby l | completed v => exact Attempt.not_rejects_ok _

end SecretHitler
