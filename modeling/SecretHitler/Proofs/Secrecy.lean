import SecretHitler.Proofs.Refusals
import SecretHitler.Proofs.Runs
/-!
# Hidden roles stay hidden

Two games that differ in nothing but their roles, played by the same actions on
the same luck, cannot be told apart, as long as neither breaks and neither is
won by Hitler's election or death. Roles are looked up in three places: when a
government is elected, when a player is investigated and when one is killed.
The first and the last tell only by ending the game or breaking; what an
investigation finds is told to the president alone.

`Draws.Hides` relates two computations that either tell (`Attempt.Tells`) or end
alike and leave the source alike. It is closed under sequence (`Hides.bind`),
so each transition is one lemma, built along its own steps.
-/

namespace SecretHitler

/-! ## Games that differ in their roles -/

/-- A board with other roles. -/
def Board.withRoles (b : Board) (m : RoleMap) : Board := { b with roles := m }

/-- A game under way with other roles. -/
def Running.withRoles (g : Running) (m : RoleMap) : Running := ⟨g.board.withRoles m, g.phase⟩

/-- **Games that agree on everything but the roles.** -/
inductive Game.SameButRoles : Game → Game → Prop
  | gathering (l : Lobby) : SameButRoles (.lobby l) (.lobby l)
  | playing (g : Running) (m : RoleMap) : SameButRoles (.running g) (.running (g.withRoles m))
  | ended (v : Victory) : SameButRoles (.completed v) (.completed v)

/-- **Events that agree on everything but a revealed party.** -/
inductive Event.SameButParty : Event → Event → Prop
  | same (e : Event) : SameButParty e e
  | revealed (president target : Seat) (party party' : Party) :
      SameButParty (.partyRevealed president target party)
        (.partyRevealed president target party')

/-- What an enactment leads to, but for the roles. -/
inductive Enacted.SameButRoles : Enacted → Enacted → Prop
  | gameOver (v : Victory) : SameButRoles (.gameOver v) (.gameOver v)
  | continues (b : Board) (m : RoleMap) : SameButRoles (.continues b) (.continues (b.withRoles m))
  | unlocks (b : Board) (m : RoleMap) (power : Power) :
      SameButRoles (.unlocks b power) (.unlocks (b.withRoles m) power)

/-- **Steps that cannot be told apart**, but for the party that a president sees. -/
structure Step.Alike (step step' : Step) : Prop where
  game : step.game.SameButRoles step'.game
  events : List.Forall₂ Event.SameButParty step.events step'.events

/-- A step that ends the game by what the roles are. -/
def Step.Discloses (step : Step) : Prop :=
  step.game = .completed .hitlerElected ∨ step.game = .completed .hitlerKilled

instance : DecidablePred Step.Discloses := fun _ => inferInstanceAs (Decidable (_ ∨ _))

namespace Step

variable {step step' : Step}

/-- Events that both steps report before leave them alike. -/
theorem Alike.after (h : step.Alike step') (events : List Event) :
    (step.after events).Alike (step'.after events) :=
  ⟨h.game, List.rel_append (List.forall₂_same.mpr fun e _ => .same e) h.events⟩

/-- The same report of two games that differ in their roles. -/
theorem alike_of_game {game game' : Game} (h : game.SameButRoles game') (events : List Event) :
    Alike ⟨game, events⟩ ⟨game', events⟩ :=
  ⟨h, List.forall₂_same.mpr fun e _ => .same e⟩

end Step

/-! ## Computations that hide -/

namespace Attempt

variable {α β : Type} {R : α → α → Prop} {S : β → β → Prop}

/-- Whether an attempt tells anything: it breaks, or its value does. -/
def Tells (E : α → Prop) : Attempt α → Prop
  | .ok a => E a
  | .error (.rejected _) => False
  | .error (.fault _) => True

instance (E : α → Prop) [DecidablePred E] : DecidablePred (Tells E)
  | .ok a => inferInstanceAs (Decidable (E a))
  | .error (.rejected _) => .isFalse id
  | .error (.fault _) => .isTrue trivial

/-- Attempts that are refused alike or have related values. -/
inductive Alike (R : α → α → Prop) : Attempt α → Attempt α → Prop
  | refused (cause : Rejection) : Alike R (.error (.rejected cause)) (.error (.rejected cause))
  | carriedOut {a a' : α} : R a a' → Alike R (.ok a) (.ok a')

/-- **Attempts that hide**: unless one of them tells, they end alike. -/
def Hides (E : α → Prop) (R : α → α → Prop) (x x' : Attempt α) : Prop :=
  x.Tells E ∨ x'.Tells E ∨ x.Alike R x'

theorem Hides.ok {E : α → Prop} {a a' : α} (h : R a a') : Hides E R (.ok a) (.ok a') :=
  .inr (.inr (.carriedOut h))

/-- An attempt hides nothing of itself. -/
theorem hides_self {E : α → Prop} (hR : ∀ a, R a a) (x : Attempt α) : Hides E R x x := by
  rcases x with (cause | fault) | a
  · exact .inr (.inr (.refused cause))
  · exact .inl trivial
  · exact .ok (hR a)

/-- What tells goes on to tell, if what follows does. -/
theorem tells_bind {E : α → Prop} {E' : β → Prop} {x : Attempt α} {f : α → Attempt β}
    (h : x.Tells E) (hf : ∀ a, E a → (f a).Tells E') : Tells E' (x >>= f) := by
  rcases x with (cause | fault) | a
  · exact h.elim
  · exact trivial
  · exact hf a h

/-- **Attempts that hide, one after the other, hide**, as long as what tells goes
on to tell. -/
theorem Hides.bind {E : α → Prop} {E' : β → Prop} {x x' : Attempt α} {f f' : α → Attempt β}
    (h : Hides E R x x') (htold : ∀ a, E a → (f a).Tells E' ∧ (f' a).Tells E')
    (hf : ∀ a a', R a a' → Hides E' S (f a) (f' a')) : Hides E' S (x >>= f) (x' >>= f') := by
  rcases h with htells | htells | halike
  · exact .inl (tells_bind htells fun a ha => (htold a ha).1)
  · exact .inr (.inl (tells_bind htells fun a ha => (htold a ha).2))
  · cases halike with
    | refused cause => exact .inr (.inr (.refused cause))
    | carriedOut hR => exact hf _ _ hR

/-- What follows a common part may rely on its value. -/
theorem hides_bind {E : β → Prop} {x : Attempt α} {f f' : α → Attempt β}
    (hf : ∀ a, Hides E S (f a) (f' a)) : Hides E S (x >>= f) (x >>= f') :=
  (hides_self (E := fun _ => False) (R := Eq) (fun _ => rfl) x).bind (fun _ => False.elim)
    fun a _ h => h ▸ hf a

/-- Of attempts that are not refused only the values matter. -/
theorem hides_of_not_rejects {E : α → Prop} {x x' : Attempt α} (hx : ¬ x.Rejects)
    (hx' : ¬ x'.Rejects) (h : ∀ a a', x = .ok a → x' = .ok a' → E a ∨ E a' ∨ R a a') :
    Hides E R x x' := by
  rcases x with (cause | fault) | a
  · exact absurd ⟨cause, rfl⟩ hx
  · exact .inl trivial
  rcases x' with (cause | fault) | a'
  · exact absurd ⟨cause, rfl⟩ hx'
  · exact .inr (.inl trivial)
  rcases h a a' rfl rfl with htells | htells | hR
  · exact .inl htells
  · exact .inr (.inl htells)
  · exact .ok hR

end Attempt

namespace Draws

variable {σ α β : Type} {R : α → α → Prop} {S : β → β → Prop}

/-- **Computations that hide**: unless one of them tells, they end alike and leave
the source alike. -/
def Hides (E : α → Prop) (R : α → α → Prop) (x x' : Draws σ α) : Prop :=
  ∀ s, (x s).1.Tells E ∨ (x' s).1.Tells E ∨ ((x s).1.Alike R (x' s).1 ∧ (x s).2 = (x' s).2)

theorem hides_lift {E : α → Prop} {x x' : Attempt α} (h : x.Hides E R x') :
    Hides E R (liftM x : Draws σ α) (liftM x') := by
  intro s
  rcases h with htells | htells | halike
  · exact .inl htells
  · exact .inr (.inl htells)
  · exact .inr (.inr ⟨halike, rfl⟩)

theorem hides_pure {E : α → Prop} {a a' : α} (h : R a a') :
    Hides E R (pure a : Draws σ α) (pure a') :=
  fun _ => .inr (.inr ⟨.carriedOut h, rfl⟩)

/-- What has no roles to look at hides them. -/
theorem hides_self {E : α → Prop} (hR : ∀ a, R a a) (x : Draws σ α) : Hides E R x x := by
  intro s
  rcases Attempt.hides_self (E := E) hR (x s).1 with htells | htells | halike
  · exact .inl htells
  · exact .inl htells
  · exact .inr (.inr ⟨halike, rfl⟩)

theorem tells_bind {E : α → Prop} {E' : β → Prop} {x : Draws σ α} {f : α → Draws σ β} {s : σ}
    (h : (x s).1.Tells E) (hf : ∀ a, E a → ∀ t, (f a t).1.Tells E') :
    ((x >>= f) s).1.Tells E' := by
  rw [bind_apply]
  rcases hx : x s with ⟨(cause | fault) | a, t⟩
  · rw [hx] at h
    exact h.elim
  · exact trivial
  · rw [hx] at h
    exact hf a h t

/-- **Computations that hide, one after the other, hide**, as long as what tells
goes on to tell. -/
theorem Hides.bind {E : α → Prop} {E' : β → Prop} {x x' : Draws σ α} {f f' : α → Draws σ β}
    (h : Hides E R x x') (htold : ∀ a, E a → ∀ t, (f a t).1.Tells E' ∧ (f' a t).1.Tells E')
    (hf : ∀ a a', R a a' → Hides E' S (f a) (f' a')) : Hides E' S (x >>= f) (x' >>= f') := by
  intro s
  rcases h s with htells | htells | ⟨halike, hsource⟩
  · exact .inl (tells_bind htells fun a ha t => (htold a ha t).1)
  · exact .inr (.inl (tells_bind htells fun a ha t => (htold a ha t).2))
  · rw [bind_apply, bind_apply]
    rcases hx : x s with ⟨y, t⟩
    rcases hx' : x' s with ⟨y', t'⟩
    rw [hx, hx'] at halike hsource
    obtain rfl : t = t' := hsource
    cases halike with
    | refused cause => exact .inr (.inr ⟨.refused cause, rfl⟩)
    | carriedOut hR => exact hf _ _ hR t

/-- What follows a common part may rely on its value. -/
theorem hides_bind {E : β → Prop} {x : Draws σ α} {f f' : α → Draws σ β}
    (hf : ∀ a, Hides E S (f a) (f' a)) : Hides E S (x >>= f) (x >>= f') :=
  (hides_self (E := fun _ => False) (R := Eq) (fun _ => rfl) x).bind (fun _ => False.elim)
    fun a _ h => h ▸ hf a

end Draws

/-- What is reported first hides no more and no less. -/
theorem Attempt.Hides.after {x x' : Attempt Step} (h : x.Hides Step.Discloses Step.Alike x')
    (events : List Event) :
    Attempt.Hides Step.Discloses Step.Alike (x >>= fun step => pure (step.after events))
      (x' >>= fun step => pure (step.after events)) :=
  h.bind (fun _ htold => ⟨htold, htold⟩) fun _ _ halike => .ok (halike.after events)

/-- The same of a step that luck had a hand in. -/
theorem Draws.Hides.after {σ : Type} {x x' : Draws σ Step}
    (h : Draws.Hides Step.Discloses Step.Alike x x') (events : List Event) :
    Draws.Hides Step.Discloses Step.Alike (x >>= fun step => pure (step.after events))
      (x' >>= fun step => pure (step.after events)) :=
  h.bind (fun _ htold _ => ⟨htold, htold⟩) fun _ _ halike => hides_pure (halike.after events)

/-! ## The transitions -/

namespace Board

variable {σ : Type} [RandomSource σ]

/-- The turn passes without a look at the roles. -/
theorem nextElection_hides (b : Board) (m : RoleMap) :
    b.nextElection.Hides Step.Discloses Step.Alike (b.withRoles m).nextElection :=
  Attempt.hides_bind fun election =>
    .ok (Step.alike_of_game (.playing ⟨{ b with election := election }, _⟩ m) _)

/-- An enactment looks at no role. -/
theorem enactByChaos_hides (b : Board) (m : RoleMap) (p : Policy) :
    (b.enactByChaos p).Hides (fun _ => False) Enacted.SameButRoles
      ((b.withRoles m).enactByChaos p) := by
  refine Attempt.hides_bind fun track => ?_
  have hgoal : goalReached { b.withRoles m with track := track } p =
      goalReached { b with track := track } p := rfl
  dsimp only
  rw [hgoal]
  cases goalReached { b with track := track } p with
  | some v => exact .ok (.gameOver v)
  | none => exact .ok (.continues { b with track := track } m)

/-- A policy is enacted without a look at the roles. -/
theorem enactByVote_hides (b : Board) (m : RoleMap) (p : Policy) :
    (b.enactByVote p).Hides (fun _ => False) Enacted.SameButRoles
      ((b.withRoles m).enactByVote p) := by
  refine Attempt.hides_bind fun track => ?_
  have hgoal : goalReached { b.withRoles m with track := track } p =
      goalReached { b with track := track } p := rfl
  have hpower : unlocked { b.withRoles m with track := track } p =
      unlocked { b with track := track } p := rfl
  dsimp only
  rw [hgoal, hpower]
  cases goalReached { b with track := track } p with
  | some v => exact .ok (.gameOver v)
  | none =>
    cases unlocked { b with track := track } p with
    | some power => exact .ok (.unlocks { b with track := track } m power)
    | none => exact .ok (.continues { b with track := track } m)

theorem afterChaos_hides {enacted enacted' : Enacted} (h : enacted.SameButRoles enacted') :
    (afterChaos enacted).Hides Step.Discloses Step.Alike (afterChaos enacted') := by
  cases h with
  | gameOver v => exact .ok (Step.alike_of_game (.ended v) _)
  | continues b m => exact nextElection_hides b m
  | unlocks b m power => exact nextElection_hides b m

/-- Chaos draws and enacts without one. -/
theorem countryInChaos_hides (b : Board) (m : RoleMap) :
    (b.countryInChaos : Draws σ Step).Hides Step.Discloses Step.Alike
      (b.withRoles m).countryInChaos := by
  refine Draws.hides_bind fun drawn => ?_
  have hreport : enactedEvent { b.withRoles m with deck := drawn.deck } drawn.cards .chaos =
      enactedEvent { b with deck := drawn.deck } drawn.cards .chaos := rfl
  dsimp only
  rw [hreport]
  refine Draws.hides_bind fun report => ?_
  have henacts := enactByChaos_hides { b with deck := drawn.deck } m drawn.cards
  refine (Draws.hides_lift henacts).bind (fun _ => False.elim) fun enacted enacted' hsame => ?_
  exact Draws.Hides.after (Draws.hides_lift (afterChaos_hides hsame)) _

/-- A failed government is counted without one. -/
theorem afterFailedGovernment_hides (b : Board) (m : RoleMap) :
    (b.afterFailedGovernment : Draws σ Step).Hides Step.Discloses Step.Alike
      (b.withRoles m).afterFailedGovernment := by
  refine Draws.hides_bind fun failed => ?_
  cases failed with
  | advanced election =>
    exact Draws.hides_lift (nextElection_hides { b with election := election } m)
  | chaos election => exact countryInChaos_hides { b with election := election.unlimit } m

/-- A power is handed to a seat, not to a role. -/
theorem activatePower_hides (b : Board) (m : RoleMap) (power : Power) (president : Seat) :
    (b.activatePower power president).Hides Step.Discloses Step.Alike
      ((b.withRoles m).activatePower power president) := by
  rw [activatePower, activatePower]
  cases power.pending with
  | some pending => exact .ok (Step.alike_of_game (.playing ⟨b, _⟩ m) _)
  | none => exact Attempt.hides_bind fun hand => (nextElection_hides b m).after _

theorem enactByGovernment_hides (b : Board) (m : RoleMap) (president : Seat) (p : Policy) :
    (b.enactByGovernment president p).Hides Step.Discloses Step.Alike
      ((b.withRoles m).enactByGovernment president p) := by
  refine Attempt.hides_bind fun report => ?_
  have henacts := enactByVote_hides { b with election := b.election.reset } m p
  refine henacts.bind (fun _ => False.elim) fun enacted enacted' hsame => ?_
  cases hsame with
  | gameOver v => exact .ok (Step.alike_of_game (.ended v) _)
  | continues b m => exact (nextElection_hides b m).after _
  | unlocks b m power => exact (activatePower_hides b m power president).after _

/-- Whether Hitler is elected tells, if so. -/
theorem hitlerElected_hides (b : Board) (m : RoleMap) (g : Government) :
    (b.hitlerElected g).Hides (· = true) (fun hit hit' => hit = false ∧ hit' = false)
      ((b.withRoles m).hitlerElected g) := by
  have hwins : (b.withRoles m).config.hitlerWins (b.withRoles m).track.fascist =
      b.config.hitlerWins b.track.fascist := rfl
  rw [hitlerElected, hitlerElected, hwins]
  split
  · refine Attempt.Hides.bind (E := fun _ => False) (R := fun _ _ => True) ?_
      (fun _ => False.elim) fun role role' _ => ?_
    · exact Attempt.hides_of_not_rejects (RoleMap.not_rejects_roleOf _ _)
        (RoleMap.not_rejects_roleOf _ _) fun _ _ _ _ => .inr (.inr trivial)
    · cases hrole : role == .hitler with
      | true => exact .inl rfl
      | false =>
        cases hrole' : role' == .hitler with
        | true => exact .inr (.inl rfl)
        | false => exact .ok ⟨rfl, rfl⟩
  · exact .ok ⟨rfl, rfl⟩

/-- An elected president draws, whatever the role. -/
theorem elected_hides (b : Board) (m : RoleMap) (g : Government) :
    (b.elected g : Draws σ Step).Hides Step.Discloses Step.Alike ((b.withRoles m).elected g) := by
  refine (Draws.hides_lift (hitlerElected_hides b m g)).bind (fun hit hhit _ => ?_)
    fun hit hit' hboth => ?_
  · subst hhit
    exact ⟨.inl rfl, .inl rfl⟩
  · obtain ⟨rfl, rfl⟩ := hboth
    refine Draws.hides_bind fun drawn => Draws.hides_pure (Step.alike_of_game ?_ _)
    exact .playing ⟨{ b with election := b.election.limit g, deck := drawn.deck }, _⟩ m

theorem resolveVote_hides (b : Board) (m : RoleMap) (g : Government) (votes : Votes) :
    (b.resolveVote g votes : Draws σ Step).Hides Step.Discloses Step.Alike
      ((b.withRoles m).resolveVote g votes) := by
  rw [resolveVote, resolveVote]
  split
  · exact (elected_hides b m g).after _
  · exact Draws.hides_bind fun tracker => (afterFailedGovernment_hides b m).after _

/-- Ballots have no role on them. -/
theorem castVote_hides (b : Board) (m : RoleMap) (g : Government) (votes : Votes)
    (voter : String) (ballot : Ballot) :
    (b.castVote g votes voter ballot : Draws σ Step).Hides Step.Discloses Step.Alike
      ((b.withRoles m).castVote g votes voter ballot) := by
  refine Draws.hides_bind fun seat => Draws.hides_bind fun votes' => ?_
  have hcomplete : votes'.isComplete (b.withRoles m).seating = votes'.isComplete b.seating := rfl
  rw [hcomplete]
  split
  · exact (resolveVote_hides b m g votes').after _
  · exact Draws.hides_pure (Step.alike_of_game (.playing ⟨b, _⟩ m) _)

/-- Who may be nominated is a matter of seats. -/
theorem nominate_hides (b : Board) (m : RoleMap) (candidate : Seat) (actor nominee : String) :
    (b.nominate candidate actor nominee).Hides Step.Discloses Step.Alike
      ((b.withRoles m).nominate candidate actor nominee) := by
  refine Attempt.hides_bind fun president => Attempt.hides_bind fun chancellor => ?_
  have heligible : (b.withRoles m).eligible president = b.eligible president := rfl
  rw [heligible]
  split
  · exact .ok (Step.alike_of_game (.playing ⟨b, _⟩ m) _)
  · exact .inr (.inr (.refused _))

theorem presidentDiscard_hides (b : Board) (m : RoleMap) (g : Government) (hand : Hand)
    (actor : String) (index : UInt64) :
    (b.presidentDiscard g hand actor index).Hides Step.Discloses Step.Alike
      ((b.withRoles m).presidentDiscard g hand actor index) :=
  Attempt.hides_bind fun _ => Attempt.hides_bind fun taken =>
    .ok (Step.alike_of_game
      (.playing ⟨{ b with deck := b.deck.discard taken.1 }, .chancellorChoice g taken.2 _⟩ m) _)

/-- An enactment may end the game, and then by the count of policies. -/
theorem chancellorEnact_hides (b : Board) (m : RoleMap) (g : Government) (agenda : Agenda)
    (veto : VetoStatus) (actor : String) (index : UInt64) :
    (b.chancellorEnact g agenda veto actor index).Hides Step.Discloses Step.Alike
      ((b.withRoles m).chancellorEnact g agenda veto actor index) := by
  refine Attempt.hides_bind fun _ => ?_
  split
  · exact .inr (.inr (.refused _))
  · exact Attempt.hides_bind fun taken =>
      enactByGovernment_hides { b with deck := b.deck.discard taken.2 } m g.president taken.1

theorem requestVeto_hides (b : Board) (m : RoleMap) (g : Government) (agenda : Agenda)
    (veto : VetoStatus) (actor : String) :
    (b.requestVeto g agenda veto actor).Hides Step.Discloses Step.Alike
      ((b.withRoles m).requestVeto g agenda veto actor) := by
  refine Attempt.hides_bind fun _ => ?_
  have hunlocked : (b.withRoles m).config.vetoUnlocked (b.withRoles m).track.fascist =
      b.config.vetoUnlocked b.track.fascist := rfl
  cases veto with
  | requested | rejected => exact .inr (.inr (.refused _))
  | notRequested =>
    dsimp only
    rw [hunlocked]
    split
    · exact .ok (Step.alike_of_game (.playing ⟨b, _⟩ m) _)
    · exact .inr (.inr (.refused _))

/-- A veto is two players' word. -/
theorem answerVeto_hides (b : Board) (m : RoleMap) (g : Government) (agenda : Agenda)
    (veto : VetoStatus) (actor : String) (approved : Bool) :
    (b.answerVeto g agenda veto actor approved : Draws σ Step).Hides Step.Discloses Step.Alike
      ((b.withRoles m).answerVeto g agenda veto actor approved) := by
  refine Draws.hides_bind fun _ => ?_
  split
  · exact fun _ => .inr (.inr ⟨.refused _, rfl⟩)
  cases approved with
  | false => exact Draws.hides_pure (Step.alike_of_game (.playing ⟨b, _⟩ m) _)
  | true =>
    exact Draws.hides_bind fun replenished => Draws.hides_bind fun tracker =>
      (afterFailedGovernment_hides { b with deck := replenished.1 } m).after _

/-- An investigation tells the president alone. -/
theorem investigate_hides (b : Board) (m : RoleMap) (president target : Seat) :
    (b.investigate president target).Hides Step.Discloses Step.Alike
      ((b.withRoles m).investigate president target) := by
  have hknown : (b.withRoles m).investigated = b.investigated := rfl
  rw [investigate, investigate, hknown]
  split
  · exact .inr (.inr (.refused _))
  refine Attempt.Hides.bind (E := fun _ => False) (R := fun _ _ => True) ?_
    (fun _ => False.elim) fun party party' _ => ?_
  · exact Attempt.hides_of_not_rejects (RoleMap.not_rejects_partyOf _ _)
      (RoleMap.not_rejects_partyOf _ _) fun _ _ _ _ => .inr (.inr trivial)
  have hturn := nextElection_hides { b with investigated := b.investigated.insert target () } m
  refine hturn.bind (fun _ htold => ⟨htold, htold⟩) fun step step' halike => .ok ⟨halike.game, ?_⟩
  exact .cons (.same _) (.cons (.revealed president target party party') halike.events)

/-- A killing tells if it kills Hitler, or breaks. -/
theorem execute_hides (b : Board) (m : RoleMap) (target : Seat) :
    (b.execute target).Hides Step.Discloses Step.Alike ((b.withRoles m).execute target) := by
  refine Attempt.Hides.bind (E := (· = .hitler)) (R := fun role role' => role ≠ .hitler ∧
    role' ≠ .hitler) ?_ (fun role hrole => ?_) fun role role' hnot => ?_
  · refine Attempt.hides_of_not_rejects (RoleMap.not_rejects_roleOf _ _)
      (RoleMap.not_rejects_roleOf _ _) fun role role' _ _ => ?_
    by_cases h : role = .hitler
    · exact .inl h
    by_cases h' : role' = .hitler
    · exact .inr (.inl h')
    · exact .inr (.inr ⟨h, h'⟩)
  · rw [if_pos hrole, if_pos hrole]
    exact ⟨.inr rfl, .inr rfl⟩
  rw [if_neg hnot.1, if_neg hnot.2]
  refine Attempt.Hides.bind (E := fun _ => False) (R := fun _ _ => True) ?_
    (fun _ => False.elim) fun roles roles' _ => ?_
  · exact Attempt.hides_of_not_rejects (RoleMap.not_rejects_without _ _)
      (RoleMap.not_rejects_without _ _) fun _ _ _ _ => .inr (.inr trivial)
  refine Attempt.Hides.bind (E := fun _ => False) (R := fun _ _ => True) ?_
    (fun _ => False.elim) fun _ _ _ => ?_
  · exact Attempt.hides_of_not_rejects (not_rejects_assertRolesMatch _)
      (not_rejects_assertRolesMatch _) fun _ _ _ _ => .inr (.inr trivial)
  exact (nextElection_hides { b with seating := b.seating.without target, roles := roles }
    roles').after _

/-- **Powers are where roles come out**: a party to one president, and Hitler in death. -/
theorem usePower_hides (b : Board) (m : RoleMap) (pending : PendingPower) (owner : Seat)
    (power : PendingPower) (actor target : String) :
    (b.usePower pending owner power actor target).Hides Step.Discloses Step.Alike
      ((b.withRoles m).usePower pending owner power actor target) := by
  rw [usePower, usePower]
  split
  · exact .inr (.inr (.refused _))
  refine Attempt.hides_bind fun president => Attempt.hides_bind fun seat => ?_
  split
  · exact .inr (.inr (.refused _))
  cases power with
  | investigateParty => exact investigate_hides b m president seat
  | specialElection => exact .ok (Step.alike_of_game (.playing ⟨b, _⟩ m) _)
  | execution => exact execute_hides b m seat

end Board

/-! ## Actions -/

variable {σ : Type} [RandomSource σ]

/-- **An action hides the roles**, but for what it discloses. -/
theorem Running.play_hides (g : Running) (m : RoleMap) (a : Action) :
    (g.play a : Draws σ Step).Hides Step.Discloses Step.Alike ((g.withRoles m).play a) := by
  have hnotAwaited : (Draws.of (.reject .notAwaited) : Draws σ Step).Hides Step.Discloses
      Step.Alike (Draws.of (.reject .notAwaited)) := fun _ => .inr (.inr ⟨.refused _, rfl⟩)
  obtain ⟨b, phase⟩ := g
  cases phase with
  | nomination candidate =>
    cases a with
    | nominate actor nominee =>
      exact Draws.hides_lift (Board.nominate_hides b m candidate actor nominee)
    | _ => exact hnotAwaited
  | voting government votes =>
    cases a with
    | vote voter ballot => exact Board.castVote_hides b m government votes voter ballot
    | _ => exact hnotAwaited
  | presidentChoice government hand =>
    cases a with
    | discard actor index =>
      exact Draws.hides_lift (Board.presidentDiscard_hides b m government hand actor index)
    | _ => exact hnotAwaited
  | chancellorChoice government agenda veto =>
    cases a with
    | enact actor index =>
      exact Draws.hides_lift (Board.chancellorEnact_hides b m government agenda veto actor index)
    | requestVeto actor =>
      exact Draws.hides_lift (Board.requestVeto_hides b m government agenda veto actor)
    | answerVeto actor approved =>
      exact Board.answerVeto_hides b m government agenda veto actor approved
    | _ => exact hnotAwaited
  | powerPending pending president =>
    cases a with
    | usePower power actor name =>
      exact Draws.hides_lift (Board.usePower_hides b m pending president power actor name)
    | _ => exact hnotAwaited

namespace Game

variable {g g' : Game}

theorem sameButRoles_refl (g : Game) : g.SameButRoles g := by
  cases g with
  | lobby l => exact .gathering l
  | running g => exact .playing g g.board.roles
  | completed v => exact .ended v

namespace SameButRoles

/-- **Roles take no part in what may be done.** -/
theorem legalActions_eq (h : g.SameButRoles g') : g.legalActions = g'.legalActions := by
  cases h with
  | gathering l => rfl
  | ended v => rfl
  | playing g m =>
    obtain ⟨b, phase⟩ := g
    cases phase with
    | chancellorChoice government agenda veto => cases veto <;> rfl
    | _ => rfl

theorem play_hides (h : g.SameButRoles g') (a : Action) :
    (g.play a : Draws σ Step).Hides Step.Discloses Step.Alike (g'.play a) := by
  have hself (g : Game) : (g.play a : Draws σ Step).Hides Step.Discloses Step.Alike (g.play a) :=
    Draws.hides_self (fun step => Step.alike_of_game (sameButRoles_refl step.game) _) _
  cases h with
  | gathering l => exact hself _
  | playing g m => exact g.play_hides m a
  | ended v => exact hself _

/-- **An action tells nothing of the roles**, unless it breaks or ends the game by
them. -/
theorem apply_hides (h : g.SameButRoles g') (a : Action) :
    (g.apply a : Draws σ Step).Hides Step.Discloses Step.Alike (g'.apply a) := by
  refine (h.play_hides a).bind (fun step htold t => ?_) fun step step' halike => ?_
  · -- the end of a game is coherent
    have hnone : step.game.violation = .ok none := by
      rcases htold with hgame | hgame <;> rw [hgame] <;> rfl
    rw [hnone]
    exact ⟨htold, htold⟩
  · refine Draws.Hides.bind (E := fun _ => False) (R := fun _ _ => True) (Draws.hides_lift ?_)
      (fun _ => False.elim) fun found found' _ => ?_
    · exact Attempt.hides_of_not_rejects (not_rejects_violation _) (not_rejects_violation _)
        fun _ _ _ _ => .inr (.inr trivial)
    · cases found with
      | some v => exact fun _ => .inl trivial
      | none =>
        cases found' with
        | some v => exact fun _ => .inr (.inl trivial)
        | none => exact Draws.hides_pure halike

end SameButRoles

end Game

/-! ## Runs -/

/-- Of events that are the same unless they are hidden from a player, that player is
shown the same. -/
theorem Event.filter_visibleTo_eq {R : Event → Event → Prop} {events events' : List Event}
    {seat : Seat} (h : List.Forall₂ R events events')
    (hidden : ∀ e ∈ events, ∀ e', R e e' →
      e = e' ∨ (e.visibleTo seat = false ∧ e'.visibleTo seat = false)) :
    events.filter (·.visibleTo seat) = events'.filter (·.visibleTo seat) := by
  induction h with
  | nil => rfl
  | @cons e e' rest rest' hrelated _ ih =>
    have hrest := ih fun e he => hidden e (.tail _ he)
    rcases hidden e (.head _) e' hrelated with rfl | ⟨he, he'⟩
    · rw [List.filter_cons, List.filter_cons, hrest]
    · simp only [List.filter_cons, he, he', Bool.false_eq_true, if_false, hrest]

/-- What a player is shown does not tell, unless it is the president who
investigated. -/
theorem Event.SameButParty.filter_visibleTo {events events' : List Event} {seat : Seat}
    (h : List.Forall₂ Event.SameButParty events events')
    (hseat : ∀ president target party, Event.partyRevealed president target party ∈ events →
      seat ≠ president) :
    events.filter (·.visibleTo seat) = events'.filter (·.visibleTo seat) := by
  refine Event.filter_visibleTo_eq h fun e he e' hsame => ?_
  cases hsame with
  | same e => exact .inl rfl
  | revealed president target party party' =>
    have hother : (president == seat) = false :=
      beq_eq_false_iff_ne.mpr (hseat president target party he).symm
    exact .inr ⟨hother, hother⟩

/-- **Answers that cannot be told apart**: refused for one reason, or carried out
with one outcome but for the roles, the same actions to follow and the same events
but for a revealed party, which nobody but the president is shown. -/
inductive Game.Indistinct : Attempt Step → Attempt Step → Prop
  | refused (cause : Rejection) :
      Indistinct (.error (.rejected cause)) (.error (.rejected cause))
  | carriedOut {step step' : Step} :
      step.game.SameButRoles step'.game → step.game.legalActions = step'.game.legalActions →
      List.Forall₂ Event.SameButParty step.events step'.events →
      (∀ seat, (∀ president target party, .partyRevealed president target party ∈ step.events →
        seat ≠ president) → step.eventsFor seat = step'.eventsFor seat) →
      Indistinct (.ok step) (.ok step')

namespace Game

variable {g g' : Game} {s : σ}

/-- Two answers that are alike are not told apart. -/
theorem indistinct_of_alike {x x' : Attempt Step} (h : x.Alike Step.Alike x') :
    Indistinct x x' := by
  cases h with
  | refused cause => exact .refused cause
  | carriedOut halike =>
    exact .carriedOut halike.game halike.game.legalActions_eq halike.events fun seat hseat =>
      Event.SameButParty.filter_visibleTo halike.events hseat

theorem SameButRoles.next {x x' : Attempt Step} (h : g.SameButRoles g')
    (hx : x.Alike Step.Alike x') : (g.next x).SameButRoles (g'.next x') := by
  cases hx with
  | refused cause => exact h
  | carriedOut halike => exact halike.game

/-- The first answers are those to the first actions. -/
theorem answers_take (g : Game) (actions : List Action) (k : ℕ) (s : σ) :
    (g.answers actions s).take k = g.answers (actions.take k) s := by
  induction k generalizing g actions s with
  | zero => rfl
  | succ k ih =>
    cases actions with
    | nil => rfl
    | cons a rest => exact congrArg _ (ih _ rest _)

/-- **Runs that tell nothing answer alike.** -/
theorem SameButRoles.answers (h : g.SameButRoles g') {actions : List Action}
    (hquiet : ∀ answer ∈ g.answers actions s, ¬ answer.Tells Step.Discloses)
    (hquiet' : ∀ answer ∈ g'.answers actions s, ¬ answer.Tells Step.Discloses) :
    List.Forall₂ Indistinct (g.answers actions s) (g'.answers actions s) := by
  induction actions generalizing g g' s with
  | nil => exact .nil
  | cons a rest ih =>
    rcases h.apply_hides a s with htells | htells | ⟨halike, hsource⟩
    · exact absurd htells (hquiet _ (.head _))
    · exact absurd htells (hquiet' _ (.head _))
    · refine .cons (indistinct_of_alike halike) ?_
      have hrest : ∀ answer ∈ (g.next (g.apply a s).1).answers rest (g.apply a s).2,
          ¬ answer.Tells Step.Discloses := fun answer hmem => hquiet answer (.tail _ hmem)
      -- both runs go on from the same source
      rw [hsource] at hrest ⊢
      exact ih (h.next halike) hrest fun answer hmem => hquiet' answer (.tail _ hmem)

end Game

/-- **Hidden roles do not leak.** Two games under way that differ in their roles
alone allow the same actions; and as long as the answers to the same actions on
the same luck break in neither run, and end neither by Hitler's election or death,
they cannot be told apart. -/
theorem Running.answers_indistinct (g : Running) (m : RoleMap) (actions : List Action) (s : σ) :
    (Game.running g).legalActions = (Game.running (g.withRoles m)).legalActions ∧
    ∀ k,
      (∀ answer ∈ ((Game.running g).answers actions s).take k,
        ¬ answer.Tells Step.Discloses) →
      (∀ answer ∈ ((Game.running (g.withRoles m)).answers actions s).take k,
        ¬ answer.Tells Step.Discloses) →
      List.Forall₂ Game.Indistinct (((Game.running g).answers actions s).take k)
        (((Game.running (g.withRoles m)).answers actions s).take k) := by
  have hsame : (Game.running g).SameButRoles (.running (g.withRoles m)) := .playing g m
  refine ⟨hsame.legalActions_eq, fun k hquiet hquiet' => ?_⟩
  rw [Game.answers_take] at hquiet hquiet' ⊢
  rw [Game.answers_take]
  exact hsame.answers hquiet hquiet'

/-- Rules under which the first fascist policy lets the president investigate. -/
def Rules.prying : Rules :=
  { standard with
    brackets := [{ minPlayers := 5, maxPlayers := 10, fascists := 1,
                   powers := [⟨1, .investigateParty⟩] }] }

/-- The first government is elected, enacts a policy and investigates; somebody who
may not act is refused. -/
def pryingGame : List Action :=
  .nominate "a" "b" :: ["a", "b", "c", "d", "e"].map (.vote · .yes) ++
    [.discard "a" 0, .enact "c" 0, .enact "b" 0, .usePower .investigateParty "a" "e"]

/-- Other roles for five players: the last one is a liberal now. -/
def otherRoles : RoleMap :=
  ⟨.ofList [(⟨1⟩, .hitler), (⟨2⟩, .liberal), (⟨3⟩, .liberal), (⟨4⟩, .plainFascist),
    (⟨5⟩, .liberal)]⟩

/-- Two coherent games that investigate a fascist and a liberal: what the president
sees is all that differs. -/
theorem Running.answers_indistinct_prying :
    ∃ g : Running, (Game.new .prying).fed (Lobby.ofFive.players.map .join ++ [.start "a"])
        (Script.ofWords []) = .running g ∧
      g.violation = .ok none ∧ (g.withRoles otherRoles).violation = .ok none ∧
      (Game.running g).answers pryingGame (Script.ofWords []) ≠
        (Game.running (g.withRoles otherRoles)).answers pryingGame (Script.ofWords []) ∧
      List.Forall₂ Game.Indistinct
        (((Game.running g).answers pryingGame (Script.ofWords [])).take 10)
        (((Game.running (g.withRoles otherRoles)).answers pryingGame (Script.ofWords [])).take 10) := by
  have hfacts : ((Game.new .prying).fed (Lobby.ofFive.players.map .join ++ [.start "a"])
      (Script.ofWords [])).running?.map (fun g => decide
        ((g.violation = .ok none ∧ (g.withRoles otherRoles).violation = .ok none ∧
          (Game.running g).answers pryingGame (Script.ofWords []) ≠
            (Game.running (g.withRoles otherRoles)).answers pryingGame (Script.ofWords [])) ∧
        (∀ answer ∈ ((Game.running g).answers pryingGame (Script.ofWords [])).take 10,
          ¬ answer.Tells Step.Discloses) ∧
        ∀ answer ∈ ((Game.running (g.withRoles otherRoles)).answers pryingGame
          (Script.ofWords [])).take 10, ¬ answer.Tells Step.Discloses)) = some true := by
    decide +kernel
  obtain ⟨g, hrunning, hdecided⟩ := Option.map_eq_some_iff.mp hfacts
  obtain ⟨⟨hcoherent, hcoherent', hdiffer⟩, hquiet, hquiet'⟩ := of_decide_eq_true hdecided
  exact ⟨g, Game.running?_eq_some_iff.mp hrunning, hcoherent, hcoherent', hdiffer,
    (Running.answers_indistinct g otherRoles pryingGame (Script.ofWords [])).2 10 hquiet hquiet'⟩

end SecretHitler
