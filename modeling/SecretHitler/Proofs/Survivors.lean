import SecretHitler.Proofs.DrawOrder
import SecretHitler.Proofs.History
import SecretHitler.Proofs.Observer
import SecretHitler.Proofs.Victories
/-!
# Who is killed stays out

A seat that is vacated is gone from two tables, while the turn, the term limits and the
record of investigations go on to speak of it by number. Still nobody hears of it again:
whoever is named by an event, or asks for something that is accepted, or is asked for, has
not been killed before (`Rules.Valid.killed_stay_out`). All moves but one leave the players
as they were (`Step.Spares`); that one kills a player other than the president who does it.
-/

namespace SecretHitler

/-- The two members of a government. -/
def Government.members (g : Government) : List Seat := [g.president, g.chancellor]

/-- **The players that an event names**: candidates, members of governments, voters, and
whoever uses a power or is its target. -/
def Event.seats : Event → List Seat
  | electionStarted candidate _ => [candidate]
  | chancellorNominated government => government.members
  | voteCast voter => [voter]
  | governmentElected government ballots => government.members ++ ballots.keys
  | governmentRejected government ballots _ => government.members ++ ballots.keys
  | policiesDrawn president _ => [president]
  | policiesPassed chancellor _ => [chancellor]
  | vetoRequested government => government.members
  | vetoApproved government _ => government.members
  | vetoRejected government => government.members
  | powerActivated _ president => [president]
  | policyPeek president _ => [president]
  | playerInvestigated president target => [president, target]
  | partyRevealed president target _ => [president, target]
  | specialElectionCalled president candidate => [president, candidate]
  | playerExecuted target => [target]
  | playerJoined _ | playerLeft _ | gameStarted _ | deckReshuffled _ | countryInChaos _ => []
  | policyEnacted .. | gameOver _ => []

/-- **The names in an action**: who asks, and whom for. -/
def Action.names : Action → List String
  | nominate actor nominee => [actor, nominee]
  | usePower _ actor target => [actor, target]
  | a => [a.actor]

/-- An event that names only players who are seated, and reports nobody killed. -/
structure Event.Harmless (t : Seating) (e : Event) : Prop where
  seated : ∀ s ∈ e.seats, s ∈ t.seats
  spares : ∀ target, e ≠ .playerExecuted target

/-- Only players who are there have a ballot in. -/
def Running.Polled (g : Running) : Prop :=
  ∀ government votes, g.phase = .voting government votes →
    ∀ s ∈ votes.ballots.keys, s ∈ g.board.seating.seats

/-- **A step that kills nobody**: it names players who are there and leaves them as they
were. -/
structure Step.Spares (t : Seating) (m : RoleMap) (s : Step) : Prop where
  events : ∀ e ∈ s.events, e.Harmless t
  players : s.Keeps fun g => g.board.seating = t ∧ g.board.roles = m ∧ g.Polled

/-- **What a step does to the players**: it spares them all, or a president kills another
one, which the rest of the step spares. -/
inductive Running.Fates (g : Running) (s : Step) : Prop
  | spared : s.Spares g.board.seating g.board.roles → Fates g s
  | killed {president target : Seat} {roles : RoleMap} {rest : Step} :
      g.phase = .powerPending .execution president → target ∈ g.board.seating.seats →
      target ≠ president →
      (∀ seat, seat ≠ target → roles.roleOf seat = g.board.roles.roleOf seat) →
      rest.Spares (g.board.seating.without target) roles →
      s = rest.after [.playerExecuted target] → Fates g s

/-! ## Moves -/

theorem Step.Spares.after {t : Seating} {m : RoleMap} {s : Step} (h : s.Spares t m)
    {events : List Event} (hevents : ∀ e ∈ events, e.Harmless t) : (s.after events).Spares t m :=
  ⟨List.forall_mem_append.mpr ⟨hevents, h.events⟩, h.players⟩

namespace Event

variable {t : Seating} {e : Event}

/-- An event that names nobody harms nobody. -/
theorem harmless_of_nil (h : e.seats = []) : e.Harmless t := by
  refine ⟨fun s hs => ?_, ?_⟩
  · rw [h] at hs
    cases hs
  · rintro target rfl
    cases h

/-- An event that names one player. -/
theorem harmless_of_singleton {s : Seat} (h : e.seats = [s]) (hs : s ∈ t.seats)
    (hspares : ∀ target, e ≠ .playerExecuted target) : e.Harmless t :=
  ⟨h ▸ List.forall_mem_singleton.mpr hs, hspares⟩

/-- An event that names a government. -/
theorem harmless_of_members {g : Government} (h : e.seats = g.members) (hg : g.Seated t)
    (hspares : ∀ target, e ≠ .playerExecuted target) : e.Harmless t := by
  refine ⟨?_, hspares⟩
  rw [h]
  exact List.forall_mem_cons.mpr ⟨hg.president, List.forall_mem_singleton.mpr hg.chancellor⟩

end Event

namespace Board

variable {b : Board} {step : Step}

theorem spares_gameOver (t : Seating) (m : RoleMap) (v : Victory) : (Step.gameOver v).Spares t m :=
  ⟨List.forall_mem_singleton.mpr (Event.harmless_of_nil rfl), trivial⟩

theorem spares_opened {next : Seat} (h : b.seating.nextAfter b.election.ticker = .ok next) :
    (b.opened next).Spares b.seating b.roles :=
  ⟨List.forall_mem_singleton.mpr (Event.harmless_of_singleton rfl
    (Seating.mem_seats_of_nextAfter h) nofun), rfl, rfl, nofun⟩

theorem harmless_reshuffleEvents {t : Seating} (d : Deck) (reshuffled : Bool) :
    ∀ e ∈ reshuffleEvents d reshuffled, e.Harmless t := by
  intro e he
  rw [(mem_reshuffleEvents.mp he).2]
  exact Event.harmless_of_nil rfl

theorem harmless_chaosEvents {t : Seating} (drawn : Drawn Policy) (track : Track) :
    ∀ e ∈ chaosEvents drawn track, e.Harmless t :=
  List.forall_mem_append.mpr ⟨List.forall_mem_cons.mpr
    ⟨Event.harmless_of_nil rfl, harmless_reshuffleEvents _ _⟩,
    List.forall_mem_singleton.mpr (Event.harmless_of_nil rfl)⟩

theorem Collapses.spares (h : b.Collapses step) : step.Spares b.seating b.roles := by
  cases h with
  | ended _ _ _ => exact (spares_gameOver _ _ _).after (harmless_chaosEvents _ _)
  | @goesOn drawn track _ _ _ _ hnext =>
    exact (spares_opened (b := b.collapsed drawn.deck track) hnext).after (harmless_chaosEvents _ _)

theorem Fails.spares (h : b.Fails step) : step.Spares b.seating b.roles := by
  cases h with
  | @counted failed _ _ _ hnext =>
    exact spares_opened (b := { b with election := { b.election with tracker := failed } }) hnext
  | collapsed _ _ hchaos => exact hchaos.spares

theorem Enacts.spares {president : Seat} {p : Policy} (h : b.Enacts president p step)
    (hpresident : president ∈ b.seating.seats) : step.Spares b.seating b.roles := by
  have henacted {track : Track} :
      Event.Harmless b.seating (.policyEnacted p .government track.liberal track.fascist) :=
    Event.harmless_of_nil rfl
  have hactivated {power : Power} : Event.Harmless b.seating (.powerActivated power president) :=
    Event.harmless_of_singleton rfl hpresident nofun
  cases h with
  | ended _ _ => exact (spares_gameOver _ _ _).after (List.forall_mem_singleton.mpr henacted)
  | @goesOn track _ _ _ _ hnext =>
    exact (spares_opened (b := b.governed track) hnext).after
      (List.forall_mem_singleton.mpr henacted)
  | @peeks track hand _ _ _ _ _ hnext =>
    have hpeek : Event.Harmless b.seating (.policyPeek president hand) :=
      Event.harmless_of_singleton rfl hpresident nofun
    exact (spares_opened (b := b.governed track) hnext).after (List.forall_mem_cons.mpr
      ⟨henacted, List.forall_mem_cons.mpr ⟨hactivated, List.forall_mem_singleton.mpr hpeek⟩⟩)
  | waits _ _ _ _ =>
    exact ⟨List.forall_mem_cons.mpr ⟨henacted, List.forall_mem_singleton.mpr hactivated⟩,
      rfl, rfl, nofun⟩

theorem Resolves.spares {g : Government} {votes : Votes} (h : b.Resolves g votes step)
    (hg : g.Seated b.seating) (hvotes : ∀ s ∈ votes.ballots.keys, s ∈ b.seating.seats) :
    step.Spares b.seating b.roles := by
  have hnamed : ∀ s ∈ g.members ++ votes.ballots.keys, s ∈ b.seating.seats :=
    List.forall_mem_append.mpr ⟨List.forall_mem_cons.mpr
      ⟨hg.president, List.forall_mem_singleton.mpr hg.chancellor⟩, hvotes⟩
  cases h with
  | hitlerElected _ _ =>
    exact (spares_gameOver _ _ _).after (List.forall_mem_singleton.mpr ⟨hnamed, nofun⟩)
  | @elected drawn _ _ _ =>
    have hdraws : Event.Harmless b.seating (.policiesDrawn g.president drawn.cards) :=
      Event.harmless_of_singleton rfl hg.president nofun
    exact ⟨List.forall_mem_cons.mpr ⟨⟨hnamed, nofun⟩, List.forall_mem_cons.mpr
      ⟨hdraws, harmless_reshuffleEvents _ _⟩⟩, rfl, rfl, nofun⟩
  | rejected _ _ hfails =>
    exact hfails.spares.after (List.forall_mem_singleton.mpr ⟨hnamed, nofun⟩)

end Board

namespace Running

variable {g : Running} {a : Action} {step : Step}

/-- Nobody has voted before anybody is nominated. -/
theorem polled_of_nomination {b : Board} {candidate : Seat} :
    Polled ⟨b, .nomination candidate⟩ := by
  intro government votes hvoting
  cases hvoting

/-- One more ballot is that of somebody who is there. -/
theorem Polled.cast {b : Board} {government : Government} {votes votes' : Votes} {seat : Seat}
    {voter : String} {ballot : Ballot} (hp : Polled ⟨b, .voting government votes⟩)
    (hvoter : b.seating.seatOf? voter = some seat) (hcast : votes.cast seat ballot = .ok votes') :
    ∀ s ∈ votes'.ballots.keys, s ∈ b.seating.seats := by
  obtain ⟨-, rfl⟩ := Votes.cast_eq_ok.mp hcast
  intro s hs
  rcases Table.mem_keys_insert.mp hs with rfl | hs
  · exact Seating.mem_seats_of_seatOf? hvoter
  · exact hp _ _ rfl s hs

/-- **Every move spares everybody, or kills one.** -/
theorem Moves.fates (h : g.Moves a step) (hg : g.Sound) (hp : g.Polled) : g.Fates step := by
  have hphase := hg.phase
  cases h with
  | nominate _ hnominee heligible =>
    have hseated : Government.Seated ⟨_, _⟩ _ := ⟨hphase, Seating.mem_seats_of_seatOf? hnominee,
      (Board.mem_eligible_iff.mp heligible).2.1⟩
    refine .spared ⟨List.forall_mem_singleton.mpr (Event.harmless_of_members rfl hseated nofun),
      rfl, rfl, ?_⟩
    rintro _ _ hvoting
    cases hvoting
    exact nofun
  | vote hvoter hcast _ =>
    refine .spared ⟨List.forall_mem_singleton.mpr (Event.harmless_of_singleton rfl
      (Seating.mem_seats_of_seatOf? hvoter) nofun), rfl, rfl, ?_⟩
    rintro _ _ hvoting
    cases hvoting
    exact hp.cast hvoter hcast
  | decide hvoter hcast _ hresolves =>
    exact .spared ((hresolves.spares hphase.1 (hp.cast hvoter hcast)).after
      (List.forall_mem_singleton.mpr (Event.harmless_of_singleton rfl
        (Seating.mem_seats_of_seatOf? hvoter) nofun)))
  | discard _ _ =>
    exact .spared ⟨List.forall_mem_singleton.mpr (Event.harmless_of_singleton rfl hphase.chancellor
      nofun), rfl, rfl, nofun⟩
  | enact _ _ _ henacts => exact .spared (henacts.spares hphase.president)
  | requestVeto _ _ | refuseVeto _ =>
    exact .spared ⟨List.forall_mem_singleton.mpr (Event.harmless_of_members rfl hphase nofun),
      rfl, rfl, nofun⟩
  | approveVeto _ _ _ hfails =>
    exact .spared (hfails.spares.after (List.forall_mem_cons.mpr
      ⟨Event.harmless_of_members rfl hphase nofun, Board.harmless_reshuffleEvents _ _⟩))
  | @investigate b president target _ _ _ _ hactor hname _ _ _ hnext =>
    have hboth : ∀ s ∈ [president, target], s ∈ b.seating.seats :=
      List.forall_mem_cons.mpr ⟨Seating.mem_seats_of_seatOf? hactor,
        List.forall_mem_singleton.mpr (Seating.mem_seats_of_seatOf? hname)⟩
    exact .spared ((Board.spares_opened
      (b := { b with investigated := b.investigated.insert target () }) hnext).after
      (List.forall_mem_cons.mpr ⟨⟨hboth, nofun⟩, List.forall_mem_singleton.mpr ⟨hboth, nofun⟩⟩))
  | @callElection b president target _ _ hactor hname _ =>
    have htarget := Seating.mem_seats_of_seatOf? hname
    have hcalled : Event.Harmless b.seating (.specialElectionCalled president target) :=
      ⟨List.forall_mem_cons.mpr ⟨Seating.mem_seats_of_seatOf? hactor,
        List.forall_mem_singleton.mpr htarget⟩, nofun⟩
    exact .spared ⟨List.forall_mem_cons.mpr ⟨hcalled, List.forall_mem_singleton.mpr
      (Event.harmless_of_singleton rfl htarget nofun)⟩, rfl, rfl, nofun⟩
  | killHitler _ hname hother _ =>
    exact .killed rfl (Seating.mem_seats_of_seatOf? hname) hother (fun _ _ => rfl)
      (Board.spares_gameOver _ _ _) rfl
  | @kill b _ target next _ _ _ roles _ hname hother _ _ hroles _ hnext =>
    have hrest := Board.spares_opened
      (b := { b with seating := b.seating.without target, roles := roles }) hnext
    refine .killed rfl (Seating.mem_seats_of_seatOf? hname) hother (fun s hs => ?_) hrest rfl
    obtain ⟨rfl, -⟩ := RoleMap.ofTable_eq_ok.mp hroles
    rw [RoleMap.roleOf, RoleMap.roleOf, Table.find?_erase_of_ne (Ne.symm hs)]

end Running

/-! ## What a step leaves -/

/-- **What has become of a table**: those are left who were not killed, each with the name
and the role it had. -/
structure Running.Survives (g₀ : Running) (log : List Event) (g : Running) : Prop where
  seats : ∀ s, s ∈ g.board.seating.seats ↔
    s ∈ g₀.board.seating.seats ∧ .playerExecuted s ∉ log
  names : ∀ s ∈ g.board.seating.seats, g.board.seating.nameOf? s = g₀.board.seating.nameOf? s
  roles : ∀ s ∈ g.board.seating.seats, g.board.roles.roleOf s = g₀.board.roles.roleOf s

/-- **Events that name only the living**: players of a table who were not killed before. -/
def Event.NameLiving (t : Seating) (events : List Event) : Prop :=
  ∀ earlier e later, events = earlier ++ e :: later →
    ∀ s ∈ e.seats, s ∈ t.seats ∧ .playerExecuted s ∉ earlier

namespace Running

variable {g₀ g g' : Running} {log events : List Event} {step : Step}

theorem Survives.refl (g : Running) : g.Survives [] g :=
  ⟨fun _ => (and_iff_left List.not_mem_nil).symm, fun _ _ => rfl, fun _ _ => rfl⟩

theorem Survives.trans (h : g₀.Survives log g) (h' : g.Survives events g') :
    g₀.Survives (log ++ events) g' := by
  refine ⟨fun s => ?_, fun s hs => ?_, fun s hs => ?_⟩
  · rw [h'.seats, h.seats, List.mem_append, not_or, and_assoc]
  · exact (h'.names s hs).trans (h.names s ((h'.seats s).mp hs).1)
  · exact (h'.roles s hs).trans (h.roles s ((h'.seats s).mp hs).1)

/-- Who is killed is missing from the table, and nobody else. -/
theorem survives_killed {target : Seat} {roles : RoleMap}
    (hsame : ∀ s, s ≠ target → roles.roleOf s = g.board.roles.roleOf s) :
    g.Survives [.playerExecuted target]
      ⟨{ g.board with seating := g.board.seating.without target, roles := roles }, g.phase⟩ := by
  have hleft {s : Seat} (hs : s ∈ (g.board.seating.without target).seats) : s ≠ target :=
    (Seating.mem_seats_without.mp hs).2
  refine ⟨fun s => ?_, fun s hs => ?_, fun s hs => hsame s (hleft hs)⟩
  · rw [List.mem_singleton, Event.playerExecuted.injEq]
    exact Seating.mem_seats_without
  · exact Table.find?_erase_of_ne (Ne.symm (hleft hs))

theorem survives_spared (h : step.Spares g.board.seating g.board.roles) :
    step.Keeps (g.Survives step.events) := by
  refine h.players.imp fun g' ⟨hseating, hroles, _⟩ => ⟨fun s => ?_, fun s _ => ?_, fun s _ => ?_⟩
  · have hnot : .playerExecuted s ∉ step.events := fun hmem => (h.events _ hmem).spares s rfl
    rw [hseating, and_iff_left hnot]
  · rw [hseating]
  · rw [hroles]

namespace Fates

theorem polled (h : g.Fates step) : step.Keeps Polled := by
  cases h with
  | spared hspares => exact hspares.players.imp fun _ hg => hg.2.2
  | killed _ _ _ _ hrest hstep =>
    rw [hstep]
    exact hrest.players.imp fun _ hg => hg.2.2

/-- **Whoever is not reported killed survives a step** as they were. -/
theorem survives (h : g.Fates step) : step.Keeps (g.Survives step.events) := by
  cases h with
  | spared hspares => exact survives_spared hspares
  | @killed _ target roles rest _ _ _ hsame hrest hstep =>
    subst hstep
    -- first the one is taken off the table, then the rest of the step spares the others
    have hspared := survives_spared
      (g := ⟨{ g.board with seating := g.board.seating.without target, roles := roles }, g.phase⟩)
      hrest
    exact hspared.imp fun _ hg => (survives_killed hsame).trans hg

/-- **A step names only the living.** -/
theorem nameLiving (h : g.Fates step) : Event.NameLiving g.board.seating step.events := by
  intro earlier e later hevents s hs
  cases h with
  | spared hspares =>
    refine ⟨(hspares.events e (hevents ▸ by simp)).seated s hs, fun hmem => ?_⟩
    exact (hspares.events _ (hevents ▸ List.mem_append_left _ hmem)).spares s rfl
  | @killed _ target roles rest _ htarget _ _ hrest hstep =>
    subst hstep
    cases earlier with
    | nil =>
      obtain ⟨rfl, -⟩ := List.cons.inj hevents
      rw [List.mem_singleton.mp hs]
      exact ⟨htarget, List.not_mem_nil⟩
    | cons first earlier =>
      obtain ⟨rfl, hlater⟩ := List.cons.inj hevents
      have hlater : rest.events = earlier ++ e :: later := hlater
      obtain ⟨hseat, hne⟩ := Seating.mem_seats_without.mp
        ((hrest.events e (hlater ▸ by simp)).seated s hs)
      refine ⟨hseat, fun hmem => ?_⟩
      rcases List.mem_cons.mp hmem with hfirst | hmem
      · exact hne (Event.playerExecuted.inj hfirst)
      · exact (hrest.events _ (hlater ▸ List.mem_append_left _ hmem)).spares s rfl

/-- **Nobody is killed by a power of their own.** -/
theorem killed_other (h : g.Fates step) {target : Seat}
    (hkilled : .playerExecuted target ∈ step.events) :
    ∃ president, g.phase = .powerPending .execution president ∧ target ≠ president := by
  cases h with
  | spared hspares => exact absurd rfl ((hspares.events _ hkilled).spares target)
  | @killed president _ _ rest hphase _ hother _ hrest hstep =>
    subst hstep
    rcases List.mem_cons.mp hkilled with hfirst | hlater
    · obtain rfl := Event.playerExecuted.inj hfirst
      exact ⟨president, hphase, hother⟩
    · exact absurd rfl ((hrest.events _ hlater).spares target)

end Fates

/-- **Whoever is named in an accepted action** is there. -/
theorem Moves.names {a : Action} (h : g.Moves a step) :
    ∀ name ∈ a.names, ∃ s, g.board.seating.seatOf? name = some s := by
  cases h with
  | nominate hactor hname _ | investigate hactor hname _ _ _ _ | callElection hactor hname _
  | killHitler hactor hname _ _ | kill hactor hname _ _ _ _ _ _ =>
    exact List.forall_mem_cons.mpr ⟨⟨_, hactor⟩, List.forall_mem_singleton.mpr ⟨_, hname⟩⟩
  | vote hactor _ _ | decide hactor _ _ _ | discard hactor _ | enact hactor _ _ _
  | requestVeto hactor _ | refuseVeto hactor | approveVeto hactor _ _ _ =>
    exact List.forall_mem_singleton.mpr ⟨_, hactor⟩

end Running

/-! ## Histories -/

/-- A game that has come of a table: its players are those who survive. -/
def Game.ComesOf (g₀ : Running) (log : List Event) : Game → Prop
  | lobby _ => False
  | running g => g₀.Survives log g ∧ g.Polled
  | completed _ => True

namespace Game.History

variable {r : Rules} {g₀ : Running} {past : List Deed} {g : Game} {d : Deed}

theorem comesOf (hr : r.Valid) (hreach : Reachable r (.running g₀)) (hpolled : g₀.Polled)
    (h : History (.running g₀) past g) : g.ComesOf g₀ (Deed.log past) := by
  refine h.cases_on_last (P := fun past g => g.ComesOf g₀ (Deed.log past))
    ?_ (fun past l a step _ ih _ => ih.elim) fun past g a step hpast ih hmove => ?_
  · exact ⟨.refl g₀, hpolled⟩
  obtain ⟨hsurvives, hpolled⟩ := ih
  have hsound : g.Sound := (hpast.reachable hreach).sound hr
  have hfates := hmove.fates hsound hpolled
  rw [Deed.log_append, Deed.log_singleton]
  obtain ⟨g', hgame, hleft, hpolled'⟩ | ⟨v, hgame⟩ := (hfates.survives.and hfates.polled).cases
  · rw [hgame]
    exact ⟨hsurvives.trans hleft, hpolled'⟩
  · rw [hgame]
    trivial

/-- **A deed among the survivors**: what it does to them, and whom it names. -/
theorem exists_fates (hr : r.Valid) (hreach : Reachable r (.running g₀)) (hpolled : g₀.Polled)
    (h : History (.running g₀) past d.before) (hd : d.Happens) :
    ∃ g, d.before = .running g ∧ g₀.Survives (Deed.log past) g ∧ g.Fates d.step ∧
      ∀ name ∈ d.action.names, ∃ s, g.board.seating.seatOf? name = some s := by
  have hcomes := h.comesOf hr hreach hpolled
  obtain ⟨l, hlobby, -⟩ | ⟨g, hgame, hmove⟩ := hd.gathers_or_moves
  · rw [hlobby] at hcomes
    exact hcomes.elim
  · rw [hgame] at hcomes h
    have hsound : g.Sound := (h.reachable hreach).sound hr
    exact ⟨g, hgame, hcomes.1, hmove.fates hsound hcomes.2, hmove.names⟩

/-- **No event names the dead.** -/
theorem notMem_seats (hr : r.Valid) (hreach : Reachable r (.running g₀)) (hpolled : g₀.Polled)
    (h : History (.running g₀) past g) {earlier later : List Event} {e : Event}
    (hlog : Deed.log past = earlier ++ e :: later) {target : Seat}
    (hkilled : .playerExecuted target ∈ earlier) : target ∉ e.seats := by
  intro hnamed
  obtain ⟨before, d, after, first, last, rfl, hevents, rfl⟩ := Deed.exists_of_log_eq hlog
  obtain ⟨hbefore, hd, -⟩ := h.split
  obtain ⟨g', -, hsurvives, hfates, -⟩ := hbefore.exists_fates hr hreach hpolled hd
  -- killed by an earlier deed, or earlier in this one
  obtain ⟨hseated, hnot⟩ := hfates.nameLiving first e last hevents target hnamed
  rcases List.mem_append.mp hkilled with hlog | hfirst
  · exact ((hsurvives.seats target).mp hseated).2 hlog
  · exact hnot hfirst

/-- **No accepted action names the dead.** -/
theorem notMem_names (hr : r.Valid) (hreach : Reachable r (.running g₀)) (hpolled : g₀.Polled)
    (h : History (.running g₀) past d.before) (hd : d.Happens) {target : Seat} {name : String}
    (hkilled : .playerExecuted target ∈ Deed.log past)
    (hname : g₀.board.seating.nameOf? target = some name) : name ∉ d.action.names := by
  intro hnamed
  obtain ⟨g, -, hsurvives, -, hnames⟩ := h.exists_fates hr hreach hpolled hd
  obtain ⟨s, hs⟩ := hnames name hnamed
  have hseated := Seating.mem_seats_of_seatOf? hs
  have hname' : g₀.board.seating.nameOf? s = some name :=
    (hsurvives.names s hseated).symm.trans (Seating.nameOf?_of_seatOf? hs)
  -- no two players share a name
  have hdistinct : g₀.board.seating.Distinct :=
    Running.Sound.board (hreach.sound hr) |>.distinct
  rw [← Seating.seatOf?_eq_some_iff hdistinct] at hname hname'
  obtain rfl := Option.some.inj (hname.symm.trans hname')
  exact ((hsurvives.seats _).mp hseated).2 hkilled

end Game.History

/-- Names are seated from one up to their number. -/
theorem Seating.mem_seats_of_ofNames {names : List String} {seating : Seating}
    (h : ofNames names = .ok seating) (hsize : names.length < UInt32.size) {s : Seat} :
    s ∈ seating.seats ↔ 1 ≤ rank s ∧ rank s ≤ names.length := by
  have hrank {i : ℕ} (hi : i < names.length) : rank (⟨.ofNat (i + 1)⟩ : Seat) = i + 1 :=
    UInt32.toNat_ofNat_of_lt' (by omega)
  rw [← List.mem_toFinset, toFinset_seats_of_ofNames h, Finset.mem_image]
  constructor
  · rintro ⟨i, hi, rfl⟩
    have hless := Finset.mem_range.mp hi
    rw [hrank hless]
    omega
  · rintro ⟨hpos, hle⟩
    have hless : rank s - 1 < names.length := by omega
    refine ⟨rank s - 1, Finset.mem_range.mpr hless, Ranked.rank_inj ?_⟩
    rw [hrank hless]
    omega

/-- **A start seats everybody**, from one up, and nobody has voted. -/
theorem Lobby.Sound.seats_of_start {r : Rules} {l : Lobby} (hl : l.Sound r) (hr : r.Valid)
    {σ : Type} [RandomSource σ] {actor : String} {s t : σ} {step : Step}
    (h : l.start actor s = (.ok step, t)) :
    ∃ g, step.game = .running g ∧ g.Polled ∧
      ∀ seat, seat ∈ g.board.seating.seats ↔ 1 ≤ rank seat ∧ rank seat ≤ l.players.length := by
  obtain ⟨_, seating, _, _, _, -, hseating, -, -, -, rfl⟩ := exists_of_start h
  exact ⟨_, rfl, Running.polled_of_nomination,
    fun _ => Seating.mem_seats_of_ofNames hseating (hl.length_lt hr)⟩

/-- **Who is killed stays out, and nobody else is touched.** Once a game of so many players
has started under a valid rule set, the players of every game that comes of it are all of
them but those who were killed, each on the seat and with the name and the role that the
start dealt, and Hitler is one of them. After a player is killed no event names the seat
and no accepted action the name. Nobody is killed by a power of their own. -/
theorem Rules.Valid.killed_stay_out {r : Rules} (hr : r.Valid) {l : Lobby}
    (hl : Game.Reachable r (.lobby l)) {σ : Type} [RandomSource σ] {actor : String} {s t : σ}
    {step : Step} (hstart : Game.apply (.lobby l) (.start actor) s = (.ok step, t)) :
    ∃ g₀, step.game = .running g₀ ∧ ∀ past g, Game.History step.game past g →
      (∀ g', g = .running g' →
        (∀ seat, seat ∈ g'.board.seating.seats ↔
          (1 ≤ rank seat ∧ rank seat ≤ l.players.length) ∧
            .playerExecuted seat ∉ Deed.log past) ∧
        (∀ seat ∈ g'.board.seating.seats,
          g'.board.seating.nameOf? seat = g₀.board.seating.nameOf? seat ∧
          g'.board.roles.roleOf seat = g₀.board.roles.roleOf seat) ∧
        ∃ seat ∈ g'.board.seating.seats, g'.board.roles.roleOf seat = .ok .hitler) ∧
      (∀ earlier e later, Deed.log past = earlier ++ e :: later →
        ∀ target, .playerExecuted target ∈ earlier → target ∉ e.seats) ∧
      ∀ before d after, past = before ++ d :: after →
        (∀ target name, .playerExecuted target ∈ Deed.log before →
          g₀.board.seating.nameOf? target = some name → name ∉ d.action.names) ∧
        ∀ target, .playerExecuted target ∈ d.step.events →
          ∃ g' president, d.before = .running g' ∧
            g'.phase = .powerPending .execution president ∧ target ≠ president := by
  have hlobby : l.Sound r := hl.sound hr
  obtain ⟨g₀, hgame₀, hpolled, hseats⟩ := hlobby.seats_of_start hr (Game.play_of_apply hstart)
  have hreach : Game.Reachable r (.running g₀) := hgame₀ ▸ hl.apply hstart
  rw [hgame₀]
  refine ⟨g₀, rfl, fun past g hpast => ⟨fun g' hgame => ?_,
    fun earlier e later hlog target hkilled => hpast.notMem_seats hr hreach hpolled hlog hkilled,
    fun before d after hcut => ?_⟩⟩
  · subst hgame
    obtain ⟨hsurvives, -⟩ := hpast.comesOf hr hreach hpolled
    have hsound : g'.Sound := (hpast.reachable hreach).sound hr
    refine ⟨fun seat => ?_, fun seat hseat => ⟨hsurvives.names seat hseat,
      hsurvives.roles seat hseat⟩, hsound.board.exists_hitler⟩
    rw [hsurvives.seats, hseats]
  · subst hcut
    obtain ⟨hbefore, hd, -⟩ := hpast.split
    obtain ⟨g', hgame, -, hfates, -⟩ := hbefore.exists_fates hr hreach hpolled hd
    refine ⟨fun target name hkilled hname =>
      hbefore.notMem_names hr hreach hpolled hd hkilled hname, fun target hkilled => ?_⟩
    obtain ⟨president, hphase, hother⟩ := hfates.killed_other hkilled
    exact ⟨g', president, hgame, hphase, hother⟩

/-- In the eventful game the fourth of five players is killed by the first: the seat is
taken no more, and the name is in no action that comes after. -/
theorem Rules.Valid.killed_stay_out_eventful :
    Rules.eventful.Valid ∧ ∃ (l : Lobby) (σ : Type) (_ : RandomSource σ) (s t : σ) (start : Step)
        (g₀ g : Running) (past : List Deed),
      Game.Reachable .eventful (.lobby l) ∧ l.players = ["a", "b", "c", "d", "e"] ∧
      Game.apply (.lobby l) (.start "a") s = (.ok start, t) ∧ start.game = .running g₀ ∧
      Game.History start.game past (.running g) ∧ .playerExecuted ⟨4⟩ ∈ Deed.log past ∧
      ⟨4⟩ ∉ g.board.seating.seats ∧
      g.board.seating.nameOf? ⟨5⟩ = g₀.board.seating.nameOf? ⟨5⟩ ∧
      ∃ before after, past = before ++ after ∧ after.length = 39 ∧
        ∀ d ∈ after, ∀ name, g₀.board.seating.nameOf? ⟨4⟩ = some name → name ∉ d.action.names := by
  have hr : Rules.eventful.Valid := by decide
  obtain ⟨g, hpast⟩ := history_eventfulPast
  obtain ⟨⟨before, a, start⟩, hcut, hlobby, haction⟩ :
      ∃ d, eventfulPast = eventfulPast.take 5 ++ d :: eventfulPast.drop 6 ∧
        d.before = .lobby ⟨["a", "b", "c", "d", "e"], .eventful⟩ ∧ d.action = .start "a" :=
    Deed.exists_of_any (by decide +kernel)
  dsimp only at hlobby haction
  subst hlobby haction
  have hwhole := hpast
  rw [hcut] at hwhole
  obtain ⟨hbefore, ⟨σ, hσ, s, t, hstart⟩, hafter⟩ := hwhole.split
  have hl := hbefore.reachable .new
  obtain ⟨g₀, hg₀, hall⟩ := hr.killed_stay_out hl hstart
  obtain ⟨hleft, -, hdeeds⟩ := hall _ _ hafter
  obtain ⟨hseats, hsame, -⟩ := hleft g rfl
  have hkilled : .playerExecuted ⟨4⟩ ∈ Deed.log (eventfulPast.drop 6) := by decide +kernel
  have hfive : (⟨5⟩ : Seat) ∈ g.board.seating.seats :=
    (hseats _).mpr ⟨by decide, by decide +kernel⟩
  refine ⟨hr, _, σ, hσ, s, t, start, g₀, g, _, hl, rfl, hstart, hg₀, hafter, hkilled,
    fun hfour => ((hseats _).mp hfour).2 hkilled, (hsame _ hfive).1,
    (eventfulPast.drop 6).take 9, (eventfulPast.drop 6).drop 9, (List.take_append_drop ..).symm,
    by decide +kernel, fun d hd name hname => ?_⟩
  obtain ⟨between, rest, hrest⟩ := List.append_of_mem hd
  have hfirst : .playerExecuted ⟨4⟩ ∈ Deed.log ((eventfulPast.drop 6).take 9) := by decide +kernel
  refine (hdeeds ((eventfulPast.drop 6).take 9 ++ between) d rest ?_).1 ⟨4⟩ name ?_ hname
  · rw [List.append_assoc, ← hrest, List.take_append_drop]
  · rw [Deed.log_append]
    exact List.mem_append_left _ hfirst

end SecretHitler
