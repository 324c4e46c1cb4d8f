import SecretHitler.Proofs.History
import SecretHitler.Proofs.Observer
import SecretHitler.Proofs.Victories
import Mathlib.Data.Finset.Option
/-!
# Powers

A fascist policy may put a power into the president's hands, but only if a government
enacted it, and only short of the goal. Each such power is activated once, for the
president of that government (`Empowers.activated`), and nothing else happens until it is
used (`Moves.uses`). Chaos is where a power could slip in, since it puts the same policies
on the same track; it activates none. `Rules.Valid.powers_fire` puts this together for all
that has happened in a game.
-/

namespace SecretHitler

namespace Event

/-- The power that an event activates, and whose it is. -/
def activated? : Event → Option (Power × Option Seat)
  | powerActivated power president => some (power, some president)
  | _ => none

/-- The power that a government's fascist policy comes to, short of the goal. -/
def due? (c : Configuration) : Event → Option Power
  | policyEnacted .fascist .government _ fascist =>
    if fascist < c.fascistGoal then c.powerAt fascist else none
  | _ => none

/-- Whom an event reports as investigated. -/
def investigated? : Event → Option Seat
  | playerInvestigated _ target => some target
  | _ => none

/-- An event that has nothing to do with powers: none is activated, no government enacts a
policy and nobody is investigated. -/
def Powerless : Event → Prop
  | powerActivated .. => False
  | policyEnacted _ .government _ _ => False
  | playerInvestigated .. => False
  | _ => True

theorem Powerless.activated {e : Event} (h : e.Powerless) : e.activated? = none := by
  cases e with
  | powerActivated => exact h.elim
  | _ => rfl

theorem Powerless.investigated {e : Event} (h : e.Powerless) : e.investigated? = none := by
  cases e with
  | playerInvestigated => exact h.elim
  | _ => rfl

theorem Powerless.due {e : Event} (h : e.Powerless) (c : Configuration) : e.due? c = none := by
  cases e with
  | policyEnacted p enactor liberal fascist =>
    cases enactor with
    | government => exact h.elim
    | chaos => cases p <;> rfl
  | _ => rfl

end Event

/-- The powers that a step activates, and whose they are. -/
def Step.activated (s : Step) : List (Power × Option Seat) := s.events.filterMap Event.activated?

/-- Whom a step reports as investigated. -/
def Step.investigated (s : Step) : List Seat := s.events.filterMap Event.investigated?

/-- **The powers that are due** for what a deed enacts, each to the president of the
government in office. -/
def Deed.due (d : Deed) : List (Power × Option Seat) :=
  match d.before with
  | .running g =>
    (d.step.events.filterMap (Event.due? g.board.config)).map
      (·, g.phase.sitting.map Government.president)
  | _ => []

/-! ## One step -/

/-- A step that has nothing to do with powers. -/
def Step.Powerless (s : Step) : Prop := ∀ e ∈ s.events, e.Powerless

namespace Step.Powerless

variable {s : Step}

/-- It activates none, -/
theorem activated_eq (h : s.Powerless) : s.activated = [] :=
  List.filterMap_eq_nil_iff.mpr fun e he => (h e he).activated

/-- investigates nobody, -/
theorem investigated_eq (h : s.Powerless) : s.investigated = [] :=
  List.filterMap_eq_nil_iff.mpr fun e he => (h e he).investigated

/-- and none is due for what it enacts. -/
theorem due_eq (h : s.Powerless) (c : Configuration) :
    s.events.filterMap (Event.due? c) = [] :=
  List.filterMap_eq_nil_iff.mpr fun e he => (h e he).due c

/-- Events that have nothing to do with powers may come before. -/
theorem after (h : s.Powerless) {events : List Event}
    (hevents : ∀ e ∈ events, e.Powerless) : (s.after events).Powerless :=
  List.forall_mem_append.mpr ⟨hevents, h⟩

end Step.Powerless

namespace Board

variable {b : Board} {step : Step}

theorem powerless_gameOver (v : Victory) : (Step.gameOver v).Powerless := by
  simp [Step.Powerless, Step.gameOver, Event.Powerless]

theorem powerless_opened (b : Board) (next : Seat) : (b.opened next).Powerless := by
  simp [Step.Powerless, opened, beginElection, Event.Powerless]

theorem powerless_reshuffleEvents (d : Deck) (reshuffled : Bool) :
    ∀ e ∈ reshuffleEvents d reshuffled, e.Powerless := by
  cases reshuffled with
  | false => exact nofun
  | true => simp [reshuffleEvents, Event.Powerless]

/-- What chaos enacts, no government has. -/
theorem powerless_chaosEvents (drawn : Drawn Policy) (track : Track) :
    ∀ e ∈ chaosEvents drawn track, e.Powerless := by
  refine List.forall_mem_append.mpr ⟨List.forall_mem_cons.mpr ⟨trivial, ?_⟩, ?_⟩
  · exact powerless_reshuffleEvents _ _
  · simp [Event.Powerless]

/-- **Chaos has nothing to do with powers.** -/
theorem Collapses.powerless (h : b.Collapses step) : step.Powerless := by
  cases h with
  | ended _ _ _ => exact (powerless_gameOver _).after (powerless_chaosEvents _ _)
  | goesOn _ _ _ _ => exact (powerless_opened _ _).after (powerless_chaosEvents _ _)

/-- A failed government has no power, be it counted or followed by chaos. -/
theorem Fails.powerless (h : b.Fails step) : step.Powerless := by
  cases h with
  | counted _ _ _ => exact powerless_opened _ _
  | collapsed _ _ hchaos => exact hchaos.powerless

/-- A vote gives a government no power yet. -/
theorem Resolves.powerless {g : Government} {votes : Votes} (h : b.Resolves g votes step) :
    step.Powerless := by
  cases h with
  | hitlerElected _ _ => exact (powerless_gameOver _).after (by simp [Event.Powerless])
  | elected _ _ _ =>
    exact List.forall_mem_cons.mpr ⟨trivial, List.forall_mem_cons.mpr
      ⟨trivial, powerless_reshuffleEvents _ _⟩⟩
  | rejected _ _ hfails => exact hfails.powerless.after (by simp [Event.Powerless])

variable {president : Seat} {p : Policy} {track : Track} {v : Victory}

/-- For a policy that wins no power is due. -/
theorem due_of_goalReached (h : (b.governed track).goalReached p = some v) :
    Event.due? b.config (.policyEnacted p .government track.liberal track.fascist) = none := by
  cases p with
  | liberal => rfl
  | fascist =>
    refine if_neg fun hbelow => ?_
    have hnone : (b.governed track).goalReached .fascist = none := goalReached_eq_none.mpr hbelow
    rw [hnone] at h
    cases h

/-- For any other, what is due is what it unlocks. -/
theorem due_eq_unlocked (h : (b.governed track).goalReached p = none) :
    Event.due? b.config (.policyEnacted p .government track.liberal track.fascist) =
      (b.governed track).unlocked p := by
  cases p with
  | liberal => rfl
  | fascist => exact if_pos (goalReached_eq_none.mp h)

/-- **A government's enactment activates the power that is due**, for its president. -/
theorem Enacts.activated (h : b.Enacts president p step) :
    step.activated = (step.events.filterMap (Event.due? b.config)).map (·, some president) := by
  cases h with
  | ended _ hgoal =>
    rw [Step.after, List.filterMap_append, List.filterMap_cons_none (due_of_goalReached hgoal)]
    rfl
  | goesOn _ hgoal hlocked _ =>
    rw [Step.after, List.filterMap_append,
      List.filterMap_cons_none ((due_eq_unlocked hgoal).trans hlocked)]
    rfl
  | peeks _ hgoal hunlocked _ _ =>
    rw [Step.after, List.filterMap_append,
      List.filterMap_cons_some ((due_eq_unlocked hgoal).trans hunlocked)]
    rfl
  | waits _ hgoal hunlocked _ =>
    rw [List.filterMap_cons_some ((due_eq_unlocked hgoal).trans hunlocked)]
    rfl

theorem Enacts.chaos_notMem (h : b.Enacts president p step) {q : Policy}
    {liberal fascist : UInt32} : .policyEnacted q .chaos liberal fascist ∉ step.events := by
  cases h with
  | ended _ _ | goesOn _ _ _ _ | peeks _ _ _ _ _ | waits _ _ _ _ =>
    simp [Step.after, Step.gameOver, opened, beginElection]

/-- A power that was activated waits on the president, unless it is a peek. -/
theorem Enacts.awaits {power : Power} {owner : Seat} (h : b.Enacts president p step)
    (hactivated : .powerActivated power owner ∈ step.events) (hpeek : power ≠ .policyPeek) :
    ∃ b' pending, power.pending = some pending ∧
      step.game = .running ⟨b', .powerPending pending owner⟩ := by
  cases h with
  | ended _ _ | goesOn _ _ _ _ =>
    simp [Step.after, Step.gameOver, opened, beginElection] at hactivated
  | peeks _ _ _ _ _ =>
    simp only [Step.after, opened, beginElection, List.mem_append, List.mem_cons,
      List.not_mem_nil, reduceCtorEq, Event.powerActivated.injEq, or_false, false_or] at hactivated
    exact absurd hactivated.1 hpeek
  | waits _ _ _ hpending =>
    simp only [List.mem_cons, List.not_mem_nil, reduceCtorEq, Event.powerActivated.injEq, or_false,
      false_or] at hactivated
    obtain ⟨rfl, rfl⟩ := hactivated
    exact ⟨_, _, hpending, rfl⟩

end Board

namespace Running

variable {g : Running} {a : Action} {step : Step}

/-- **What a step has to do with powers**: the government in office enacts a policy,
somebody new is investigated, or nothing. -/
inductive Empowers (g : Running) (s : Step) : Prop
  | enacts {b : Board} {government : Government} {p : Policy} :
      g.phase.sitting = some government → b.config = g.board.config →
      b.Enacts government.president p s → Empowers g s
  | investigates {president target next : Seat} {party : Party} :
      g.board.investigated.contains target = false →
      s.events = [.playerInvestigated president target, .partyRevealed president target party,
        .electionStarted next false] → Empowers g s
  | rests : s.Powerless → Empowers g s

/-- **What a move has to do with powers.** -/
theorem Moves.empowers (h : g.Moves a step) : g.Empowers step := by
  cases h with
  | decide _ _ _ hresolves =>
    exact .rests (hresolves.powerless.after (by simp [Event.Powerless]))
  | @enact b _ _ _ _ other _ _ _ _ _ _ henacts =>
    exact .enacts (b := { b with deck := b.deck.discard other }) rfl rfl henacts
  | approveVeto _ _ _ hfails =>
    exact .rests (hfails.powerless.after (List.forall_mem_cons.mpr
      ⟨trivial, Board.powerless_reshuffleEvents _ _⟩))
  | investigate _ _ _ hfresh _ _ => exact .investigates hfresh rfl
  | _ =>
    refine .rests ?_
    simp [Step.Powerless, Step.after, Step.gameOver, Board.opened, Board.callElection,
      Board.beginElection, Event.Powerless]

namespace Empowers

/-- **What is due is activated**, and nothing else. -/
theorem activated (h : g.Empowers step) :
    step.activated = (step.events.filterMap (Event.due? g.board.config)).map
      (·, g.phase.sitting.map Government.president) := by
  cases h with
  | enacts hsits hconfig henacts =>
    rw [henacts.activated, hsits, hconfig]
    rfl
  | investigates _ hevents =>
    rw [Step.activated, hevents]
    rfl
  | rests hnone =>
    rw [hnone.activated_eq, hnone.due_eq]
    rfl

/-- **Chaos activates nothing.** -/
theorem activated_of_chaos (h : g.Empowers step) {p : Policy} {liberal fascist : UInt32}
    (hchaos : .policyEnacted p .chaos liberal fascist ∈ step.events) : step.activated = [] := by
  cases h with
  | enacts _ _ henacts => exact absurd hchaos henacts.chaos_notMem
  | investigates _ hevents => simp [hevents] at hchaos
  | rests hnone => exact hnone.activated_eq

/-- **After a power that waits the game waits for it.** -/
theorem awaits (h : g.Empowers step) {power : Power} {president : Seat}
    (hactivated : .powerActivated power president ∈ step.events) (hpeek : power ≠ .policyPeek) :
    ∃ b pending, power.pending = some pending ∧
      step.game = .running ⟨b, .powerPending pending president⟩ := by
  cases h with
  | enacts _ _ henacts => exact henacts.awaits hactivated hpeek
  | investigates _ hevents => simp [hevents] at hactivated
  | rests hnone => exact (hnone _ hactivated).elim

/-- **Whoever is investigated** has not been investigated before. -/
theorem investigated (h : g.Empowers step) :
    step.investigated.Nodup ∧ ∀ target ∈ step.investigated, target ∉ g.board.investigated.keys := by
  cases h with
  | enacts _ _ henacts =>
    have hnone : step.investigated = [] := by
      cases henacts with
      | ended _ _ | goesOn _ _ _ _ | peeks _ _ _ _ _ | waits _ _ _ _ => rfl
    rw [hnone]
    exact ⟨.nil, nofun⟩
  | @investigates president target next party hfresh hevents =>
    have hone : step.investigated = [target] := by
      rw [Step.investigated, hevents]
      rfl
    rw [hone]
    refine ⟨List.nodup_singleton _, fun s hs hmem => ?_⟩
    rw [List.mem_singleton.mp hs, ← Table.contains_iff, hfresh] at hmem
    cases hmem
  | rests hnone =>
    rw [hnone.investigated_eq]
    exact ⟨.nil, nofun⟩

end Empowers

/-- **A pending power is what is used next**, by the president and on somebody else. -/
theorem Moves.uses {b : Board} {pending : PendingPower} {president : Seat}
    (h : Moves ⟨b, .powerPending pending president⟩ a step) :
    ∃ actor name target, a = .usePower pending actor name ∧
      b.seating.seatOf? actor = some president ∧ b.seating.seatOf? name = some target ∧
      target ≠ president := by
  cases h with
  | investigate hactor hname hother _ _ _ => exact ⟨_, _, _, rfl, hactor, hname, hother⟩
  | callElection hactor hname hother => exact ⟨_, _, _, rfl, hactor, hname, hother⟩
  | killHitler hactor hname hother _ => exact ⟨_, _, _, rfl, hactor, hname, hother⟩
  | kill hactor hname hother _ _ _ _ _ => exact ⟨_, _, _, rfl, hactor, hname, hother⟩

end Running

/-! ## Histories -/

theorem Lobby.Gathers.powerless {l : Lobby} {a : Action} {step : Step} (h : l.Gathers a step) :
    step.Powerless := by
  cases h with
  | join | leave | start =>
    simp [Step.Powerless, Step.after, Board.beginElection, Event.Powerless]

namespace Deed.Happens

variable {d : Deed}

/-- A deed activates the powers that are due for it. -/
theorem activated (h : d.Happens) : d.step.activated = d.due := by
  obtain ⟨l, hlobby, hgathers⟩ | ⟨g, hgame, hmove⟩ := h.gathers_or_moves
  · rw [due, hlobby, hgathers.powerless.activated_eq]
  · rw [due, hgame]
    exact hmove.empowers.activated

/-- A deed that ends in chaos activates none. -/
theorem activated_of_chaos (h : d.Happens) {p : Policy} {liberal fascist : UInt32}
    (hchaos : .policyEnacted p .chaos liberal fascist ∈ d.step.events) : d.step.activated = [] := by
  obtain ⟨l, -, hgathers⟩ | ⟨g, -, hmove⟩ := h.gathers_or_moves
  · exact hgathers.powerless.activated_eq
  · exact hmove.empowers.activated_of_chaos hchaos

/-- After an activation the president is waited for, unless there is only something to
look at. -/
theorem awaits (h : d.Happens) {power : Power} {president : Seat}
    (hactivated : .powerActivated power president ∈ d.step.events) (hpeek : power ≠ .policyPeek) :
    ∃ b pending, power.pending = some pending ∧
      d.step.game = .running ⟨b, .powerPending pending president⟩ := by
  obtain ⟨l, -, hgathers⟩ | ⟨g, -, hmove⟩ := h.gathers_or_moves
  · exact (hgathers.powerless _ hactivated).elim
  · exact hmove.empowers.awaits hactivated hpeek

end Deed.Happens

namespace Observer

theorem investigated_watch (o : Observer) (e : Event) :
    (o.watch e).investigated = o.investigated ∪ e.investigated?.toFinset := by
  cases e with
  | playerInvestigated president target =>
    rw [Finset.union_comm]
    rfl
  | powerActivated power president =>
    cases power with
    | investigateParty | specialElection | policyPeek | execution =>
      exact (Finset.union_empty _).symm
  | _ => exact (Finset.union_empty _).symm

/-- Who follows a game knows who was investigated from the reports of it. -/
theorem investigated_follow (o : Observer) (events : List Event) :
    (o.follow events).investigated =
      o.investigated ∪ (events.filterMap Event.investigated?).toFinset := by
  induction events generalizing o with
  | nil => exact (Finset.union_empty _).symm
  | cons e rest ih =>
    show ((o.watch e).follow rest).investigated = _
    rw [ih, investigated_watch, Finset.union_assoc]
    congr 1
    cases h : e.investigated? with
    | none => rw [List.filterMap_cons_none h, Option.toFinset_none, Finset.empty_union]
    | some target =>
      rw [List.filterMap_cons_some h, Option.toFinset_some, List.toFinset_cons,
        Finset.singleton_union]

end Observer

/-- A game whose record of investigations is complete, and names nobody twice. -/
def Game.OnRecord (targets : List Seat) : Game → Prop
  | lobby _ => targets = []
  | running g => targets.Nodup ∧ g.board.investigated.keys.toFinset = targets.toFinset
  | completed _ => targets.Nodup

namespace Game.History

variable {r : Rules} {past : List Deed} {g : Game}

/-- **The record of investigations is complete** and names nobody twice, whatever happens. -/
theorem onRecord (hr : r.Valid) (h : History (.new r) past g) :
    g.OnRecord ((Deed.log past).filterMap Event.investigated?) := by
  refine h.cases_on_last
    (P := fun past g => g.OnRecord ((Deed.log past).filterMap Event.investigated?))
    ?_ (fun past l a step _ ih hgathers => ?_) fun past g a step hpast ih hmove => ?_
  · rfl
  · have hnone : (Deed.log past).filterMap Event.investigated? = [] := ih
    have hstill :
        (Deed.log (past ++ [⟨.lobby l, a, step⟩])).filterMap Event.investigated? = [] := by
      rw [Deed.log_append, List.filterMap_append, hnone, Deed.log_singleton]
      exact hgathers.powerless.investigated_eq
    rw [hstill]
    cases hgathers with
    | join | leave => rfl
    | start => exact ⟨.nil, rfl⟩
  · obtain ⟨hnodup, hrecord⟩ := ih
    have hsound : g.Sound := (hpast.reachable .new).sound hr
    obtain ⟨honce, hnew⟩ := hmove.empowers.investigated
    have hmore : (Deed.log (past ++ [⟨.running g, a, step⟩])).filterMap Event.investigated? =
        (Deed.log past).filterMap Event.investigated? ++ step.investigated := by
      rw [Deed.log_append, List.filterMap_append, Deed.log_singleton]
      rfl
    rw [hmore]
    have hnodup' : ((Deed.log past).filterMap Event.investigated? ++ step.investigated).Nodup := by
      refine List.nodup_append.mpr ⟨hnodup, honce, fun s hs s' hs' => ?_⟩
      rintro rfl
      refine hnew s hs' ?_
      rwa [← List.mem_toFinset, hrecord, List.mem_toFinset]
    obtain ⟨g', hgame, -⟩ | ⟨v, hgame⟩ := (hmove.sound hsound).cases
    · -- the record grows by what is reported
      have htold : g.observed.follow step.events = g'.observed := by
        have htells : (g.observed.follow step.events).Shows step.game := hmove.tells hsound
        rw [hgame] at htells
        exact htells
      have hgrows : g'.board.investigated.keys.toFinset =
          g.board.investigated.keys.toFinset ∪ step.investigated.toFinset := by
        have hseen := g.observed.investigated_follow step.events
        rw [htold] at hseen
        exact hseen
      rw [hgame]
      refine ⟨hnodup', ?_⟩
      rw [hgrows, hrecord, List.toFinset_append]
    · rw [hgame]
      exact hnodup'

end Game.History

/-- **Powers fire once, and only for governments.** Under a valid rule set the powers that
are activated in a game are, one by one and in order, those that are due: one for each
fascist policy that a government enacts short of the goal on a space that holds a power,
for the president of that government. Unless the power is a peek, the next thing done is
to use it, by that president and on another player. Chaos activates nothing, and nobody is
investigated twice. -/
theorem Rules.Valid.powers_fire {r : Rules} (hr : r.Valid) {past : List Deed} {g : Game}
    (h : Game.History (.new r) past g) :
    (Deed.log past).filterMap Event.activated? = past.flatMap Deed.due ∧
    (∀ before d next after power president, past = before ++ d :: next :: after →
      .powerActivated power president ∈ d.step.events → power ≠ .policyPeek →
      ∃ g' pending actor name target, next.before = .running g' ∧
        power.pending = some pending ∧ next.action = .usePower pending actor name ∧
        g'.board.seating.seatOf? actor = some president ∧
        g'.board.seating.seatOf? name = some target ∧ target ≠ president) ∧
    (∀ d ∈ past, ∀ p liberal fascist,
      .policyEnacted p .chaos liberal fascist ∈ d.step.events → d.step.activated = []) ∧
    ((Deed.log past).filterMap Event.investigated?).Nodup := by
  refine ⟨?_, fun before d next after power president hpast hactivated hpeek => ?_,
    fun d hd p liberal fascist hchaos => (h.happens d hd).activated_of_chaos hchaos, ?_⟩
  · rw [Deed.log, List.filterMap_flatMap]
    exact List.flatMap_congr fun d hd => (h.happens d hd).activated
  · subst hpast
    obtain ⟨-, hd, hafter⟩ := h.split
    obtain ⟨b, pending, hpending, hgame⟩ := hd.awaits hactivated hpeek
    have hlater : Game.History d.step.game ([] ++ next :: after) g := hafter
    obtain ⟨hbefore, hnext, -⟩ := hlater.split
    have hsame : next.before = .running ⟨b, .powerPending pending president⟩ :=
      hbefore.eq_of_nil.trans hgame
    obtain ⟨l, hlobby, -⟩ | ⟨g', hgame', hmove⟩ := hnext.gathers_or_moves
    · rw [hsame] at hlobby
      cases hlobby
    · obtain rfl := Game.running.inj (hgame'.symm.trans hsame)
      obtain ⟨actor, name, target, haction, hactor, hname, hother⟩ := hmove.uses
      exact ⟨_, pending, actor, name, target, hgame', hpending, haction, hactor, hname, hother⟩
  · have hrecord := h.onRecord hr
    cases g with
    | lobby l =>
      have hnone : (Deed.log past).filterMap Event.investigated? = [] := hrecord
      rw [hnone]
      exact .nil
    | running g => exact hrecord.1
    | completed v => exact hrecord

/-- In the eventful game three powers are due and activated, and chaos activates none. The
first president has somebody killed at once, and one player is investigated. -/
theorem Rules.Valid.powers_fire_eventful :
    Rules.eventful.Valid ∧ ∃ g, Game.History (.new .eventful) eventfulPast g ∧
      (Deed.log eventfulPast).filterMap Event.activated? = eventfulPast.flatMap Deed.due ∧
      eventfulPast.flatMap Deed.due = [(.execution, some ⟨1⟩), (.specialElection, some ⟨2⟩),
        (.investigateParty, some ⟨1⟩)] ∧
      (∃ before d next after, eventfulPast = before ++ d :: next :: after ∧
        .powerActivated .execution ⟨1⟩ ∈ d.step.events ∧
        ∃ actor name, next.action = .usePower .execution actor name) ∧
      (∃ d ∈ eventfulPast, .policyEnacted .fascist .chaos 0 3 ∈ d.step.events ∧
        d.step.activated = []) ∧
      (Deed.log eventfulPast).filterMap Event.investigated? = [⟨3⟩] := by
  have hr : Rules.eventful.Valid := by decide
  obtain ⟨g, hpast⟩ := history_eventfulPast
  obtain ⟨hfires, huses, hchaos, -⟩ := hr.powers_fire hpast
  obtain ⟨d, hcut, hactivated⟩ :
      ∃ d, eventfulPast = eventfulPast.take 13 ++ d :: eventfulPast.drop 14 ∧
        .powerActivated .execution ⟨1⟩ ∈ d.step.events := Deed.exists_of_any (by decide +kernel)
  obtain ⟨d', hcut', henacted⟩ :
      ∃ d, eventfulPast = eventfulPast.take 37 ++ d :: eventfulPast.drop 38 ∧
        .policyEnacted .fascist .chaos 0 3 ∈ d.step.events := Deed.exists_of_any (by decide +kernel)
  have hmem : d' ∈ eventfulPast := by
    rw [hcut']
    simp
  cases hlater : eventfulPast.drop 14 with
  | nil => exact absurd hlater (by decide +kernel)
  | cons next after =>
    rw [hlater] at hcut
    obtain ⟨g', pending, actor, name, target, -, hpending, haction, -⟩ :=
      huses _ _ _ _ _ _ hcut hactivated (by decide)
    cases hpending
    exact ⟨hr, .running g, hpast, hfires, by decide +kernel,
      ⟨_, d, next, after, hcut, hactivated, actor, name, haction⟩,
      ⟨d', hmem, henacted, hchaos d' hmem _ _ _ henacted⟩, by decide +kernel⟩

end SecretHitler
