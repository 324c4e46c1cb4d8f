import SecretHitler.Proofs.History
import Mathlib.Data.List.DropRight
/-!
# Term limits

Whom the last government bars from the chancellery can be read off the log: it is the
latest government elected since chaos last broke out (`limitedGovernment`). The board
remembers just that, through every election and chaos, so a nomination is accepted
exactly as the log and the number of players at the table allow
(`Rules.Valid.limits_follow_log`). How many players are left is looked at when somebody
is nominated, not when the government is elected.
-/

namespace SecretHitler

namespace Event

/-- The government that an event reports as elected. -/
def elected? : Event → Option Government
  | governmentElected government _ => some government
  | _ => none

/-- Whether an event reports chaos. -/
def isChaos : Event → Bool
  | countryInChaos _ => true
  | _ => false

/-- Whom an event leaves limited. -/
def limit (limited : Option Government) (e : Event) : Option Government :=
  if e.isChaos then none else e.elected? <|> limited

end Event

/-- **The government whose members a log bars**: the latest that was elected, of those
since the latest chaos. -/
def limitedGovernment (log : List Event) : Option Government :=
  ((log.rtakeWhile fun e => !e.isChaos).filterMap Event.elected?).getLast?

theorem limitedGovernment_concat (log : List Event) (e : Event) :
    limitedGovernment (log ++ [e]) = Event.limit (limitedGovernment log) e := by
  rw [limitedGovernment, List.rtakeWhile_concat, Event.limit]
  cases hchaos : e.isChaos with
  | true => rfl
  | false =>
    rw [Bool.not_false, if_pos rfl, List.filterMap_append]
    cases helected : e.elected? with
    | none => simp [helected, limitedGovernment]
    | some government => simp [helected]

/-- A log that goes on limits from where it stood. -/
theorem limitedGovernment_append (log events : List Event) :
    limitedGovernment (log ++ events) = events.foldl Event.limit (limitedGovernment log) := by
  induction events using List.reverseRecOn with
  | nil => rw [List.append_nil, List.foldl_nil]
  | append_singleton events e ih =>
    rw [← List.append_assoc, limitedGovernment_concat, ih, List.foldl_concat]

/-! ## One step -/

/-- **A step that limits whom it reports to be limited**, from what was limited before. -/
def Step.Limits (limited : Option Government) (s : Step) : Prop :=
  s.Keeps fun g => g.board.election.termLimited = s.events.foldl Event.limit limited

theorem Step.Limits.after {limited limited' : Option Government} {s : Step} {events : List Event}
    (h : s.Limits limited') (hevents : events.foldl Event.limit limited = limited') :
    (s.after events).Limits limited := by
  refine Step.Keeps.imp h fun g hg => ?_
  show _ = (events ++ s.events).foldl Event.limit limited
  rw [List.foldl_append, hevents, hg]

namespace Board

variable {b : Board} {step : Step}

theorem foldl_limit_reshuffleEvents (limited : Option Government) (d : Deck) (reshuffled : Bool) :
    (reshuffleEvents d reshuffled).foldl Event.limit limited = limited := by
  cases reshuffled with
  | false | true => rfl

/-- Chaos is reported first, and nobody is limited then. -/
theorem foldl_limit_chaosEvents (limited : Option Government) (drawn : Drawn Policy)
    (track : Track) : (chaosEvents drawn track).foldl Event.limit limited = none := by
  rw [chaosEvents, List.cons_append, List.foldl_cons, List.foldl_append,
    foldl_limit_reshuffleEvents]
  rfl

/-- Chaos on a board that limits nobody. -/
theorem Collapses.limits (h : b.Collapses step) (hfree : b.election.termLimited = none)
    (limited : Option Government) : step.Limits limited := by
  cases h with
  | ended _ _ _ => exact trivial
  | @goesOn drawn track next _ _ _ _ =>
    have hopened : ((b.collapsed drawn.deck track).opened next).Limits none := hfree
    exact hopened.after (foldl_limit_chaosEvents limited drawn track)

theorem Fails.limits (h : b.Fails step) : step.Limits b.election.termLimited := by
  cases h with
  | counted _ _ _ => exact rfl
  | collapsed _ _ hchaos => exact hchaos.limits rfl _

theorem Enacts.limits {president : Seat} {p : Policy} (h : b.Enacts president p step) :
    step.Limits b.election.termLimited := by
  cases h with
  | ended _ _ => exact trivial
  | goesOn _ _ _ _ | peeks _ _ _ _ _ | waits _ _ _ _ => exact rfl

theorem Resolves.limits {g : Government} {votes : Votes} (h : b.Resolves g votes step) :
    step.Limits b.election.termLimited := by
  cases h with
  | hitlerElected _ _ => exact trivial
  | @elected drawn _ _ _ =>
    show some g = _
    exact (foldl_limit_reshuffleEvents (some g) drawn.deck drawn.reshuffled).symm
  | rejected _ _ hfails => exact hfails.limits.after rfl

end Board

/-- **Every move limits whom it reports.** -/
theorem Running.Moves.limits {g : Running} {a : Action} {step : Step} (h : g.Moves a step) :
    step.Limits g.board.election.termLimited := by
  cases h with
  | decide _ _ _ hresolves => exact hresolves.limits.after rfl
  | enact _ _ _ henacts => exact henacts.limits
  | @approveVeto _ _ _ _ deck reshuffled _ _ _ _ _ hfails =>
    exact hfails.limits.after (Board.foldl_limit_reshuffleEvents _ deck reshuffled)
  | killHitler _ _ _ _ => exact trivial
  | _ => exact rfl

/-! ## What does not change the limits -/

/-- **What has no say in the limits**: a power that is used, be it an execution or a special
election, a policy that a government enacts, with or without a power that it brings, and a
rejected vote or an answered veto, unless they bring chaos. -/
inductive Action.LeavesLimits (a : Action) (s : Step) : Prop
  | power {power : PendingPower} {actor target : String} :
      a = .usePower power actor target → LeavesLimits a s
  | policy {actor : String} {index : UInt64} : a = .enact actor index → LeavesLimits a s
  | rejection {government : Government} {ballots : Table Seat Ballot} {failed : UInt32} :
      .governmentRejected government ballots failed ∈ s.events →
      (∀ card, .countryInChaos card ∉ s.events) → LeavesLimits a s
  | veto {actor : String} {approved : Bool} : a = .answerVeto actor approved →
      (∀ card, .countryInChaos card ∉ s.events) → LeavesLimits a s

namespace Board

variable {b : Board} {step : Step}

/-- A failed government changes nothing unless it brings chaos. -/
theorem Fails.keepsLimits (h : b.Fails step) (hcalm : ∀ card, .countryInChaos card ∉ step.events) :
    step.Keeps (·.board.election.termLimited = b.election.termLimited) := by
  cases h with
  | counted _ _ _ => exact rfl
  | collapsed _ _ hchaos =>
    cases hchaos with
    | ended _ _ _ | goesOn _ _ _ _ => exact absurd (.head _) (hcalm _)

/-- A vote that is reported as rejected is one. -/
theorem Resolves.fails_of_rejected {g : Government} {votes : Votes} (h : b.Resolves g votes step)
    {government : Government} {ballots : Table Seat Ballot} {failed : UInt32}
    (hrejected : .governmentRejected government ballots failed ∈ step.events) :
    ∃ events last, step = Step.after events last ∧ b.Fails last := by
  cases h with
  | hitlerElected _ _ => simp [Step.after, Step.gameOver] at hrejected
  | @elected drawn _ _ _ =>
    obtain ⟨hand, deck, reshuffled⟩ := drawn
    cases reshuffled with
    | false | true => simp [reshuffleEvents] at hrejected
  | rejected _ _ hfails => exact ⟨_, _, rfl, hfails⟩

end Board

/-- **What has no say in the limits does not change them.** -/
theorem Running.Moves.keepsLimits {g : Running} {a : Action} {step : Step} (h : g.Moves a step)
    (hkind : a.LeavesLimits step) :
    step.Keeps (·.board.election.termLimited = g.board.election.termLimited) := by
  cases h with
  | decide _ _ _ hresolves =>
    cases hkind with
    | rejection hrejected hcalm =>
      have hreported := (List.mem_cons.mp hrejected).resolve_left nofun
      obtain ⟨events, last, rfl, hfails⟩ := hresolves.fails_of_rejected hreported
      exact hfails.keepsLimits fun card hcard =>
        hcalm card (List.mem_append_right _ (List.mem_append_right _ hcard))
    | power heq | policy heq | veto heq => cases heq
  | enact _ _ _ henacts =>
    cases henacts with
    | ended _ _ => exact trivial
    | goesOn _ _ _ _ | peeks _ _ _ _ _ | waits _ _ _ _ => exact rfl
  | approveVeto _ _ _ hfails =>
    cases hkind with
    | power heq | policy heq => cases heq
    | rejection _ hcalm | veto _ hcalm =>
      exact hfails.keepsLimits fun card hcard => hcalm card (List.mem_append_right _ hcard)
  | killHitler _ _ _ _ => exact trivial
  | _ => exact rfl

/-! ## Nominations -/

/-- Who is not barred from the chancellery. -/
theorem Election.isLimited_eq_false_iff {e : Election} {s : Seat} {living : ℕ} :
    e.isLimited s living = false ↔ ∀ government, e.termLimited = some government →
      s ≠ government.chancellor ∧ (5 < living → s ≠ government.president) := by
  rw [isLimited]
  cases e.termLimited with
  | none => simp
  | some government =>
    simp only [Option.some.injEq, forall_eq']
    split
    · rename_i hfew
      rw [beq_eq_false_iff_ne, ne_comm]
      exact (and_iff_left fun hmany => absurd hfew (Nat.not_le.mpr hmany)).symm
    · rename_i hmany
      rw [Government.contains, Bool.or_eq_false_iff, beq_eq_false_iff_ne, beq_eq_false_iff_ne,
        ne_comm, ne_comm (b := s), forall_prop_of_true (Nat.not_le.mp hmany), and_comm]

namespace Game

variable {σ : Type} [RandomSource σ] {r : Rules}

/-- In a sound game exactly what is allowed is accepted. -/
theorem Sound.apply_succeeds_iff (hr : r.Valid) {g : Game} (hg : g.Sound r) {a : Action} (s : σ) :
    (∃ step t, g.apply a s = (.ok step, t)) ↔ g.Allows a := by
  constructor
  · rintro ⟨step, t, hstep⟩
    by_contra hforbidden
    exact (apply_rejects hforbidden).ne_ok hstep
  · intro hallows
    exact hg.apply_succeeds hr hallows s

/-- **Whom a candidate can nominate**: everybody else at the table whom the last government
does not bar, as many as there are at the table now. -/
theorem Sound.nominate_succeeds_iff (hr : r.Valid) {b : Board} {candidate : Seat}
    (hg : Game.Sound r (.running ⟨b, .nomination candidate⟩)) {actor nominee : String}
    (hactor : b.seating.nameOf? candidate = some actor) (s : σ) :
    (∃ step t, Game.apply (.running ⟨b, .nomination candidate⟩) (.nominate actor nominee) s =
        (.ok step, t)) ↔
      ∃ seat, b.seating.seatOf? nominee = some seat ∧ seat ≠ candidate ∧
        ∀ government, b.election.termLimited = some government →
          seat ≠ government.chancellor ∧ (5 < b.living → seat ≠ government.president) := by
  have hb : b.Sound := Running.Sound.board hg
  rw [hg.apply_succeeds_iff hr]
  show (b.seating.seatOf? actor = some candidate ∧
    ∃ seat ∈ b.eligible candidate, b.seating.seatOf? nominee = some seat) ↔ _
  rw [and_iff_right ((Seating.seatOf?_eq_some_iff hb.distinct).mpr hactor)]
  refine exists_congr fun seat => ?_
  rw [Board.mem_eligible_iff, Election.isLimited_eq_false_iff]
  constructor
  · rintro ⟨⟨-, hother, hfree⟩, hnominee⟩
    exact ⟨hnominee, hother, hfree⟩
  · rintro ⟨hnominee, hother, hfree⟩
    exact ⟨⟨Seating.mem_seats_of_seatOf? hnominee, hother, hfree⟩, hnominee⟩

/-- A game that limits the government of a log. -/
def Limiting (log : List Event) : Game → Prop
  | lobby _ => limitedGovernment log = none
  | running g => g.board.election.termLimited = limitedGovernment log
  | completed _ => True

/-- **The board limits whom the log tells.** -/
theorem History.limiting {past : List Deed} {g : Game} (h : History (.new r) past g) :
    g.Limiting (Deed.log past) := by
  refine h.cases_on_last (P := fun past g => g.Limiting (Deed.log past)) ?_
    (fun past l a step _ ih hgathers => ?_) fun past g a step _ ih hmove => ?_
  · exact rfl
  · have hnone : limitedGovernment (Deed.log past) = none := ih
    rw [Deed.log_append, Deed.log_singleton]
    have hfree : limitedGovernment (Deed.log past ++ step.events) = none := by
      rw [limitedGovernment_append, hnone]
      cases hgathers with
      | join | leave | start => rfl
    cases hgathers with
    | join | leave => exact hfree
    | start => exact hfree.symm
  · have hlimited : g.board.election.termLimited = limitedGovernment (Deed.log past) := ih
    rw [Deed.log_append, Deed.log_singleton]
    obtain ⟨g', hgame, hlimits⟩ | ⟨v, hgame⟩ := hmove.limits.cases
    · rw [hgame]
      show g'.board.election.termLimited = _
      rw [hlimits, hlimited, limitedGovernment_append]
    · rw [hgame]
      trivial

end Game

/-- **Term limits follow the log.** Whatever has happened under a valid rule set, the board
limits the government that was elected last since chaos last broke out. A candidate has a
name, and its nomination of a player is accepted, on any luck, exactly if that is another
player at the table who is not that government's chancellor, nor, with more than five
players at the table at that moment, its president. Powers, executions, special elections
and policies do not change the limits, nor do rejected votes and vetoes without chaos. -/
theorem Rules.Valid.limits_follow_log {r : Rules} (hr : r.Valid) {past : List Deed} {g : Game}
    (h : Game.History (.new r) past g) :
    (∀ g', g = .running g' →
      g'.board.election.termLimited = limitedGovernment (Deed.log past)) ∧
    (∀ b candidate, g = .running ⟨b, .nomination candidate⟩ →
      ∃ actor, b.seating.nameOf? candidate = some actor ∧
        ∀ nominee, ∀ {σ : Type} [RandomSource σ] (s : σ),
          (∃ step t, g.apply (.nominate actor nominee) s = (.ok step, t)) ↔
            ∃ seat, b.seating.seatOf? nominee = some seat ∧ seat ≠ candidate ∧
              ∀ government, limitedGovernment (Deed.log past) = some government →
                seat ≠ government.chancellor ∧
                  (5 < b.seating.seats.length → seat ≠ government.president)) ∧
    ∀ before d after, past = before ++ d :: after → ∀ g', d.before = .running g' →
      d.action.LeavesLimits d.step →
        d.step.Keeps (·.board.election.termLimited = g'.board.election.termLimited) := by
  refine ⟨fun g' hgame => ?_, fun b candidate hgame => ?_,
    fun before d after hpast g' hbefore hkind => ?_⟩
  · subst hgame
    exact h.limiting
  · subst hgame
    have hsound : Game.Sound r (.running ⟨b, .nomination candidate⟩) :=
      (h.reachable .new).sound hr
    have hseated : candidate ∈ b.seating.seats := hsound.phase
    have hlimited : b.election.termLimited = limitedGovernment (Deed.log past) := h.limiting
    obtain ⟨actor, hactor⟩ := Seating.mem_seats_iff.mp hseated
    refine ⟨actor, hactor, fun nominee σ _ s => ?_⟩
    rw [← hlimited, Seating.length_seats]
    exact hsound.nominate_succeeds_iff hr hactor s
  · subst hpast
    obtain ⟨-, hd, -⟩ := h.split
    obtain ⟨l, hlobby, -⟩ | ⟨g₁, hgame, hmove⟩ := hd.gathers_or_moves
    · rw [hbefore] at hlobby
      cases hlobby
    · obtain rfl := Game.running.inj (hbefore.symm.trans hgame)
      exact hmove.keepsLimits hkind

/-- In the eventful game the second player was the last elected president since chaos, with
the fifth as chancellor, and a veto at the end has left that as it is. Four are at the
table, so the third may nominate the second again, but not the fifth. -/
theorem Rules.Valid.limits_follow_log_eventful :
    Rules.eventful.Valid ∧ ∃ b : Board,
      Game.History (.new .eventful) eventfulPast (.running ⟨b, .nomination ⟨3⟩⟩) ∧
      b.election.termLimited = some ⟨⟨2⟩, ⟨5⟩⟩ ∧
      (∃ step t, Game.apply (.running ⟨b, .nomination ⟨3⟩⟩) (.nominate "c" "b")
        (Script.ofWords []) = (.ok step, t)) ∧
      (¬ ∃ step t, Game.apply (.running ⟨b, .nomination ⟨3⟩⟩) (.nominate "c" "e")
        (Script.ofWords []) = (.ok step, t)) ∧
      ∃ before d after g', eventfulPast = before ++ d :: after ∧ d.action = .answerVeto "b" true ∧
        d.before = .running g' ∧
        d.step.Keeps (·.board.election.termLimited = g'.board.election.termLimited) := by
  have hr : Rules.eventful.Valid := by decide
  have hlimited : limitedGovernment (Deed.log eventfulPast) = some ⟨⟨2⟩, ⟨5⟩⟩ := by decide +kernel
  obtain ⟨⟨b, phase⟩, hrunning, hend⟩ := (Option.any_eq_true ..).mp
    (by decide +kernel : (((Game.new .eventful).fed eventfulGame
      (Script.ofWords [])).running?.any fun g => g.phase == .nomination ⟨3⟩ &&
        g.board.seating.names.entries == [(⟨1⟩, "a"), (⟨2⟩, "b"), (⟨3⟩, "c"), (⟨5⟩, "e")]) = true)
  simp only [Bool.and_eq_true, beq_iff_eq] at hend
  obtain ⟨rfl, hnames⟩ := hend
  have hpast : Game.History (.new .eventful) eventfulPast (.running ⟨b, .nomination ⟨3⟩⟩) :=
    Game.running?_eq_some_iff.mp hrunning ▸ .deeds _ eventfulGame _
  obtain ⟨hlimits, hnominates, hkeeps⟩ := hr.limits_follow_log hpast
  rw [hlimited] at hlimits hnominates
  have hname : b.seating.nameOf? ⟨3⟩ = some "c" := by
    rw [Seating.nameOf?, Table.find?, hnames]
    rfl
  have hseat {name : String} : b.seating.seatOf? name =
      ([(⟨1⟩, "a"), (⟨2⟩, "b"), (⟨3⟩, "c"), (⟨5⟩, "e")].find? fun e => e.2 == name).map (·.1) := by
    rw [Seating.seatOf?, hnames]
  have hfour : b.seating.seats.length = 4 := by
    rw [Seating.seats, Table.keys, hnames]
    rfl
  obtain ⟨_, hactor, haccepts⟩ := hnominates b ⟨3⟩ rfl
  obtain rfl := Option.some.inj (hname.symm.trans hactor)
  rw [hfour] at haccepts
  obtain ⟨d, hcut, haction, hcalm, hbefore⟩ : ∃ d,
      eventfulPast = eventfulPast.take 53 ++ d :: eventfulPast.drop 54 ∧
        d.action = .answerVeto "b" true ∧ (d.step.events.all fun e => !e.isChaos) ∧
          d.before.running?.isSome := Deed.exists_of_any (by decide +kernel)
  obtain ⟨g', hg'⟩ := Option.isSome_iff_exists.mp hbefore
  have hrunning' := Game.running?_eq_some_iff.mp hg'
  refine ⟨hr, b, hpast, hlimits _ rfl, ?_, ?_, _, d, _, g', hcut, haction, hrunning', ?_⟩
  · refine (haccepts "b" _).mpr ⟨⟨2⟩, hseat.trans rfl, by decide, ?_⟩
    intro government heq
    cases heq
    exact ⟨by decide, by decide⟩
  · rw [haccepts "e", hseat]
    rintro ⟨seat, heq, -, hfree⟩
    obtain rfl : ⟨5⟩ = seat := Option.some.inj heq
    exact (hfree _ rfl).1 rfl
  · refine hkeeps _ d _ hcut g' hrunning' (.veto haction fun card hcard => ?_)
    simpa [Event.isChaos] using List.all_eq_true.mp hcalm _ hcard

end SecretHitler
