import SecretHitler.Proofs.History
import Mathlib.Data.List.DropRight
/-!
# Governments that fail

The board keeps a count of governments that failed in a row, and each failure reports
it. What the count should be can be read off the log: how many have failed since the
last policy (`failuresInARow`). The two agree after every action, and chaos breaks out
exactly when the threshold is come to (`Rules.Valid.failures_counted`). A single action
may count a failure, bring chaos and start over; `Moves.counts` lists the four ways in
which a move bears on the count.
-/

namespace SecretHitler

namespace Event

/-- The count that a failed government reports. -/
def failed? : Event → Option UInt32
  | governmentRejected _ _ failed => some failed
  | vetoApproved _ failed => some failed
  | _ => none

/-- Whether an event puts a policy on the track. -/
def enacts : Event → Bool
  | policyEnacted .. => true
  | _ => false

/-- Whether an event has to do with failed governments: it counts one, brings chaos or
starts over. -/
def bears : Event → Bool
  | governmentRejected .. | vetoApproved .. | countryInChaos _ | policyEnacted .. => true
  | _ => false

/-- The failures in a row, after one more event. -/
def tally (n : ℕ) (e : Event) : ℕ :=
  if e.enacts then 0 else if e.failed?.isSome then n + 1 else n

end Event

/-- **The governments that failed in a row**, as a log tells it: since its last policy, or
since it began. -/
def failuresInARow (log : List Event) : ℕ :=
  (log.rtakeWhile fun e => !e.enacts).countP fun e => e.failed?.isSome

/-- The events of a step that have to do with failed governments. -/
def Step.bearing (s : Step) : List Event := s.events.filter Event.bears

namespace Event

variable {e : Event} {failed : UInt32} {n : ℕ}

theorem bears_of_failed (h : e.failed? = some failed) : e.bears = true := by
  cases e with
  | governmentRejected | vetoApproved => rfl
  | _ => cases h

/-- A failed government is one more. -/
theorem tally_of_failed (h : e.failed? = some failed) : tally n e = n + 1 := by
  cases e with
  | governmentRejected | vetoApproved => rfl
  | _ => cases h

theorem foldl_tally_filter (events : List Event) (n : ℕ) :
    (events.filter bears).foldl tally n = events.foldl tally n := by
  have htally : ∀ (n : ℕ) (e : Event), (if e.bears then tally n e else n) = tally n e := by
    intro n e
    cases e <;> rfl
  simp only [List.foldl_filter, htally]

/-- **A count of failures comes to a limit** in the course of events. -/
def Reaches (n limit : ℕ) (events : List Event) : Prop :=
  ∃ told, told <+: events ∧ told.foldl tally n = limit

variable {limit : ℕ} {events : List Event}

theorem reaches_nil : Reaches n limit [] ↔ n = limit := by
  simp [Reaches]

theorem reaches_cons :
    Reaches n limit (e :: events) ↔ n = limit ∨ Reaches (tally n e) limit events := by
  constructor
  · rintro ⟨told, hprefix, hreached⟩
    obtain rfl | ⟨rest, rfl, hrest⟩ := List.prefix_cons_iff.mp hprefix
    · exact .inl hreached
    · exact .inr ⟨rest, hrest, hreached⟩
  · rintro (hreached | ⟨told, hprefix, hreached⟩)
    · exact ⟨[], List.nil_prefix, hreached⟩
    · exact ⟨e :: told, List.prefix_cons_iff.mpr (.inr ⟨told, rfl, hprefix⟩), hreached⟩

/-- It does so in those that have to do with it. -/
theorem reaches_filter : Reaches n limit (events.filter bears) ↔ Reaches n limit events := by
  constructor
  · rintro ⟨told, ⟨rest, htold⟩, hreached⟩
    obtain ⟨first, last, rfl, rfl, -⟩ := List.filter_eq_append_iff.mp htold.symm
    exact ⟨first, ⟨last, rfl⟩, (foldl_tally_filter ..).symm.trans hreached⟩
  · rintro ⟨told, hprefix, hreached⟩
    exact ⟨told.filter bears, hprefix.filter _, (foldl_tally_filter ..).trans hreached⟩

end Event

theorem failuresInARow_concat (log : List Event) (e : Event) :
    failuresInARow (log ++ [e]) = Event.tally (failuresInARow log) e := by
  rw [failuresInARow, List.rtakeWhile_concat, Event.tally]
  cases henacts : e.enacts with
  | true => rfl
  | false =>
    rw [Bool.not_false, if_pos rfl, List.countP_append, List.countP_singleton]
    cases e.failed?.isSome with
    | true | false => rfl

/-- A log that goes on is counted on from where it stood. -/
theorem failuresInARow_append (log events : List Event) :
    failuresInARow (log ++ events) = events.foldl Event.tally (failuresInARow log) := by
  induction events using List.reverseRecOn with
  | nil => rw [List.append_nil, List.foldl_nil]
  | append_singleton events e ih =>
    rw [← List.append_assoc, failuresInARow_concat, ih, List.foldl_concat]

/-! ## One step -/

/-- **How a step bears on the count of failed governments**: not at all, a government's
policy starts it over, a failure is counted, or one too many brings chaos. -/
inductive Board.Counts (b : Board) (s : Step) : Prop
  | rests : s.bearing = [] → s.Keeps (·.board.election.tracker = b.election.tracker) → Counts b s
  | restarts {p : Policy} {liberal fascist : UInt32} :
      s.bearing = [.policyEnacted p .government liberal fascist] →
      s.Keeps (·.board.election.tracker = 0) → Counts b s
  | counted {e : Event} {failed : UInt32} :
      e.failed? = some failed → increment b.election.tracker = .ok failed →
      failed < b.config.chaosThreshold → s.bearing = [e] →
      s.Keeps (·.board.election.tracker = failed) → Counts b s
  | collapsed {e : Event} {failed : UInt32} {card : Policy} {track : Track} :
      e.failed? = some failed → increment b.election.tracker = .ok failed →
      b.config.chaosThreshold ≤ failed → b.deck.drawPile.head? = some card →
      b.track.enact card = .ok track →
      s.bearing = [e, .countryInChaos card,
        .policyEnacted card .chaos track.liberal track.fascist] →
      s.Keeps (fun g => g.board.election.tracker = 0 ∧ g.board.track = track) → Counts b s

theorem Step.bearing_after {s : Step} {events : List Event} :
    (s.after events).bearing = events.filter Event.bears ++ s.bearing :=
  List.filter_append ..

namespace Board

variable {b : Board} {step : Step}

/-- Events that have nothing to do with it change nothing. -/
theorem Counts.after (h : b.Counts step) {events : List Event}
    (hnone : events.filter Event.bears = []) : b.Counts (step.after events) := by
  have hbearing : (step.after events).bearing = step.bearing := by
    rw [Step.bearing_after, hnone, List.nil_append]
  cases h with
  | rests hrests hkeeps => exact .rests (hbearing.trans hrests) hkeeps
  | restarts hrestarts hkeeps => exact .restarts (hbearing.trans hrestarts) hkeeps
  | counted he hfailed hbelow htold hkeeps =>
    exact .counted he hfailed hbelow (hbearing.trans htold) hkeeps
  | collapsed he hfailed hreached htop hrise htold hkeeps =>
    exact .collapsed he hfailed hreached htop hrise (hbearing.trans htold) hkeeps

/-- Neither does a deck with the same card on top. -/
theorem Counts.of_top {deck : Deck} (h : Counts { b with deck := deck } step)
    (htop : deck.drawPile.head? = b.deck.drawPile.head?) : b.Counts step := by
  cases h with
  | rests hrests hkeeps => exact .rests hrests hkeeps
  | restarts hrestarts hkeeps => exact .restarts hrestarts hkeeps
  | counted he hfailed hbelow htold hkeeps => exact .counted he hfailed hbelow htold hkeeps
  | collapsed he hfailed hreached hcard hrise htold hkeeps =>
    exact .collapsed he hfailed hreached (htop.symm.trans hcard) hrise htold hkeeps

/-- What bears on the count in a report of chaos is that it breaks out and what it enacts. -/
theorem filter_chaosEvents (drawn : Drawn Policy) (track : Track) :
    (chaosEvents drawn track).filter Event.bears =
      [.countryInChaos drawn.cards,
        .policyEnacted drawn.cards .chaos track.liberal track.fascist] := by
  obtain ⟨card, deck, reshuffled⟩ := drawn
  cases reshuffled with
  | false | true => rfl

/-- **Chaos enacts the top card** and nothing else. -/
theorem Collapses.top (h : b.Collapses step) :
    ∃ card track, b.deck.drawPile.head? = some card ∧ b.track.enact card = .ok track ∧
      step.bearing = [.countryInChaos card,
        .policyEnacted card .chaos track.liberal track.fascist] ∧
      step.Keeps fun g =>
        g.board.election.tracker = b.election.tracker ∧ g.board.track = track := by
  cases h with
  | @ended drawn track v hdeal hrise _ =>
    obtain ⟨rest, hpile, -⟩ := hdeal
    refine ⟨drawn.cards, track, by rw [hpile]; rfl, hrise, ?_, trivial⟩
    rw [Step.bearing_after, filter_chaosEvents]
    rfl
  | @goesOn drawn track next hdeal hrise _ _ =>
    obtain ⟨rest, hpile, -⟩ := hdeal
    refine ⟨drawn.cards, track, by rw [hpile]; rfl, hrise, ?_, rfl, rfl⟩
    rw [Step.bearing_after, filter_chaosEvents]
    rfl

/-- A failure is counted, or it brings chaos. -/
theorem Fails.counts (h : b.Fails step) {e : Event} {failed : UInt32}
    (he : e.failed? = some failed) (hfailed : increment b.election.tracker = .ok failed) :
    b.Counts (step.after [e]) := by
  have hbearing : (step.after [e]).bearing = e :: step.bearing := by
    rw [Step.bearing_after, List.filter_cons_of_pos (Event.bears_of_failed he)]
    rfl
  cases h with
  | @counted failed' _ hfailed' hbelow _ =>
    obtain rfl : failed = failed' := Except.ok.inj (hfailed.symm.trans hfailed')
    exact .counted he hfailed hbelow hbearing rfl
  | @collapsed failed' _ hfailed' hreached hchaos =>
    obtain rfl : failed = failed' := Except.ok.inj (hfailed.symm.trans hfailed')
    obtain ⟨card, track, htop, hrise, htold, hkeeps⟩ := hchaos.top
    rw [htold] at hbearing
    exact .collapsed he hfailed hreached htop hrise hbearing hkeeps

theorem Enacts.counts {president : Seat} {p : Policy} (h : b.Enacts president p step) :
    b.Counts step := by
  cases h with
  | ended _ _ => exact .restarts rfl trivial
  | goesOn _ _ _ _ | peeks _ _ _ _ _ | waits _ _ _ _ => exact .restarts rfl rfl

theorem Resolves.counts {g : Government} {votes : Votes} (h : b.Resolves g votes step) :
    b.Counts step := by
  cases h with
  | hitlerElected _ _ => exact .rests rfl trivial
  | @elected drawn _ _ _ =>
    obtain ⟨hand, deck, reshuffled⟩ := drawn
    cases reshuffled with
    | false | true => exact .rests rfl rfl
  | rejected _ hfailed hfails => exact hfails.counts rfl hfailed

end Board

/-- **Every move of a sound game** bears on the count in one of the four ways. -/
theorem Running.Moves.counts {g : Running} {a : Action} {step : Step} (h : g.Moves a step)
    (hg : g.Sound) : g.board.Counts step := by
  cases h with
  | decide _ _ _ hresolves => exact hresolves.counts.after rfl
  | enact _ _ _ henacts => exact henacts.counts.of_top rfl
  | @approveVeto b government agenda _ _ _ failed _ _ hrep hfailed hfails =>
    -- a sound game has a full draw, so the vetoed cards stay out of the pile
    cases hrep with
    | full _ =>
      have hreport : Event.failed? (.vetoApproved government failed) = some failed := rfl
      exact (hfails.counts hreport hfailed).of_top rfl
    | shuffled hshort _ => exact absurd hg.board.stock (Nat.not_le.mpr hshort)
  | killHitler _ _ _ _ => exact .rests rfl trivial
  | _ => exact .rests rfl rfl

/-! ## What a step tells -/

namespace Step

variable {s : Step} {n limit : ℕ}

theorem mem_bearing_iff {e : Event} (h : e.bears = true) : e ∈ s.bearing ↔ e ∈ s.events := by
  rw [bearing, List.mem_filter, and_iff_left h]

theorem not_bears (h : s.bearing = []) : ∀ e ∈ s.events, ¬ e.bears = true :=
  List.filter_eq_nil_iff.mp h

theorem foldl_bearing (s : Step) (n : ℕ) :
    s.bearing.foldl Event.tally n = s.events.foldl Event.tally n :=
  Event.foldl_tally_filter ..

/-- Whether a step brings chaos just when a limit is come to shows in what it tells of
failures. -/
theorem chaos_iff_of_bearing (h : (∃ card, .countryInChaos card ∈ s.bearing) ↔
    Event.Reaches n limit s.bearing) :
    (∃ card, .countryInChaos card ∈ s.events) ↔ Event.Reaches n limit s.events := by
  have hchaos : (∃ card, .countryInChaos card ∈ s.bearing) ↔
      ∃ card, .countryInChaos card ∈ s.events :=
    exists_congr fun card => mem_bearing_iff rfl
  rw [← hchaos, h]
  exact Event.reaches_filter

theorem chaos_iff_of_rests (h : s.bearing = []) (hn : n ≠ limit) :
    (∃ card, .countryInChaos card ∈ s.events) ↔ Event.Reaches n limit s.events := by
  refine chaos_iff_of_bearing ?_
  rw [h, Event.reaches_nil]
  exact iff_of_false nofun hn

/-- A failure that a step reports comes first of all that it tells of failures. -/
theorem of_bearing {first e : Event} {rest earlier later : List Event} {failed : UInt32}
    (h : s.bearing = first :: rest) (hrest : ∀ e ∈ rest, e.failed? = none)
    (hevents : s.events = earlier ++ e :: later) (he : e.failed? = some failed) :
    first.failed? = some failed ∧ (earlier ++ [e]).foldl Event.tally n = n + 1 := by
  rw [bearing, hevents, List.filter_append, List.filter_cons_of_pos (Event.bears_of_failed he)] at h
  cases hearlier : earlier.filter Event.bears with
  | nil =>
    rw [hearlier, List.nil_append] at h
    obtain ⟨rfl, -⟩ := List.cons.inj h
    rw [List.foldl_concat, ← Event.foldl_tally_filter, hearlier, Event.tally_of_failed he]
    exact ⟨he, rfl⟩
  | cons e' earlier' =>
    rw [hearlier, List.cons_append] at h
    have hmem : e ∈ rest := (List.cons.inj h).2 ▸ List.mem_append_right _ (.head _)
    rw [hrest e hmem] at he
    cases he

end Step

namespace Board

variable {b : Board} {step : Step}

/-- The tracker is what the events of a step make of it. -/
theorem Counts.keeps (h : b.Counts step) :
    step.Keeps fun g => g.board.election.tracker.toNat =
      step.events.foldl Event.tally b.election.tracker.toNat := by
  rw [← Step.foldl_bearing]
  cases h with
  | rests hrests hkeeps =>
    rw [hrests]
    exact hkeeps.imp fun g hg => congrArg _ hg
  | restarts hrestarts hkeeps =>
    rw [hrestarts]
    exact hkeeps.imp fun g hg => congrArg _ hg
  | counted he hfailed _ htold hkeeps =>
    rw [htold]
    refine hkeeps.imp fun g hg => ?_
    rw [hg, List.foldl_cons, Event.tally_of_failed he, increment_eq_ok.mp hfailed]
    rfl
  | collapsed _ _ _ _ _ htold hkeeps =>
    rw [htold]
    exact hkeeps.imp fun g hg => congrArg _ hg.1

/-- **A failure carries the count**, itself included. -/
theorem Counts.carries (h : b.Counts step) {earlier later : List Event} {e : Event}
    {failed : UInt32} (hevents : step.events = earlier ++ e :: later)
    (he : e.failed? = some failed) :
    failed.toNat = (earlier ++ [e]).foldl Event.tally b.election.tracker.toNat := by
  have hmem : e ∈ step.bearing :=
    (Step.mem_bearing_iff (Event.bears_of_failed he)).mpr (hevents ▸ by simp)
  have counts {first : Event} {rest : List Event} {failed' : UInt32}
      (hfirst : first.failed? = some failed')
      (hfailed : increment b.election.tracker = .ok failed')
      (htold : step.bearing = first :: rest) (hrest : ∀ e ∈ rest, e.failed? = none) :
      failed.toNat = (earlier ++ [e]).foldl Event.tally b.election.tracker.toNat := by
    obtain ⟨hsame, hcount⟩ := Step.of_bearing htold hrest hevents he
    obtain rfl := Option.some.inj (hfirst.symm.trans hsame)
    rw [hcount, increment_eq_ok.mp hfailed]
  cases h with
  | rests hrests _ =>
    rw [hrests] at hmem
    cases hmem
  | restarts hrestarts _ =>
    rw [hrestarts, List.mem_singleton] at hmem
    rw [hmem] at he
    cases he
  | counted hfirst hfailed _ htold _ => exact counts hfirst hfailed htold nofun
  | collapsed hfirst hfailed _ _ _ htold _ =>
    refine counts hfirst hfailed htold fun e he => ?_
    simp only [List.mem_cons, List.not_mem_nil, or_false] at he
    rcases he with rfl | rfl
    · rfl
    · rfl

/-- **Chaos comes exactly with the failure that reaches the threshold.** -/
theorem Counts.chaos_iff (h : b.Counts step) (hb : b.election.tracker < b.config.chaosThreshold) :
    (∃ card, .countryInChaos card ∈ step.events) ↔
      Event.Reaches b.election.tracker.toNat b.config.chaosThreshold.toNat step.events := by
  rw [UInt32.lt_iff_toNat_lt] at hb
  have hpatient : b.election.tracker.toNat ≠ b.config.chaosThreshold.toNat := Nat.ne_of_lt hb
  cases h with
  | rests hrests _ => exact Step.chaos_iff_of_rests hrests hpatient
  | @restarts p liberal fascist hrestarts _ =>
    have hstart : Event.tally b.election.tracker.toNat
        (.policyEnacted p .government liberal fascist) ≠ b.config.chaosThreshold.toNat :=
      Nat.ne_of_lt (Nat.zero_lt_of_lt hb)
    refine Step.chaos_iff_of_bearing ?_
    rw [hrestarts, Event.reaches_cons, Event.reaches_nil]
    simp [hpatient, hstart]
  | @counted e failed he hfailed hbelow htold _ =>
    have hcount : Event.tally b.election.tracker.toNat e ≠ b.config.chaosThreshold.toNat := by
      rw [Event.tally_of_failed he, ← increment_eq_ok.mp hfailed]
      exact Nat.ne_of_lt (UInt32.lt_iff_toNat_lt.mp hbelow)
    have hnot : ∀ card, .countryInChaos card ≠ e := by
      rintro card rfl
      cases he
    refine Step.chaos_iff_of_bearing ?_
    rw [htold, Event.reaches_cons, Event.reaches_nil]
    simp [hpatient, hcount, hnot]
  | @collapsed e failed card track he hfailed hreached _ _ htold _ =>
    -- below the threshold before, not below it after one more
    have hcount : Event.tally b.election.tracker.toNat e = b.config.chaosThreshold.toNat := by
      rw [Event.tally_of_failed he]
      rw [UInt32.le_iff_toNat_le, increment_eq_ok.mp hfailed] at hreached
      omega
    refine Step.chaos_iff_of_bearing ?_
    rw [htold, Event.reaches_cons, Event.reaches_cons]
    exact iff_of_true ⟨card, .tail _ (.head _)⟩ (.inr (.inl hcount))

/-- **Chaos enacts the top card** and nothing else. -/
theorem Counts.chaos_card (h : b.Counts step) {card : Policy}
    (hcard : .countryInChaos card ∈ step.events) :
    b.deck.drawPile.head? = some card ∧ ∃ track, b.track.enact card = .ok track ∧
      step.events.filter Event.enacts = [.policyEnacted card .chaos track.liberal track.fascist] ∧
      step.Keeps (·.board.track = track) := by
  have hmem : .countryInChaos card ∈ step.bearing := (Step.mem_bearing_iff rfl).mpr hcard
  have henacts : step.events.filter Event.enacts = step.bearing.filter Event.enacts := by
    have hbears : ∀ e : Event, (e.enacts && e.bears) = e.enacts := by
      intro e
      cases e <;> rfl
    simp only [Step.bearing, List.filter_filter, hbears]
  rw [henacts]
  cases h with
  | rests hrests _ =>
    rw [hrests] at hmem
    cases hmem
  | restarts hrestarts _ =>
    rw [hrestarts] at hmem
    simp at hmem
  | counted he _ _ htold _ =>
    rw [htold, List.mem_singleton] at hmem
    rw [← hmem] at he
    cases he
  | @collapsed e failed top track he _ _ htop hrise htold hkeeps =>
    have hfirst : e.enacts = false ∧ .countryInChaos card ≠ e := by
      cases e with
      | governmentRejected | vetoApproved => exact ⟨rfl, nofun⟩
      | _ => cases he
    have hsame : card = top := by
      rw [htold] at hmem
      simpa [hfirst.2] using hmem
    rw [htold, hsame, List.filter_cons_of_neg (by rw [hfirst.1]; exact Bool.false_ne_true)]
    exact ⟨htop, track, hrise, rfl, hkeeps.imp fun _ hg => hg.2⟩

end Board

/-! ## Histories -/

theorem Lobby.Gathers.bearing {l : Lobby} {a : Action} {step : Step} (h : l.Gathers a step) :
    step.bearing = [] := by
  cases h with
  | join | leave | start => rfl

/-- The threshold of a game is that of its rules. -/
theorem Game.Reachable.chaosThreshold_eq {r : Rules} (hr : r.Valid) {g : Running}
    (h : Reachable r (.running g)) : g.board.config.chaosThreshold = r.chaosThreshold := by
  obtain ⟨n, hstarted⟩ := h.exists_started
  obtain ⟨_, _, _, _, _, _, _, hthreshold⟩ :=
    Rules.configurationFor_eq_some (hstarted.config hr)
  exact hthreshold

/-- A game that counts the failures of a log. -/
def Game.Counting (log : List Event) : Game → Prop
  | lobby _ => failuresInARow log = 0
  | running g => g.board.election.tracker.toNat = failuresInARow log
  | completed _ => True

namespace Game.History

variable {r : Rules} {past : List Deed} {g : Game} {d : Deed}

/-- **The board counts what the log tells.** -/
theorem counting (hr : r.Valid) (h : History (.new r) past g) : g.Counting (Deed.log past) := by
  refine h.cases_on_last (P := fun past g => g.Counting (Deed.log past)) ?_
    (fun past l a step _ ih hgathers => ?_) fun past g a step hpast ih hmove => ?_
  · exact rfl
  · have hzero : failuresInARow (Deed.log past) = 0 := ih
    rw [Deed.log_append, Deed.log_singleton]
    have hcount : failuresInARow (Deed.log past ++ step.events) = 0 := by
      rw [failuresInARow_append, ← Step.foldl_bearing, hgathers.bearing, hzero]
      rfl
    cases hgathers with
    | join | leave => exact hcount
    | start => exact hcount.symm
  · have hcount : g.board.election.tracker.toNat = failuresInARow (Deed.log past) := ih
    have hsound : g.Sound := (hpast.reachable .new).sound hr
    rw [Deed.log_append, Deed.log_singleton]
    obtain ⟨g', hgame, htracker⟩ | ⟨v, hgame⟩ := (hmove.counts hsound).keeps.cases
    · rw [hgame]
      show g'.board.election.tracker.toNat = _
      rw [htracker, hcount, failuresInARow_append]
    · rw [hgame]
      trivial

/-- **What a deed tells of failed governments**, after the log of what led to it. -/
theorem deed_counts (hr : r.Valid) (h : History (.new r) past d.before) (hd : d.Happens) :
    (∀ earlier e later failed, d.step.events = earlier ++ e :: later → e.failed? = some failed →
      failed.toNat = failuresInARow (Deed.log past ++ earlier ++ [e])) ∧
    ((∃ card, .countryInChaos card ∈ d.step.events) ↔
      Event.Reaches (failuresInARow (Deed.log past)) r.chaosThreshold.toNat d.step.events) ∧
    ∀ card, .countryInChaos card ∈ d.step.events →
      ∃ g' track, d.before = .running g' ∧ g'.board.deck.drawPile.head? = some card ∧
        g'.board.track.enact card = .ok track ∧
        d.step.events.filter Event.enacts =
          [.policyEnacted card .chaos track.liberal track.fascist] ∧
        d.step.Keeps (·.board.track = track) := by
  have hcounting := h.counting hr
  obtain ⟨l, hlobby, hgathers⟩ | ⟨g', hgame, hmove⟩ := hd.gathers_or_moves
  · rw [hlobby] at hcounting
    have hzero : failuresInARow (Deed.log past) = 0 := hcounting
    have hlimit : (0 : ℕ) ≠ r.chaosThreshold.toNat :=
      Nat.ne_of_lt (UInt32.lt_iff_toNat_lt.mp hr.bounds.2.2.2.1)
    have hnone := Step.chaos_iff_of_rests hgathers.bearing hlimit
    rw [hzero]
    have hbears := Step.not_bears hgathers.bearing
    refine ⟨fun earlier e later failed hevents he => ?_, hnone, fun card hcard => ?_⟩
    · exact absurd (Event.bears_of_failed he) (hbears e (hevents ▸ by simp))
    · exact absurd rfl (hbears _ hcard)
  · rw [hgame] at hcounting h
    have hcount : g'.board.election.tracker.toNat = failuresInARow (Deed.log past) := hcounting
    have hreach : Reachable r (.running g') := h.reachable .new
    have hsound : g'.Sound := hreach.sound hr
    have hcounts := hmove.counts hsound
    refine ⟨fun earlier e later failed hevents he => ?_, ?_, fun card hcard => ?_⟩
    · rw [hcounts.carries hevents he, hcount, List.append_assoc, failuresInARow_append]
    · rw [hcounts.chaos_iff hsound.board.patient, hcount, hreach.chaosThreshold_eq hr]
    · obtain ⟨htop, track, hrise, henacts, hkeeps⟩ := hcounts.chaos_card hcard
      exact ⟨g', track, hgame, htop, hrise, henacts, hkeeps⟩

end Game.History

/-- **Failed governments are counted exactly.** Under a valid rule set the count on the
board is at any time the number of governments rejected or vetoed since the last policy,
or since the start, and it is below the threshold of chaos. The count that such an event
carries includes the event itself. Chaos breaks out in exactly those actions in which the
count comes to the threshold, and then the top card of the draw pile is enacted by chaos
and nothing else is. -/
theorem Rules.Valid.failures_counted {r : Rules} (hr : r.Valid) {past : List Deed} {g : Game}
    (h : Game.History (.new r) past g) :
    (∀ g', g = .running g' →
      g'.board.election.tracker.toNat = failuresInARow (Deed.log past) ∧
      g'.board.election.tracker < r.chaosThreshold) ∧
    (∀ earlier e later failed, Deed.log past = earlier ++ e :: later →
      e.failed? = some failed → failed.toNat = failuresInARow (earlier ++ [e])) ∧
    ∀ before d after, past = before ++ d :: after →
      ((∃ card, .countryInChaos card ∈ d.step.events) ↔ ∃ told, told <+: d.step.events ∧
        failuresInARow (Deed.log before ++ told) = r.chaosThreshold.toNat) ∧
      ∀ card, .countryInChaos card ∈ d.step.events →
        ∃ g' track, d.before = .running g' ∧ g'.board.deck.drawPile.head? = some card ∧
          g'.board.track.enact card = .ok track ∧
          d.step.events.filter Event.enacts =
            [.policyEnacted card .chaos track.liberal track.fascist] ∧
          d.step.Keeps (·.board.track = track) := by
  refine ⟨fun g' hgame => ?_, fun earlier e later failed hlog he => ?_,
    fun before d after hpast => ?_⟩
  · subst hgame
    have hreach : Game.Reachable r (.running g') := h.reachable .new
    have hsound : g'.Sound := hreach.sound hr
    exact ⟨h.counting hr, hreach.chaosThreshold_eq hr ▸ hsound.board.patient⟩
  · obtain ⟨before, d, after, first, last, rfl, hevents, rfl⟩ := Deed.exists_of_log_eq hlog
    obtain ⟨hbefore, hd, -⟩ := h.split
    exact (hbefore.deed_counts hr hd).1 first e last failed hevents he
  · subst hpast
    obtain ⟨hbefore, hd, -⟩ := h.split
    obtain ⟨-, hchaos, hcard⟩ := hbefore.deed_counts hr hd
    refine ⟨?_, hcard⟩
    simp only [failuresInARow_append]
    exact hchaos

/-- In the eventful game the third rejection in a row brings chaos, and the veto at its end
is the first failure since a policy. -/
theorem Rules.Valid.failures_counted_eventful :
    Rules.eventful.Valid ∧ ∃ g, Game.History (.new .eventful) eventfulPast (.running g) ∧
      g.board.election.tracker.toNat = 1 ∧ failuresInARow (Deed.log eventfulPast) = 1 ∧
      ∃ before d after, eventfulPast = before ++ d :: after ∧
        .countryInChaos .fascist ∈ d.step.events ∧
        (∃ told, told <+: d.step.events ∧ failuresInARow (Deed.log before ++ told) = 3) ∧
        ∃ g', d.before = .running g' ∧ g'.board.deck.drawPile.head? = some .fascist := by
  have hr : Rules.eventful.Valid := by decide
  obtain ⟨g, hpast⟩ := history_eventfulPast
  obtain ⟨hcount, -, hdeeds⟩ := hr.failures_counted hpast
  have hone : failuresInARow (Deed.log eventfulPast) = 1 := by decide +kernel
  obtain ⟨d, hcut, hcard⟩ : ∃ d, eventfulPast = eventfulPast.take 37 ++ d :: eventfulPast.drop 38 ∧
      .countryInChaos .fascist ∈ d.step.events := Deed.exists_of_any (by decide +kernel)
  obtain ⟨hchaos, htop⟩ := hdeeds _ _ _ hcut
  obtain ⟨g', track, hbefore, hhead, -⟩ := htop _ hcard
  exact ⟨hr, g, hpast, hone ▸ (hcount g rfl).1, hone, _, d, _, hcut, hcard,
    hchaos.mp ⟨_, hcard⟩, g', hbefore, hhead⟩

end SecretHitler
