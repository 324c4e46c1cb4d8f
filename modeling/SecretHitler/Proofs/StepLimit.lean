import SecretHitler.Proofs.Matches
/-!
# Matches at their limit

A match looks whether it is over before an action and not after one, so it reports what it
has come to only while an action is left (`Match.reports_below_limit`): a victory by its last
action is lost, and what it reports is its limit. That may happen where the first policy
decides the game and nobody votes for a government: then chaos enacts that policy, after a
number of actions that the table and the threshold fix, and these may be just as many as a
match may take (`Rules.Valid.stepLimit_of_dissent`).
-/

namespace SecretHitler

variable {σ : Type} [RandomSource σ]

namespace Match

variable {r : Rules} {names : List String} {lineup : Lineup σ} {c : Configuration}
variable {step left k : ℕ} {s s' : Standing} {rng rng' : σ}

/-! ## What a match reports -/

/-- No step reports the limit. -/
theorem advance_ne_stepLimit : advance lineup step s rng ≠ (.error (.stepLimit k), rng') := by
  intro h
  obtain ⟨hother, -⟩ | ⟨_, hother⟩ | ⟨_, _, hother⟩ | ⟨_, hother⟩ := error_of_advance h
  · cases hother
  · cases hother
  · cases hother
  · cases hother

namespace Goes

variable {games : List Game} {result : Except MatchError Outcome}

/-- A match has an outcome exactly if it comes to a game that is over before its actions are
spent. -/
theorem ok_iff (h : Goes lineup left step s rng games result) (v : Victory) (k : ℕ) :
    (∃ o, result = .ok o ∧ o.victory = v ∧ o.actions = k) ↔
      (s.game :: games).getLast? = some (.completed v) ∧ games.length < left ∧
        k = step + games.length := by
  induction h with
  | spent => exact iff_of_false nofun fun hlast => Nat.lt_irrefl _ hlast.2.1
  | ended hended => simp [hended, eq_comm]
  | fails hopen _ => simp [hopen]
  | advances _ _ _ ih =>
    rw [ih, List.getLast?_cons_cons, List.length_cons, Nat.add_lt_add_iff_right,
      Nat.add_right_comm, Nat.add_assoc]

/-- It reports its limit exactly if they are spent. -/
theorem stepLimit_iff (h : Goes lineup left step s rng games result) (k : ℕ) :
    result = .error (.stepLimit k) ↔ games.length = left ∧ k = step + left := by
  induction h with
  | spent => simp [eq_comm]
  | ended _ => simp
  | fails _ hadvance =>
    refine iff_of_false ?_ (by simp)
    rintro ⟨⟩
    exact advance_ne_stepLimit hadvance
  | advances _ _ _ ih =>
    rw [ih, List.length_cons, Nat.add_left_inj, Nat.add_right_comm, Nat.add_assoc]

end Goes

/-- **A match reports a victory below its limit.** What it reports and the games it goes
through, each of which comes of an accepted action on the one before, are the same for every
observer. It has an outcome exactly if the last game is over after fewer actions than a match
may take, and that is the victory and the number of actions of the outcome; and it reports
the limit exactly if it took as many as it may, whether the last of them won or not. Short of
its limit it stops only where the last game is over, if a valid rule set seats the names and
spares the table and the strategies pick. -/
theorem reports_below_limit (r : Rules) (names : List String) (lineup : Lineup σ) (rng : σ) :
    ∃ (result : Except MatchError Outcome) (games : List Game),
      (∀ (β : Type) (observe : β → ℕ → Game → β) (seen : β),
        play r names lineup observe seen rng =
          (result, (games.zipIdx 1).foldl (fun seen e => observe seen e.2 e.1) seen)) ∧
      (.new r :: games).IsChain (Leads σ) ∧ games.length ≤ maxSteps ∧
      (∀ v k, (∃ o, result = .ok o ∧ o.victory = v ∧ o.actions = k) ↔
        games.getLast? = some (.completed v) ∧ games.length < maxSteps ∧ k = games.length) ∧
      (∀ k, result = .error (.stepLimit k) ↔ games.length = maxSteps ∧ k = maxSteps) ∧
      (r.Valid → names.Nodup → (∃ c, r.configurationFor names.length = some c ∧
        c.Spares names.length) → (∀ party, (lineup.forParty party).Picks r) →
          games.length < maxSteps → ∃ v, games.getLast? = some (.completed v)) := by
  obtain ⟨result, games, hgoes, hplays⟩ := exists_goes lineup maxSteps 0 (.first r names) rng
  have houtcome (v : Victory) (k : ℕ) : (∃ o, result = .ok o ∧ o.victory = v ∧ o.actions = k) ↔
      games.getLast? = some (.completed v) ∧ games.length < maxSteps ∧ k = games.length := by
    rw [hgoes.ok_iff, Nat.zero_add, getLast?_first_iff (g := .completed v) nofun]
  refine ⟨result, games, hplays, hgoes.leads, hgoes.length_le, houtcome, fun k => ?_,
    fun hr hnames ⟨c, hc, hspares⟩ hpicks hshort => ?_⟩
  · rw [hgoes.stepLimit_iff, Nat.zero_add]
  · obtain ⟨v, hv⟩ | ⟨g, -, hg, hstuck⟩ :=
      hgoes.progress hr hnames hc hpicks (.first r hspares.names_ne_nil) hshort
    · exact ⟨v, (getLast?_first_iff (g := .completed v) nofun).mp hv⟩
    · exact absurd hstuck (hg.not_stuck hr hc hspares)

/-- A match of five bots under the standard rules, on the luck of an empty script, is over
short of its limit, and reports how. -/
theorem reports_below_limit_five :
    Rules.standard.Valid ∧ Lobby.ofFive.players.Nodup ∧
      ∃ (o : Outcome) (games : List Game),
        play .standard Lobby.ofFive.players ⟨Bot.random.strategy, Bot.partisan.strategy⟩
          (fun _ k g => (k, g)) (0, .new .standard) (Script.ofWords []) =
            (.ok o, (games.zipIdx 1).foldl (fun _ e => (e.2, e.1)) (0, .new .standard)) ∧
        games.length < maxSteps ∧ o.actions = games.length ∧
        games.getLast? = some (.completed o.victory) := by
  have hr : Rules.standard.Valid := by decide
  have hnames : Lobby.ofFive.players.Nodup := by decide
  obtain ⟨c, hc⟩ : ∃ c, Rules.standard.configurationFor Lobby.ofFive.players.length = some c :=
    ⟨_, rfl⟩
  have hspares := Rules.standard_spares hc
  have hpicks : ∀ party, (Lineup.forParty ⟨Bot.random.strategy, Bot.partisan.strategy⟩ party :
      Strategy Script).Picks .standard :=
    Lineup.forParty_of (Bot.random.picks hr) (Bot.partisan.picks hr)
  obtain ⟨result, games, hplays, -, -, houtcome, -, hstops⟩ :=
    reports_below_limit .standard Lobby.ofFive.players
      ⟨Bot.random.strategy, Bot.partisan.strategy⟩ (Script.ofWords [])
  -- no game of the standard rules is as long as a match may be
  have hshort : games.length < maxSteps := by
    obtain ⟨o, _, -, -, hends⟩ := hr.exists_outcome hnames hc hspares (Rules.standard_fits hc)
      hpicks (Script.ofWords [])
    have hsame := (hplays ℕ (fun seen _ _ => seen) 0).symm.trans (hends _ _ _)
    exact ((houtcome o.victory o.actions).mp ⟨o, (Prod.mk.inj hsame).1, rfl, rfl⟩).2.1
  obtain ⟨v, hlast⟩ := hstops hr hnames ⟨c, hc, hspares⟩ hpicks hshort
  obtain ⟨o, rfl, rfl, hactions⟩ := (houtcome v _).mpr ⟨hlast, hshort, rfl⟩
  exact ⟨hr, hnames, o, games, hplays _ _ _, hshort, hactions, hlast⟩

end Match

/-! ## A game that nobody votes for -/

/-- Whether an action votes for a government. -/
def Action.backs : Action → Bool
  | .vote _ .yes => true
  | _ => false

theorem Ballot.eq_no_of_backs {voter : String} {ballot : Ballot}
    (h : (Action.vote voter ballot).backs = false) : ballot = .no := by
  cases ballot with
  | yes => cases h
  | no => rfl

/-- Whoever may vote may vote against. -/
theorem Running.Allows.vote_no {g : Running} {voter : String} {ballot : Ballot}
    (h : g.Allows (.vote voter ballot)) : g.Allows (.vote voter .no) := by
  obtain ⟨b, phase⟩ := g
  cases phase with
  | voting _ _ => exact h
  | _ => exact absurd h id

namespace Strategy

/-- Picks the first action that is no vote for a government, and any where every action is. -/
def dissenting : Strategy σ := fun _ _ options =>
  match options.find? fun a => !a.backs with
  | some a => return a
  | none => Draws.choose options

theorem dissenting_picks (r : Rules) : (dissenting : Strategy σ).Picks r := by
  intro g actor options s _ hsome _
  rw [dissenting]
  cases hfind : options.find? fun a => !a.backs with
  | none => exact Draws.choose_eq_ok hsome s
  | some a => exact ⟨a, List.mem_of_find?_eq_some hfind, s, rfl⟩

/-- **A strategy that votes for no government**: of all that a player may do it never picks
that. -/
def Dissents (f : Strategy σ) : Prop :=
  ∀ (g : Running) actor options s t a, options ≠ [] →
    (∀ other, other ∈ options ↔ other.actor = actor ∧ g.Allows other) →
      f (.running g) actor options s = (.ok a, t) → a.backs = false

theorem dissenting_dissents : (dissenting : Strategy σ).Dissents := by
  intro g actor options s t a hsome hoptions hpick
  obtain ⟨other, hother, hdissents⟩ : ∃ other ∈ options, other.backs = false := by
    obtain ⟨first, hfirst⟩ := List.exists_mem_of_ne_nil options hsome
    cases hbacks : first.backs with
    | false => exact ⟨first, hfirst, hbacks⟩
    | true =>
      obtain ⟨hactor, hallows⟩ := (hoptions first).mp hfirst
      cases first with
      | vote voter ballot =>
        exact ⟨.vote voter .no, (hoptions _).mpr ⟨hactor, hallows.vote_no⟩, rfl⟩
      | _ => cases hbacks
  cases hfind : options.find? fun a => !a.backs with
  | none => simpa [hdissents] using List.find?_eq_none.mp hfind other hother
  | some found =>
    simp only [dissenting, hfind] at hpick
    cases hpick
    simpa using List.find?_some hfind

end Strategy

/-- What a phase leaves of the present government, if nobody votes for it. -/
def Phase.toGo (t : Seating) : Phase → ℕ
  | .voting _ votes => votes.outstanding t
  | _ => t.size + 1

/-- **The actions that a game is yet to take** if nobody votes for a government. -/
def Running.toGo (g : Running) : ℕ :=
  (g.board.config.chaosThreshold.toNat - 1 - g.board.election.tracker.toNat) *
    (g.board.living + 1) + g.phase.toGo g.board.seating

/-- **A game in which no government has a vote.** -/
def Running.Opposed (g : Running) : Prop :=
  match g.phase with
  | .nomination _ => True
  | .voting _ votes => ∀ s, votes.ballots.find? s ≠ some .yes
  | _ => False

namespace Votes

variable {v v' : Votes} {t : Seating} {s : Seat}

theorem outstanding_none (t : Seating) : Votes.none.outstanding t = t.size := by
  rw [outstanding, ← t.length_seats, List.countP_eq_length]
  exact fun _ _ => rfl

theorem outstanding_eq_zero (h : v.isComplete t = true) : v.outstanding t = 0 := by
  rw [outstanding, List.countP_eq_zero]
  intro s hs
  simpa using List.all_eq_true.mp h s hs

/-- A vote against changes nothing about who is in favour. -/
theorem find?_ne_yes_of_cast (h : ∀ s, v.ballots.find? s ≠ some .yes)
    (hcast : v.cast s .no = .ok v') (s' : Seat) : v'.ballots.find? s' ≠ some .yes := by
  obtain ⟨-, rfl⟩ := cast_eq_ok.mp hcast
  rw [Table.find?_insert]
  split
  · exact nofun
  · exact h s'

theorem elects_eq_false (h : ∀ s, v.ballots.find? s ≠ some .yes) : v.elects = false := by
  have hnobody : v.count .yes = 0 := by
    refine List.count_eq_zero.mpr fun hyes => ?_
    obtain ⟨e, he, hballot⟩ := List.mem_map.mp hyes
    exact h e.1 (hballot ▸ Table.find?_eq_some_iff.mpr he)
  rw [elects, hnobody, decide_eq_false_iff_not]
  exact Nat.not_lt_zero _

end Votes

/-- **A step that leaves some actions to go**, if nobody votes for a government. -/
def Step.Leaves (n : ℕ) (s : Step) : Prop :=
  match s.game with
  | .lobby _ => False
  | .running g => g.Opposed ∧ g.toGo = n
  | .completed _ => n = 0

namespace Board

variable {b : Board} {step : Step}

/-- Where the first policy decides the game chaos ends it. -/
theorem Collapses.ends (h : b.Collapses step) (hgoals : ∀ p, b.config.goal p = 1) :
    ∃ v, step.game = .completed v := by
  cases h with
  | ended _ _ _ => exact ⟨_, rfl⟩
  | @goesOn drawn track _ _ hrise hgoal _ =>
    have hbelow : track.count drawn.cards < b.config.goal drawn.cards :=
      goalReached_eq_none.mp hgoal
    have hcount := Track.count_of_enact hrise
    rw [hgoals, UInt32.lt_iff_toNat_lt, hcount] at hbelow
    exact absurd hbelow (Nat.not_lt.mpr (Nat.le_add_left ..))

/-- **A failed government** leaves a whole election for each that may still fail. -/
theorem Fails.leaves (h : b.Fails step) (hgoals : ∀ p, b.config.goal p = 1) :
    step.Leaves ((b.config.chaosThreshold.toNat - 1 - b.election.tracker.toNat) *
      (b.living + 1)) := by
  cases h with
  | @counted failed next hfailed hbelow _ =>
    have hcount := increment_eq_ok.mp hfailed
    have hlt := UInt32.lt_iff_toNat_lt.mp hbelow
    have hsplit : b.config.chaosThreshold.toNat - 1 - b.election.tracker.toNat =
        (b.config.chaosThreshold.toNat - 1 - failed.toNat) + 1 := by omega
    refine ⟨trivial, ?_⟩
    rw [hsplit, Nat.succ_mul]
    rfl
  | @collapsed failed _ hfailed hreached hchaos =>
    have hcount := increment_eq_ok.mp hfailed
    have hle := UInt32.le_iff_toNat_le.mp hreached
    obtain ⟨v, hgame⟩ := hchaos.ends hgoals
    have hnone : b.config.chaosThreshold.toNat - 1 - b.election.tracker.toNat = 0 := by omega
    rw [Step.Leaves, hgame, hnone, Nat.zero_mul]

end Board

/-- **Every move takes exactly one off** what is to go, as long as nobody votes for a
government. -/
theorem Running.Moves.leaves {g : Running} {a : Action} {step : Step} (h : g.Moves a step)
    (hgoals : ∀ p, g.board.config.goal p = 1) (hopposed : g.Opposed) (ha : a.backs = false) :
    ∃ n, g.toGo = n + 1 ∧ step.Leaves n := by
  cases h with
  | @nominate b candidate chancellor _ _ _ _ _ =>
    refine ⟨_, rfl, fun _ => nofun, ?_⟩
    rw [toGo, Phase.toGo, Votes.outstanding_none]
    rfl
  | @vote b government votes votes' seat voter ballot hvoter hcast _ =>
    obtain rfl := Ballot.eq_no_of_backs ha
    have hless := Votes.outstanding_of_cast (Seating.mem_seats_of_seatOf? hvoter) hcast
    refine ⟨_, ?_, Votes.find?_ne_yes_of_cast hopposed hcast, rfl⟩
    simp only [toGo, Phase.toGo]
    omega
  | @decide b government votes votes' seat voter ballot step hvoter hcast hcomplete hresolves =>
    obtain rfl := Ballot.eq_no_of_backs ha
    have hless := Votes.outstanding_of_cast (Seating.mem_seats_of_seatOf? hvoter) hcast
    have hrejects := Votes.elects_eq_false (Votes.find?_ne_yes_of_cast hopposed hcast)
    -- the last ballot was the only one out, so nothing else was to go of this election
    rw [Votes.outstanding_eq_zero hcomplete] at hless
    cases hresolves with
    | hitlerElected helects _ | elected helects _ _ =>
      rw [hrejects] at helects
      cases helects
    | rejected _ _ hfails =>
      refine ⟨_, ?_, hfails.leaves hgoals⟩
      simp only [toGo, Phase.toGo, ← hless]
  | _ => exact absurd hopposed id

/-- A fresh game is to go on for a whole election for each that may fail. -/
theorem Running.Fresh.toGo_eq {n : ℕ} {c : Configuration} {g : Running} (h : g.Fresh c n)
    (hc : 0 < c.chaosThreshold) :
    g.Opposed ∧ g.toGo = c.chaosThreshold.toNat * (n + 1) := by
  obtain ⟨first, _, hphase⟩ := h.nomination
  obtain ⟨failures, hfailures⟩ := Nat.exists_eq_add_of_lt (UInt32.lt_iff_toNat_lt.mp hc)
  rw [UInt32.toNat_zero, Nat.zero_add] at hfailures
  constructor
  · rw [Opposed, hphase]
    trivial
  · have hfirst : g.phase.toGo g.board.seating = n + 1 := by
      rw [hphase]
      exact congrArg Nat.succ h.living
    rw [toGo, hfirst, h.config, h.patient, h.living, hfailures, Nat.succ_mul]
    rfl

namespace Match

variable {r : Rules} {names : List String} {lineup : Lineup σ} {c : Configuration}
variable {step left : ℕ} {s s' : Standing} {rng rng' : σ}

/-- The actions that a match is yet to take if nobody votes for a government. -/
def Standing.toGo (c : Configuration) (n : ℕ) (s : Standing) : ℕ :=
  match s.game with
  | .lobby _ => s.opening.length + c.chaosThreshold.toNat * (n + 1)
  | .running g => g.toGo
  | .completed _ => 0

/-- A match in which no government has a vote. -/
def Standing.Opposed (s : Standing) : Prop :=
  match s.game with
  | .running g => g.Opposed
  | _ => True

/-- The match that a step of its game leads to. -/
theorem Standing.toGo_of_leaves {n m events : ℕ} {result : Step} {opening : List Action}
    {track : Track} (h : result.Leaves m) :
    (⟨result.game, opening, events, track⟩ : Standing).Opposed ∧
      (⟨result.game, opening, events, track⟩ : Standing).toGo c n = m := by
  rw [Step.Leaves] at h
  simp only [Standing.Opposed, Standing.toGo]
  cases hgame : result.game with
  | lobby _ =>
    rw [hgame] at h
    exact absurd h id
  | running g =>
    rw [hgame] at h
    exact h
  | completed v =>
    rw [hgame] at h
    exact ⟨trivial, h.symm⟩

omit [RandomSource σ] in
/-- An action that is picked votes for no government. -/
theorem backs_eq_false {g : Running} {a : Action} {t : σ} (hg : g.Sound)
    (hdissents : ∀ party, (lineup.forParty party).Dissents)
    (h : pick lineup (.running g) rng = (.ok (some a), t)) : a.backs = false := by
  obtain hstuck | ⟨party, actor, options, hsome, hoptions, hpick⟩ := pick_cases hg lineup
  · rw [pick, hg.legalActions_eq_nil_iff.mpr hstuck] at h
    cases h
  · rw [hpick] at h
    obtain ⟨picked, _, hchoice, hret⟩ := Draws.bind_eq_ok.mp h
    cases hret
    exact hdissents party g actor options rng _ _ hsome hoptions hchoice

/-- **A step of such a match** takes exactly one off what is to go. -/
theorem opposed_of_advance (hr : r.Valid) (hc : r.configurationFor names.length = some c)
    (hgoals : ∀ p, c.goal p = 1) (hdissents : ∀ party, (lineup.forParty party).Dissents)
    (hs : s.Ready r names) (hopposed : s.Opposed)
    (h : advance lineup step s rng = (.ok s', rng')) :
    s'.Opposed ∧ s.toGo c names.length = s'.toGo c names.length + 1 := by
  obtain ⟨a, opening, u, result, hnext, happly, rfl⟩ := exists_of_advance h
  obtain ⟨hcourse, -⟩ := hs
  cases hcourse with
  | @gathering l waiting first events track hlobby hplayers =>
    have hplay := ((hlobby.sound hr).apply_eq_ok_iff hr).mp happly
    cases waiting with
    | nil =>
      rw [nextAction_of_opening rfl] at hnext
      cases hnext
      obtain ⟨c', g, hc', hgame, hg, hfresh⟩ :=
        Lobby.Sound.fresh_of_start (hlobby.sound hr) hr hplay
      rw [List.append_nil] at hplayers
      rw [hplayers] at hc' hfresh
      obtain rfl : c = c' := Option.some.inj (hc.symm.trans hc')
      obtain ⟨hopposed', htoGo⟩ := hfresh.toGo_eq (hr.playable hc).chaos_pos
      have hleaves : result.Leaves (c.chaosThreshold.toNat * (names.length + 1)) := by
        rw [Step.Leaves, hgame]
        exact ⟨hopposed', htoGo⟩
      obtain ⟨hafter, hrest⟩ := Standing.toGo_of_leaves hleaves
      refine ⟨hafter, ?_⟩
      rw [hrest]
      exact Nat.add_comm _ _
    | cons name waiting =>
      rw [nextAction_of_opening rfl] at hnext
      cases hnext
      obtain ⟨-, rfl⟩ := Lobby.join_eq_ok.mp (Prod.mk.inj hplay).1
      exact ⟨trivial, Nat.succ_add ..⟩
  | @playing g events track hg =>
    have hsound : g.Sound := hg.sound hr
    have hconfig : c = g.board.config := Option.some.inj (hc.symm.trans (hg.config hr))
    have hplay := ((hg.reachable.sound hr).apply_eq_ok_iff hr).mp happly
    obtain ⟨picked, _, hpick, hret⟩ := Draws.bind_eq_ok.mp hnext
    cases picked with
    | none => cases hret
    | some a' =>
      cases hret
      have hbacks := backs_eq_false hsound hdissents hpick
      obtain ⟨m, htoGo, hleaves⟩ :=
        (Running.moves_of_play hplay).leaves (hconfig ▸ hgoals) hopposed hbacks
      obtain ⟨hafter, hrest⟩ := Standing.toGo_of_leaves hleaves
      refine ⟨hafter, ?_⟩
      rw [hrest]
      exact htoGo
  | ended => cases happly

/-- Such a match goes on until it is over. -/
theorem exists_opposed_advance (hr : r.Valid) (hnames : names.Nodup)
    (hc : r.configurationFor names.length = some c) (hspares : c.Spares names.length)
    (hgoals : ∀ p, c.goal p = 1) (hpicks : ∀ party, (lineup.forParty party).Picks r)
    (hdissents : ∀ party, (lineup.forParty party).Dissents) (hs : s.Ready r names)
    (hopposed : s.Opposed) (hopen : ∀ v, s.game ≠ .completed v) (step : ℕ) (rng : σ) :
    ∃ s' rng', advance lineup step s.noted rng = (.ok s', rng') ∧ s'.Ready r names ∧
      s'.Opposed ∧ s.toGo c names.length = s'.toGo c names.length + 1 := by
  have hnoted : s.noted.game = s.game := s.noted_game
  obtain ⟨s', rng', hadvance⟩ := advance_succeeds hr hnames hc hspares hpicks hs.noted
    (hnoted ▸ hopen) step rng
  obtain ⟨hopposed', hless⟩ := opposed_of_advance hr hc hgoals hdissents hs.noted
    (by rwa [Standing.Opposed, hnoted]) hadvance
  rw [Standing.toGo, hnoted, s.noted_opening] at hless
  exact ⟨s', rng', hadvance, hs.noted.advance hr hadvance, hopposed', hless⟩

/-- **A match that nobody votes for runs into its limit** if it has as many actions left as it
is to go on for: the last of them wins, and is the last that is observed. -/
theorem stepLimit_of_opposed (step : ℕ) (rng : σ) (hr : r.Valid) (hnames : names.Nodup)
    (hc : r.configurationFor names.length = some c) (hspares : c.Spares names.length)
    (hgoals : ∀ p, c.goal p = 1) (hpicks : ∀ party, (lineup.forParty party).Picks r)
    (hdissents : ∀ party, (lineup.forParty party).Dissents) (hs : s.Ready r names)
    (hopposed : s.Opposed) (hleft : s.toGo c names.length = left) :
    ∃ v, playOn lineup (fun _ k g => (k, g)) left step s (step, s.game) rng =
      (.error (.stepLimit (step + left)), step + left, .completed v) := by
  induction left generalizing s step rng with
  | zero =>
    by_cases hended : ∃ v, s.game = .completed v
    · obtain ⟨v, hended⟩ := hended
      exact ⟨v, by rw [hended]; rfl⟩
    · obtain ⟨s', -, -, -, -, hless⟩ := exists_opposed_advance hr hnames hc hspares hgoals hpicks
        hdissents hs hopposed (not_exists.mp hended) step rng
      omega
  | succ left ih =>
    have hopen : ∀ v, s.game ≠ .completed v := by
      intro v hended
      rw [Standing.toGo, hended] at hleft
      cases hleft
    obtain ⟨s', rng', hadvance, hready, hopposed', hless⟩ := exists_opposed_advance hr hnames hc
      hspares hgoals hpicks hdissents hs hopposed hopen step rng
    obtain ⟨v, hplays⟩ := ih (step + 1) rng' hready hopposed' (by omega)
    refine ⟨v, ?_⟩
    rw [playOn_of_advance hopen hadvance, hplays, Nat.add_right_comm, Nat.add_assoc]

end Match

/-- **A match at its limit loses its victory.** Where the first policy decides the game and
the elections that chaos waits for, with the opening, take up just what a match may take,
nobody need vote for a government: the last action that a match may take wins it, and the
match reports that it came to its limit. -/
theorem Rules.Valid.stepLimit_of_dissent {r : Rules} (hr : r.Valid) {names : List String}
    {lineup : Lineup σ} {c : Configuration} (hnames : names.Nodup)
    (hc : r.configurationFor names.length = some c) (hspares : c.Spares names.length)
    (hgoals : ∀ p, c.goal p = 1)
    (hlength : (names.length + 1) * (c.chaosThreshold.toNat + 1) = maxSteps)
    (hpicks : ∀ party, (lineup.forParty party).Picks r)
    (hdissents : ∀ party, (lineup.forParty party).Dissents) (rng : σ) :
    ∃ v, Match.play r names lineup (fun _ k g => (k, g)) (0, .new r) rng =
      (.error (.stepLimit maxSteps), maxSteps, .completed v) := by
  have htoGo : (Match.Standing.first r names).toGo c names.length = maxSteps := by
    obtain ⟨first, rest, rfl⟩ := List.exists_cons_of_ne_nil hspares.names_ne_nil
    rw [← hlength, Nat.mul_succ, Nat.mul_comm, Nat.add_comm]
    simp [Match.Standing.toGo, Match.Standing.first, Game.new, Match.opening]
  obtain ⟨v, hplays⟩ := Match.stepLimit_of_opposed 0 rng hr hnames hc hspares hgoals hpicks
    hdissents (.first r hspares.names_ne_nil) trivial htoGo
  rw [Nat.zero_add] at hplays
  exact ⟨v, hplays⟩

/-- Rules that the first policy decides, and under which chaos takes its time. -/
def Rules.dragging : Rules :=
  { standard with liberalGoal := 1, fascistGoal := 1, chaosThreshold := 624 }

/-- **Valid rules have a match that is won by the last action it may take**, and reports that
nobody won. -/
theorem Match.dragging_overruns :
    Rules.dragging.Valid ∧
      (∀ party, (Lineup.forParty ⟨.dissenting, .dissenting⟩ party : Strategy ChaCha).Picks
        .dragging) ∧
      ∃ v, play .dragging (botNames 7) ⟨.dissenting, .dissenting⟩ (fun _ k g => (k, g))
        (0, .new .dragging) (ChaCha.ofSeed 0) =
          (.error (.stepLimit maxSteps), maxSteps, .completed v) := by
  have hr : Rules.dragging.Valid := by decide
  have hpicks : ∀ party, (Lineup.forParty ⟨.dissenting, .dissenting⟩ party :
      Strategy ChaCha).Picks .dragging :=
    Lineup.forParty_of (Strategy.dissenting_picks _) (Strategy.dissenting_picks _)
  have hdissents : ∀ party, (Lineup.forParty ⟨.dissenting, .dissenting⟩ party :
      Strategy ChaCha).Dissents :=
    Lineup.forParty_of Strategy.dissenting_dissents Strategy.dissenting_dissents
  obtain ⟨c, hc, hspares, hgoals, hlength⟩ :
      ∃ c, Rules.dragging.configurationFor (botNames 7).length = some c ∧
        c.Spares (botNames 7).length ∧ (∀ p, c.goal p = 1) ∧
        ((botNames 7).length + 1) * (c.chaosThreshold.toNat + 1) = maxSteps :=
    ⟨_, rfl, by decide, by intro p; cases p with | liberal | fascist => rfl, by decide⟩
  exact ⟨hr, hpicks, hr.stepLimit_of_dissent (by decide) hc hspares hgoals hlength hpicks hdissents
    (ChaCha.ofSeed 0)⟩

end SecretHitler
