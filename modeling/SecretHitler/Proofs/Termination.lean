import SecretHitler.Proofs.Runs
import Mathlib.Tactic.Ring
/-!
# Every game ends

A table of `n` players takes at most `n + 5` accepted actions to a government,
at most a chaos threshold of governments to a policy, and the last policy is
one of a number that the goals fix. The budget of a game adds these up from
where it stands: policies still to come, governments that may still fail, and
what is left of the phase. Every move spends some of it (`Moves.spends`), so a
run is as long as the budget of a fresh game at most.
-/

namespace SecretHitler

/-- The actions that a table of `n` players takes to a policy at most. -/
def Configuration.actionsPerPolicy (c : Configuration) (n : ℕ) : ℕ :=
  c.chaosThreshold.toNat * (n + 5) + 1

namespace Board

/-- The policies that may be enacted before the last one. -/
def policiesLeft (b : Board) : ℕ :=
  (b.config.liberalGoal.toNat - 1 - b.track.liberal.toNat) +
    (b.config.fascistGoal.toNat - 1 - b.track.fascist.toNat)

/-- The actions that policies and failed governments leave room for, the present
phase not counted. -/
def budget (n : ℕ) (b : Board) : ℕ :=
  b.policiesLeft * b.config.actionsPerPolicy n +
    (b.config.chaosThreshold.toNat - 1 - b.election.tracker.toNat) * (n + 5)

end Board

/-- The players whose ballots are out. -/
def Votes.outstanding (v : Votes) (t : Seating) : ℕ := t.seats.countP fun s => !v.hasVoted s

/-- The actions that a phase leaves room for until the next nomination. -/
def Phase.budget (n : ℕ) (t : Seating) : Phase → ℕ
  | .nomination _ => n + 6
  | .voting _ votes => votes.outstanding t + 5
  | .presidentChoice _ _ => 5
  | .chancellorChoice _ _ .notRequested => 4
  | .chancellorChoice _ _ .requested => 3
  | .chancellorChoice _ _ .rejected => 2
  | .powerPending _ _ => n + 7

/-- **The budget of a game** among at most `n` players. -/
def Running.budget (n : ℕ) (g : Running) : ℕ :=
  g.board.budget n + g.phase.budget n g.board.seating

namespace Votes

theorem outstanding_le (v : Votes) (t : Seating) : v.outstanding t ≤ t.size :=
  t.length_seats ▸ List.countP_le_length

/-- A ballot that is cast is out no more. -/
theorem outstanding_of_cast {v v' : Votes} {t : Seating} {s : Seat} {ballot : Ballot}
    (hs : s ∈ t.seats) (h : v.cast s ballot = .ok v') :
    v'.outstanding t + 1 = v.outstanding t := by
  classical
  obtain ⟨hfresh, rfl⟩ := cast_eq_ok.mp h
  have hnodup : t.seats.Nodup := t.names.nodup_keys
  have hperm := List.perm_cons_erase hs
  have hvoted : (⟨v.ballots.insert s ballot⟩ : Votes).hasVoted s = true :=
    Table.contains_iff.mpr (Table.mem_keys_insert.mpr (.inl rfl))
  have hothers : (t.seats.erase s).countP (fun s' =>
      !(⟨v.ballots.insert s ballot⟩ : Votes).hasVoted s') =
      (t.seats.erase s).countP fun s' => !v.hasVoted s' := by
    refine List.countP_congr fun s' hs' => ?_
    have hne : s' ≠ s := (hnodup.mem_erase_iff.mp hs').1
    have hsame : (⟨v.ballots.insert s ballot⟩ : Votes).hasVoted s' = v.hasVoted s' := by
      rw [Bool.eq_iff_iff, hasVoted, hasVoted, Table.contains_iff, Table.contains_iff,
        Table.mem_keys_insert]
      simp [hne]
    rw [hsame]
  rw [outstanding, outstanding, hperm.countP_eq, hperm.countP_eq, List.countP_cons,
    List.countP_cons, hothers, hvoted, hfresh]
  simp

end Votes

namespace Board

variable {n : ℕ} {b : Board} {p : Policy} {track : Track} {step : Step}

/-- A policy that does not win is one less to come. -/
theorem Sound.policiesLeft_of_enact (hb : b.Sound) (hrise : b.track.enact p = .ok track)
    (hgoal : goalReached { b with track := track } p = none) :
    policiesLeft { b with track := track } + 1 = b.policiesLeft := by
  have hbelow := hb.enact hrise hgoal
  have hliberal := UInt32.lt_iff_toNat_lt.mp (hbelow .liberal)
  have hfascist := UInt32.lt_iff_toNat_lt.mp (hbelow .fascist)
  simp only [Track.count, Configuration.goal] at hliberal hfascist
  simp only [policiesLeft]
  cases p with
  | liberal =>
    have hrisen : track.liberal.toNat = b.track.liberal.toNat + 1 := Track.count_of_enact hrise
    have hsame : track.fascist = b.track.fascist :=
      Track.count_of_enact_of_ne (q := .fascist) hrise (by decide)
    rw [hsame]
    omega
  | fascist =>
    have hrisen : track.fascist.toNat = b.track.fascist.toNat + 1 := Track.count_of_enact hrise
    have hsame : track.liberal = b.track.liberal :=
      Track.count_of_enact_of_ne (q := .liberal) hrise (by decide)
    rw [hsame]
    omega

/-- With no government failed a nomination has a whole policy's actions. -/
theorem budget_of_reset (hplay : b.config.Playable) (htracker : b.election.tracker = 0) :
    b.budget n + (n + 6) = (b.policiesLeft + 1) * b.config.actionsPerPolicy n := by
  have hpos := UInt32.lt_iff_toNat_lt.mp hplay.chaos_pos
  obtain ⟨failures, hfailures⟩ := Nat.exists_eq_add_of_lt hpos
  rw [UInt32.toNat_zero, Nat.zero_add] at hfailures
  -- as many failures as fall short of the threshold, and the one that reaches it
  simp only [budget, htracker, UInt32.toNat_zero, Configuration.actionsPerPolicy, hfailures,
    Nat.add_sub_cancel, Nat.sub_zero]
  ring

/-- **A policy that does not win has spent its share.** -/
theorem Sound.budget_of_enact (hb : b.Sound) (hrise : b.track.enact p = .ok track)
    (hgoal : goalReached { b with track := track } p = none) {b' : Board}
    (hconfig : b'.config = b.config) (htrack : b'.track = track)
    (htracker : b'.election.tracker = 0) :
    b'.budget n + (n + 6) = b.policiesLeft * b.config.actionsPerPolicy n := by
  have hplay : b'.config.Playable := hconfig ▸ hb.playable
  have hless : b'.policiesLeft + 1 = b.policiesLeft := by
    rw [← hb.policiesLeft_of_enact hrise hgoal]
    simp only [policiesLeft, hconfig, htrack]
  rw [budget_of_reset hplay htracker, hless, hconfig]

theorem opened_budget (b : Board) {next : Seat} {m : ℕ} (h : b.budget n + (n + 6) ≤ m) :
    (b.opened next).Keeps fun g => g.budget n ≤ m :=
  h

theorem Collapses.budget_le (h : b.Collapses step) (hb : b.Sound)
    (htracker : b.election.tracker = 0) :
    step.Keeps fun g => g.budget n ≤ b.policiesLeft * b.config.actionsPerPolicy n := by
  cases h with
  | ended _ _ _ => exact trivial
  | goesOn _ hrise hgoal _ =>
    exact opened_budget _ (Nat.le_of_eq (hb.budget_of_enact hrise hgoal rfl rfl htracker))

/-- **A failed government** costs a failure, or chaos costs a policy. -/
theorem Fails.budget_le (h : b.Fails step) (hb : b.Sound) :
    step.Keeps fun g => g.budget n ≤ b.budget n + 1 := by
  cases h with
  | @counted failed next hfailed hbelow _ =>
    refine opened_budget _ ?_
    have hcount := increment_eq_ok.mp hfailed
    have hlt := UInt32.lt_iff_toNat_lt.mp hbelow
    have hsplit : b.config.chaosThreshold.toNat - 1 - b.election.tracker.toNat =
        (b.config.chaosThreshold.toNat - 1 - failed.toNat) + 1 := by omega
    simp only [budget, policiesLeft, hsplit, Nat.add_mul]
    omega
  | collapsed _ _ hchaos =>
    have hreset : Sound { b with election := b.election.reset.unlimit } :=
      { hb with patient := hb.playable.chaos_pos }
    refine (hchaos.budget_le (n := n) hreset rfl).imp fun g hg => ?_
    exact Nat.le_trans hg (Nat.le_add_right_of_le (Nat.le_add_right ..))

/-- **An enactment** costs a policy, and a power that waits one action more. -/
theorem Enacts.budget_le {president : Seat} (h : b.Enacts president p step) (hb : b.Sound) :
    step.Keeps fun g => g.budget n ≤ b.budget n + 1 := by
  have governed {track : Track} (hrise : b.track.enact p = .ok track)
      (hgoal : (b.governed track).goalReached p = none) :
      (b.governed track).budget n + (n + 6) ≤ b.budget n :=
    Nat.le_trans (Nat.le_of_eq (hb.budget_of_enact hrise hgoal rfl rfl rfl)) (Nat.le_add_right ..)
  cases h with
  | ended _ _ => exact trivial
  | goesOn hrise hgoal _ _ => exact opened_budget _ (Nat.le_succ_of_le (governed hrise hgoal))
  | peeks hrise hgoal _ _ _ => exact opened_budget _ (Nat.le_succ_of_le (governed hrise hgoal))
  | waits hrise hgoal _ _ => exact Nat.succ_le_succ (governed hrise hgoal)

theorem Resolves.budget_le {g : Government} {votes : Votes} (h : b.Resolves g votes step)
    (hb : b.Sound) : step.Keeps fun g => g.budget n ≤ b.budget n + 5 := by
  cases h with
  | hitlerElected _ _ => exact trivial
  | elected _ _ _ => exact Nat.le_refl _
  | rejected _ _ hfails =>
    exact (hfails.budget_le (n := n) hb).imp fun g hg => Nat.le_trans hg (by omega)

end Board

/-- **Every move spends some of the budget.** -/
theorem Running.Moves.spends {n : ℕ} {g : Running} {a : Action} {step : Step} (h : g.Moves a step)
    (hg : g.Sound) (hn : g.board.living ≤ n) :
    step.Keeps fun g' => g'.board.living ≤ n ∧ g'.budget n < g.budget n := by
  have hliving : step.Keeps fun g' => g'.board.living ≤ n :=
    h.table.imp fun g' htable => Nat.le_trans htable.2 hn
  refine hliving.and ?_
  obtain ⟨hb, hphase, _⟩ := hg
  cases h with
  | @nominate b candidate chancellor _ _ _ _ _ =>
    -- nobody but the living votes
    have hout : Votes.none.outstanding b.seating ≤ b.living := Votes.outstanding_le ..
    have hn : b.living ≤ n := hn
    refine Nat.add_lt_add_left ?_ _
    simp only [Phase.budget]
    omega
  | vote hvoter hcast _ =>
    have hless := Votes.outstanding_of_cast (Seating.mem_seats_of_seatOf? hvoter) hcast
    refine Nat.add_lt_add_left ?_ _
    simp only [Phase.budget]
    omega
  | decide hvoter hcast _ hresolves =>
    -- the last ballot was out, so at least six actions were left
    have hless := Votes.outstanding_of_cast (Seating.mem_seats_of_seatOf? hvoter) hcast
    refine (hresolves.budget_le (n := n) hb).imp fun g' hg' => Nat.lt_of_le_of_lt hg' ?_
    refine Nat.add_lt_add_left ?_ _
    simp only [Phase.budget]
    omega
  | discard _ _ => exact Nat.lt_succ_self _
  | @enact b government agenda veto card other _ _ _ _ _ _ henacts =>
    have hsound : Board.Sound { b with deck := b.deck.discard other } := { hb with }
    refine (henacts.budget_le (n := n) hsound).imp fun g' hg' => Nat.lt_of_le_of_lt hg' ?_
    refine Nat.add_lt_add_left ?_ _
    cases veto with
    | notRequested | requested | rejected => simp only [Phase.budget]; omega
  | requestVeto _ _ => exact Nat.lt_succ_self _
  | refuseVeto _ => exact Nat.lt_succ_self _
  | @approveVeto b _ _ _ deck _ _ _ _ hrep _ hfails =>
    have hsound : Board.Sound { b with deck := deck } := hb.replenish hrep
    refine (hfails.budget_le (n := n) hsound).imp fun g' hg' => Nat.lt_of_le_of_lt hg' ?_
    refine Nat.add_lt_add_left ?_ _
    simp only [Phase.budget]
    omega
  | investigate _ _ _ _ _ _ => exact Nat.lt_succ_self _
  | callElection _ _ _ => exact Nat.lt_succ_self _
  | killHitler _ _ _ _ => exact trivial
  | kill _ _ _ _ _ _ _ _ => exact Nat.lt_succ_self _

/-- The budget of a fresh game: every policy but the last, and the last. -/
theorem Running.Fresh.budget_eq {n : ℕ} {c : Configuration} {g : Running} (h : g.Fresh c n)
    (hg : g.Sound) : g.budget n =
      (c.liberalGoal.toNat - 1 + (c.fascistGoal.toNat - 1) + 1) * c.actionsPerPolicy n := by
  obtain ⟨first, _, hphase⟩ := h.nomination
  have hleft : g.board.policiesLeft = c.liberalGoal.toNat - 1 + (c.fascistGoal.toNat - 1) := by
    rw [Board.policiesLeft, h.track, h.config]
    rfl
  have hwhole := Board.budget_of_reset (n := n) hg.board.playable h.patient
  rw [hleft, h.config] at hwhole
  rw [budget, hphase]
  exact hwhole

/-- A game under way has some budget left. -/
theorem Running.budget_pos (n : ℕ) (g : Running) : 0 < g.budget n := by
  refine Nat.add_pos_right _ ?_
  cases g.phase with
  | chancellorChoice government agenda veto =>
    cases veto with
    | notRequested | requested | rejected => exact Nat.succ_pos _
  | _ => exact Nat.succ_pos _

namespace Game

variable {σ : Type} [RandomSource σ] {r : Rules} {n : ℕ}

/-- Nothing is accepted once a game is over. -/
theorem accepted_of_completed (v : Victory) (actions : List Action) (s : σ) :
    ((completed v).answers actions s).countP (·.isOk) = 0 := by
  refine List.countP_eq_zero.mpr fun answer hanswer => ?_
  rw [eq_of_mem_answers_completed hanswer]
  exact Bool.false_ne_true

/-- **A run accepts no more actions than the budget it begins with.** -/
theorem accepted_le_budget (hr : r.Valid) {g : Running} (hg : g.Sound) (hn : g.board.living ≤ n)
    (actions : List Action) (s : σ) :
    ((running g).answers actions s).countP (·.isOk) ≤ g.budget n := by
  induction actions generalizing g s with
  | nil => exact Nat.zero_le _
  | cons a rest ih =>
    have hsound : (running g).Sound r := hg
    rw [answers]
    obtain ⟨step, t, hstep, _⟩ | ⟨cause, hcause⟩ := hsound.apply_cases hr a s
    · have hmove := Running.moves_of_play ((hsound.apply_eq_ok_iff hr).mp hstep)
      obtain ⟨g', hg', ⟨hn', hless⟩, hsound'⟩ | ⟨v, hv⟩ :=
        ((hmove.spends hg hn).and (hmove.sound hg)).cases
      · have hrest := ih hsound' hn' t
        rw [hstep, List.countP_cons_of_pos rfl]
        dsimp only [next]
        rw [hg']
        omega
      · have hpos := Running.budget_pos n g
        rw [hstep, List.countP_cons_of_pos rfl]
        dsimp only [next]
        rw [hv, accepted_of_completed]
        omega
    · rw [hcause, List.countP_cons_of_neg Bool.false_ne_true]
      exact ih hg hn s

end Game

/-- **Every game is bounded.** From the start of a table of `n` players on no
choice of theirs, and no luck, makes more actions accepted than the goals, the
chaos threshold and `n` allow. -/
theorem Rules.Valid.accepted_le {r : Rules} (hr : r.Valid) {l : Lobby}
    (hl : Game.Reachable r (.lobby l)) {σ τ : Type} [RandomSource σ] [RandomSource τ]
    {actor : String} {s s' : σ} {step : Step}
    (hstart : Game.apply (.lobby l) (.start actor) s = (.ok step, s')) (actions : List Action)
    (t : τ) :
    (step.game.answers actions t).countP (·.isOk) ≤
      (r.liberalGoal.toNat + r.fascistGoal.toNat - 1) *
        (r.chaosThreshold.toNat * (l.players.length + 5) + 1) := by
  have hlobby : Game.Sound r (.lobby l) := hl.sound hr
  obtain ⟨c, g, hc, hgame, hg, hfresh⟩ := Lobby.Sound.fresh_of_start hlobby hr
    ((hlobby.apply_eq_ok_iff hr).mp hstart)
  have hrun := Game.accepted_le_budget hr hg (Nat.le_of_eq hfresh.living) actions t
  rw [hgame]
  refine Nat.le_trans hrun (Nat.le_of_eq ?_)
  obtain ⟨_, _, _, _, _, hliberal, hfascist, hchaos⟩ := Rules.configurationFor_eq_some hc
  have hliberalPos := UInt32.lt_iff_toNat_lt.mp ((hr.playable hc).goal_pos .liberal)
  have hfascistPos := UInt32.lt_iff_toNat_lt.mp ((hr.playable hc).goal_pos .fascist)
  rw [hfresh.budget_eq hg, Configuration.actionsPerPolicy, hchaos]
  simp only [Configuration.goal, hliberal, hfascist, UInt32.toNat_zero] at hliberalPos hfascistPos ⊢
  congr 1
  omega

/-- Five players under the standard rules take three hundred and ten actions at
most. -/
theorem Rules.Valid.accepted_le_standard :
    Rules.standard.Valid ∧ Game.Reachable .standard (.lobby .ofFive) ∧
      ∃ step t, Game.apply (.lobby .ofFive) (.start "a") (Script.ofWords []) = (.ok step, t) ∧
        ∀ actions, (step.game.answers actions (Script.ofWords [])).countP (·.isOk) ≤ 310 := by
  have hr : Rules.standard.Valid := by decide
  have hl := Lobby.reachable_ofFive
  have hallows : Game.Allows (.lobby .ofFive) (.start "a") :=
    show Lobby.ofFive.Allows (.start "a") from ⟨.head _, by decide⟩
  obtain ⟨step, t, hstart⟩ := (hl.sound hr).apply_succeeds hr hallows (Script.ofWords [])
  exact ⟨hr, hl, step, t, hstart, fun actions =>
    Rules.Valid.accepted_le (by decide) hl hstart actions (Script.ofWords [])⟩

end SecretHitler
