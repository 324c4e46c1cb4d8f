import SecretHitler.Proofs.SelfPlay
import SecretHitler.Proofs.Termination
import Mathlib.Data.Finset.Max
/-!
# Matches that end

A match of strategies that pick (`Strategy.Picks`) has an outcome, whatever the
luck. Every step of it succeeds: the opening is allowed because the names are
distinct and the rules seat them, and from there on a player has something to
pick because the table is spared. Each step takes one off the actions that are
left (`Standing.actionsLeft`), and these are fewer than a match may take. What
is observed on the way is the course of the game itself (`Match.EndsWith`).
-/

namespace SecretHitler

variable {σ : Type} [RandomSource σ]

/-- Of something, something is chosen. -/
theorem Draws.choose_eq_ok {α : Type} {l : List α} (h : l ≠ []) (s : σ) :
    ∃ a ∈ l, ∃ t, choose l s = (.ok a, t) := by
  have hlt : (RandomSource.below l.length s).1 < l.length :=
    RandomSource.below_lt (List.length_pos_iff.mpr h) s
  refine ⟨l[(RandomSource.below l.length s).1], List.getElem_mem hlt,
    (RandomSource.below l.length s).2, ?_⟩
  rw [choose, if_neg (by simpa using h), bind_apply, draw_apply]
  simp only [of_apply, List.getElem?_eq_getElem hlt, Attempt.orFail]

/-- Some action is wanted most. -/
theorem View.best_ne_nil (v : View) (g : Running) {options : List Action} (h : options ≠ []) :
    v.best g options ≠ [] := by
  obtain ⟨a, ha, hmost⟩ := options.toFinset.exists_max_image (v.score g)
    (List.toFinset_nonempty_iff _ |>.mpr h)
  refine List.ne_nil_of_mem (a := a) (List.mem_filter.mpr ⟨List.mem_toFinset.mp ha, ?_⟩)
  simpa using fun other hother => hmost other (List.mem_toFinset.mpr hother)

namespace RoleMap

variable {m : RoleMap}

theorem hitler_succeeds (h : m.hitlers = 1) : m.hitler.Succeeds := by
  obtain ⟨s, hs⟩ := exists_hitler h
  have hfound : (m.roles.entries.find? fun e => e.2 == .hitler).isSome :=
    List.find?_isSome.mpr ⟨_, Table.find?_eq_some_iff.mp hs, beq_self_eq_true _⟩
  obtain ⟨e, he⟩ := Option.isSome_iff_exists.mp hfound
  exact ⟨e.1, by rw [hitler, he]; rfl⟩

/-- Whoever has a role is told something. -/
theorem knowledge_succeeds (h : m.hitlers = 1) {s : Seat} (hs : s ∈ m.seats)
    (hitlerKnows : Bool) : (m.knowledge s hitlerKnows).Succeeds := by
  refine (roleOf_succeeds hs).bind fun role _ => ?_
  cases role with
  | liberal | hitler => exact ⟨_, rfl⟩
  | plainFascist => exact (hitler_succeeds h).bind fun _ _ => ⟨_, rfl⟩

end RoleMap

/-- Whoever is seated picks among the actions that are wanted most, by what the seat was
told. -/
theorem Strategy.partisan_eq_choose {g : Running} {actor : String} {me : Seat} {k : Knowledge}
    (hme : g.board.seating.seatOf? actor = some me) (hk : g.board.knowledgeOf me = .ok k)
    (options : List Action) :
    (partisan (.running g) actor options : Draws σ Action) =
      Draws.choose ((View.ofKnowledge k).best g options) := by
  simp only [partisan, hme, hk, Draws.lift_ok_bind]

/-- **The strategies that have a name pick.** -/
theorem Bot.picks {r : Rules} (hr : r.Valid) (bot : Bot) :
    (bot.strategy : Strategy σ).Picks r := by
  intro g actor options s hreach hsome hoptions
  have hg : g.Sound := hreach.sound hr
  cases bot with
  | random => exact Draws.choose_eq_ok hsome s
  | partisan =>
    obtain ⟨first, hfirst⟩ := List.exists_mem_of_ne_nil options hsome
    obtain ⟨hactor, hallows⟩ := hoptions first hfirst
    obtain ⟨me, hme⟩ := hallows.exists_seat
    rw [hactor] at hme
    have hcovered : me ∈ g.board.roles.seats :=
      hg.board.covered ▸ Seating.mem_seats_of_seatOf? hme
    obtain ⟨knowledge, hknown⟩ := RoleMap.knowledge_succeeds hg.board.hitler hcovered
      g.board.config.hitlerKnowsFascists
    obtain ⟨a, ha, t, hchoice⟩ :=
      Draws.choose_eq_ok ((View.ofKnowledge knowledge).best_ne_nil g hsome) s
    refine ⟨a, (List.mem_filter.mp ha).1, t, ?_⟩
    rw [strategy, Strategy.partisan_eq_choose hme hknown]
    exact hchoice

/-! ## What is left of a match -/

/-- The actions of a whole game at a table of `n` players, the start not
counted. -/
def Configuration.wholeGame (c : Configuration) (n : ℕ) : ℕ :=
  (c.liberalGoal.toNat - 1 + (c.fascistGoal.toNat - 1) + 1) * c.actionsPerPolicy n

/-- A table that is spared has players. -/
theorem Configuration.Spares.names_ne_nil {c : Configuration} {names : List String}
    (h : c.Spares names.length) : names ≠ [] := by
  have halive := h.alive
  rintro rfl
  rw [List.length_nil] at halive
  omega

/-- Nobody joins a game under way. -/
theorem Running.Started.living_le {r : Rules} {n : ℕ} {g : Running} (hr : r.Valid)
    (h : g.Started r n) : g.board.living ≤ n :=
  h.induction hr (P := fun g => g.board.living ≤ n)
    (fun _ _ _ hfresh => Nat.le_of_eq hfresh.living) fun _ _ _ _ hn hmove =>
      hmove.table.imp fun _ htable => Nat.le_trans htable.2 hn

namespace Match

variable {r : Rules} {names : List String} {lineup : Lineup σ} {c : Configuration}
variable {step left : ℕ} {s s' : Standing} {rng rng' : σ}

/-- **The actions that a match is yet to take**, at most. -/
def Standing.actionsLeft (c : Configuration) (n : ℕ) (s : Standing) : ℕ :=
  match s.game with
  | .lobby _ => s.opening.length + c.wholeGame n
  | .running g => g.budget n
  | .completed _ => 0

/-- **Every step succeeds** where the names can be seated, the table is spared
and the strategies pick. -/
theorem advance_succeeds (hr : r.Valid) (hnames : names.Nodup)
    (hc : r.configurationFor names.length = some c) (hspares : c.Spares names.length)
    (hpicks : ∀ party, (lineup.forParty party).Picks r) (hs : s.Ready r names)
    (hopen : ∀ v, s.game ≠ .completed v) (step : ℕ) (rng : σ) :
    ∃ s' rng', advance lineup step s rng = (.ok s', rng') := by
  obtain ⟨g, -, hg, hstuck⟩ | hadvance := hs.progress hr hnames hc hpicks hopen step rng
  · exact absurd hstuck (hg.not_stuck hr hc hspares)
  · exact hadvance

/-- **What a step takes**: one action less is to come, and the policies stay as they were
noted. -/
theorem spends_of_advance (hr : r.Valid) (hc : r.configurationFor names.length = some c)
    (hs : s.OnCourse r names) (h : advance lineup step s rng = (.ok s', rng')) :
    s'.track = s.track ∧ s'.actionsLeft c names.length < s.actionsLeft c names.length := by
  obtain ⟨a, opening, u, result, hnext, happly, rfl⟩ := exists_of_advance h
  refine ⟨rfl, ?_⟩
  cases hs with
  | @gathering l waiting first events track hlobby hplayers =>
    have hplay := ((hlobby.sound hr).apply_eq_ok_iff hr).mp happly
    cases waiting with
    | nil =>
      rw [nextAction_of_opening rfl] at hnext
      cases hnext
      -- the start deals a game that is as long as a whole one
      obtain ⟨c', g, hc', hgame, hg, hfresh⟩ :=
        Lobby.Sound.fresh_of_start (hlobby.sound hr) hr hplay
      rw [List.append_nil] at hplayers
      rw [hplayers] at hc' hfresh
      obtain rfl : c = c' := Option.some.inj (hc.symm.trans hc')
      simp only [Standing.actionsLeft, hgame, hfresh.budget_eq hg, Configuration.wholeGame,
        List.map_nil, List.nil_append, List.length_singleton]
      omega
    | cons name waiting =>
      rw [nextAction_of_opening rfl] at hnext
      cases hnext
      obtain ⟨-, rfl⟩ := Lobby.join_eq_ok.mp (Prod.mk.inj hplay).1
      exact Nat.add_lt_add_right (Nat.lt_succ_self _) _
  | @playing g events track hg =>
    have hmove := Running.moves_of_play (((hg.reachable.sound hr).apply_eq_ok_iff hr).mp happly)
    obtain ⟨g', hgame, -, hless⟩ | ⟨v, hgame⟩ :=
      (hmove.spends (hg.sound hr) (hg.living_le hr)).cases
    · simp only [Standing.actionsLeft, hgame]
      exact hless
    · simp only [Standing.actionsLeft, hgame]
      exact g.budget_pos _
  | ended => cases happly

/-! ## The course of a match -/

/-- **The games that end with an outcome**: one accepted action leads from each to
the next, the last is the only one that is over, and the one before it was
played on the policies that the outcome reports. -/
structure EndsWith (σ : Type) [RandomSource σ] (outcome : Outcome) (games : List Game) : Prop where
  leads : games.IsChain (Leads σ)
  ends : ∃ before g, games = before ++ [.running g, .completed outcome.victory] ∧
    (∀ g' ∈ before, ∀ v, g' ≠ .completed v) ∧ outcome.track = g.board.track

/-- The last action of a match. -/
theorem EndsWith.last {outcome : Outcome} {g : Running}
    (hleads : Leads σ (.running g) (.completed outcome.victory))
    (htrack : outcome.track = g.board.track) :
    EndsWith σ outcome [.running g, .completed outcome.victory] :=
  ⟨List.isChain_cons_cons.mpr ⟨hleads, .singleton _⟩, [], g, rfl,
    fun _ hmem => absurd hmem List.not_mem_nil, htrack⟩

theorem EndsWith.cons {outcome : Outcome} {g g' : Game} {games : List Game}
    (h : EndsWith σ outcome (g' :: games)) (hleads : Leads σ g g')
    (hopen : ∀ v, g ≠ .completed v) : EndsWith σ outcome (g :: g' :: games) := by
  obtain ⟨hchain, before, last, hgames, hbefore, htrack⟩ := h
  refine ⟨List.isChain_cons_cons.mpr ⟨hleads, hchain⟩, g :: before, last, ?_, ?_, htrack⟩
  · rw [hgames]
    rfl
  · intro g'' hmem
    rcases List.mem_cons.mp hmem with rfl | hmem
    · exact hopen
    · exact hbefore g'' hmem

/-- A state that is not over leads to the end only from a game under way. -/
theorem exists_running_of_leads {v : Victory} (h : Leads σ s.game (.completed v))
    (hs : s.Ready r names) (hr : r.Valid) : ∃ g, s.game = .running g := by
  obtain ⟨a, u, t, result, happly, hgame⟩ := h
  cases hs.onCourse with
  | gathering hlobby _ =>
    have hplay := ((hlobby.sound hr).apply_eq_ok_iff hr).mp happly
    obtain ⟨l, hl, -⟩ | ⟨c, g, -, hg, -⟩ := Lobby.Sound.play_cases (hlobby.sound hr) hr hplay
    · rw [hgame] at hl
      cases hl
    · rw [hgame] at hg
      cases hg
  | playing _ => exact ⟨_, rfl⟩
  | ended => cases happly

/-- **A match goes on to its end** if it has more actions left than it is to take. -/
theorem Goes.endsWith {games : List Game} {result : Except MatchError Outcome} (hr : r.Valid)
    (hnames : names.Nodup) (hc : r.configurationFor names.length = some c)
    (hspares : c.Spares names.length) (hpicks : ∀ party, (lineup.forParty party).Picks r)
    (h : Goes lineup left step s rng games result) (hs : s.Ready r names)
    (hopen : ∀ v, s.game ≠ .completed v) (hleft : s.actionsLeft c names.length < left) :
    ∃ outcome, result = .ok outcome ∧ EndsWith σ outcome (s.game :: games) ∧
      outcome.actions = step + games.length := by
  induction h with
  | spent => exact absurd hleft (Nat.not_lt_zero _)
  | ended hended => exact absurd hended (hopen _)
  | @fails left step s rng rng' e _ hadvance =>
    obtain ⟨s', _, hadvance'⟩ := advance_succeeds hr hnames hc hspares hpicks hs.noted
      (s.noted_game.symm ▸ hopen) step rng
    rw [hadvance] at hadvance'
    cases hadvance'
  | @advances left step s s' rng rng' games result _ hadvance hrest ih =>
    have hnoted : s.noted.game = s.game := s.noted_game
    have hnotedLeft : s.noted.actionsLeft c names.length = s.actionsLeft c names.length := by
      rw [Standing.actionsLeft, Standing.actionsLeft, hnoted, s.noted_opening]
    have hready := hs.noted.advance hr hadvance
    have hleads := leads_of_advance hadvance
    obtain ⟨htrack, hless⟩ := spends_of_advance hr hc hs.noted.onCourse hadvance
    rw [hnoted] at hleads
    rw [hnotedLeft] at hless
    by_cases hended : ∃ v, s'.game = .completed v
    · obtain ⟨v, hended⟩ := hended
      rw [hended] at hleads ⊢
      obtain ⟨g, hg⟩ := exists_running_of_leads hleads hs hr
      have hpolicies : s'.track = g.board.track := by
        rw [htrack, Standing.noted, hg]
      rw [hg] at hleads ⊢
      -- the outcome is reported where the next action would be taken
      cases hrest with
      | spent => omega
      | ended hv =>
        obtain rfl := Game.completed.inj (hended.symm.trans hv)
        exact ⟨_, rfl, .last hleads hpolicies, rfl⟩
      | fails hopen' _ => exact absurd hended (hopen' v)
      | advances hopen' _ _ => exact absurd hended (hopen' v)
    · obtain ⟨outcome, rfl, hends, hactions⟩ := ih hready (not_exists.mp hended) (by omega)
      refine ⟨outcome, rfl, hends.cons hleads hopen, ?_⟩
      rw [hactions, List.length_cons]
      omega

end Match

/-- **A match has an outcome**, whatever the luck: under a valid rule set that
seats the names and spares the table, if no game of that table is longer than a
match may be. -/
theorem Rules.Valid.exists_outcome {r : Rules} (hr : r.Valid) {names : List String}
    {lineup : Lineup σ} {c : Configuration} (hnames : names.Nodup)
    (hc : r.configurationFor names.length = some c) (hspares : c.Spares names.length)
    (hfits : names.length + 1 + c.wholeGame names.length < maxSteps)
    (hpicks : ∀ party, (lineup.forParty party).Picks r) (rng : σ) :
    ∃ outcome games, Match.EndsWith σ outcome (.new r :: games) ∧
      games.length = outcome.actions ∧
      ∀ (β : Type) (observe : β → ℕ → Game → β) (seen : β),
        Match.play r names lineup observe seen rng =
          (.ok outcome, (games.zipIdx 1).foldl (fun seen e => observe seen e.2 e.1) seen) := by
  have hmany : names ≠ [] := hspares.names_ne_nil
  have hopen : ∀ v, (Match.Standing.first r names).game ≠ .completed v := by
    intro v hended
    cases hended
  have hleft : (Match.Standing.first r names).actionsLeft c names.length < maxSteps := by
    obtain ⟨first, rest, rfl⟩ := List.exists_cons_of_ne_nil hmany
    simpa [Match.Standing.actionsLeft, Match.Standing.first, Game.new, Match.opening] using hfits
  obtain ⟨result, games, hgoes, hplays⟩ :=
    Match.exists_goes lineup maxSteps 0 (.first r names) rng
  obtain ⟨outcome, rfl, hends, hactions⟩ :=
    hgoes.endsWith hr hnames hc hspares hpicks (.first r hmany) hopen hleft
  exact ⟨outcome, games, hends, by omega, hplays⟩

/-- No game of the standard rules is longer than a match may be. -/
theorem Rules.standard_fits {n : ℕ} {c : Configuration}
    (h : Rules.standard.configurationFor n = some c) : n + 1 + c.wholeGame n < maxSteps := by
  have hall : ∀ n ∈ Rules.standard.tableSizes, ∀ c ∈ Rules.standard.configurationFor n,
      n + 1 + c.wholeGame n < maxSteps := by decide +kernel
  obtain ⟨hmin, hmax, _⟩ := Rules.configurationFor_eq_some h
  refine hall n ?_ c h
  simp only [Rules.tableSizes, List.mem_range'_1]
  omega

/-- **Every match of the standard rules ends.** Five to ten distinct names played
by strategies that pick, as those that have a name do, come to an outcome on any
luck. The observed states are numbered from one up to its actions; each comes of
an accepted action on the one before; only the last one is over, by the victory
of the outcome, whose policies are those of the game under way before it. -/
theorem Match.exists_outcome_standard {σ : Type} [RandomSource σ] :
    (∀ bot : Bot, (bot.strategy : Strategy σ).Picks .standard) ∧
    ∀ (names : List String) (lineup : Lineup σ) (rng : σ),
      names.Nodup → 5 ≤ names.length → names.length ≤ 10 →
      (∀ party, (lineup.forParty party).Picks .standard) →
      ∃ outcome games, EndsWith σ outcome (.new .standard :: games) ∧
        games.length = outcome.actions ∧
        ∀ (β : Type) (observe : β → ℕ → Game → β) (seen : β),
          play .standard names lineup observe seen rng =
            (.ok outcome, (games.zipIdx 1).foldl (fun seen e => observe seen e.2 e.1) seen) := by
  have hr : Rules.standard.Valid := by decide
  refine ⟨fun bot => bot.picks hr, fun names lineup rng hnames hmin hmax hpicks => ?_⟩
  have hsome : ∀ n ∈ Rules.standard.tableSizes, (Rules.standard.configurationFor n).isSome := by
    decide
  obtain ⟨c, hc⟩ := Option.isSome_iff_exists.mp (hsome names.length (by
    rw [show Rules.standard.tableSizes = List.range' 5 6 from rfl, List.mem_range'_1]
    omega))
  exact hr.exists_outcome hnames hc (Rules.standard_spares hc) (Rules.standard_fits hc) hpicks rng

/-- Five players of both bots, on the luck of an empty script. -/
theorem Match.exists_outcome_five :
    Lobby.ofFive.players.Nodup ∧
      ∃ outcome games, EndsWith Script outcome (.new .standard :: games) ∧
        play .standard Lobby.ofFive.players ⟨Bot.random.strategy, Bot.partisan.strategy⟩
          (fun seen _ _ => seen + 1) 0 (Script.ofWords []) = (.ok outcome, games.length) := by
  obtain ⟨hbots, houtcome⟩ := Match.exists_outcome_standard (σ := Script)
  have hpicks : ∀ party, (Lineup.forParty ⟨Bot.random.strategy, Bot.partisan.strategy⟩ party :
      Strategy Script).Picks .standard := by
    intro party
    cases party with
    | liberal => exact hbots .random
    | fascist => exact hbots .partisan
  obtain ⟨outcome, games, hends, _, hplays⟩ := houtcome Lobby.ofFive.players
    ⟨Bot.random.strategy, Bot.partisan.strategy⟩ (Script.ofWords []) (by decide) (by decide)
    (by decide) hpicks
  have hcount (l : List (Game × ℕ)) (n : ℕ) : l.foldl (fun seen _ => seen + 1) n = n + l.length := by
    induction l generalizing n with
    | nil => rfl
    | cons e rest ih => rw [List.foldl_cons, ih, List.length_cons]; omega
  refine ⟨by decide, outcome, games, hends, ?_⟩
  rw [hplays, hcount, List.length_zipIdx, Nat.zero_add]

end SecretHitler
