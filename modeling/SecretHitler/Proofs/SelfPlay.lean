import SecretHitler.Proofs.Schedule
import SecretHitler.SelfPlay.Match
/-!
# Matches that get stuck

A match names its players, starts and plays on (`Match.Goes`). Where its strategies
never refuse, it reports to be stuck exactly if the game that it has come to is
(`Match.Goes.stuck_iff`): the lobby is never stuck as long as there are names, and a game
under way has a player with a decision unless nothing is allowed. Where they pick what is
allowed, and the names can be seated, nothing else stops it short of its limit before it is
over (`Match.Goes.progress`).
-/

namespace SecretHitler

variable {σ β : Type} [RandomSource σ]

omit [RandomSource σ] in
/-- What both strategies of a lineup do, that of either party does. -/
theorem Lineup.forParty_of {P : Strategy σ → Prop} {lineup : Lineup σ} (hliberal : P lineup.liberal)
    (hfascist : P lineup.fascist) (party : Party) : P (lineup.forParty party) := by
  cases party with
  | liberal => exact hliberal
  | fascist => exact hfascist

/-- A strategy that decides: it may break, or pick what nobody may do, but it never refuses. -/
def Strategy.Decides (f : Strategy σ) : Prop :=
  ∀ game actor options s cause, (f game actor options s).1 ≠ .error (.rejected cause)

/-- **A strategy that picks**: asked for one of the actions that a player may
take, it returns one of them. -/
def Strategy.Picks (r : Rules) (f : Strategy σ) : Prop :=
  ∀ (g : Running) actor options s, Game.Reachable r (.running g) → options ≠ [] →
    (∀ a ∈ options, a.actor = actor ∧ g.Allows a) →
      ∃ a ∈ options, ∃ t, f (.running g) actor options s = (.ok a, t)

/-- A choice among nothing breaks; it does not refuse. -/
theorem Draws.choose_ne_rejected {α : Type} (l : List α) (s : σ) (cause : Rejection) :
    (choose l s).1 ≠ .error (.rejected cause) := by
  rw [choose]
  split
  · exact nofun
  · rw [bind_apply, draw_apply]
    dsimp only
    rw [of_apply]
    cases l[(RandomSource.below l.length s).1]? with
    | none => exact nofun
    | some a => exact nofun

theorem RoleMap.knowledge_ne_rejected {m : RoleMap} {seat : Seat} {hitlerKnows : Bool}
    {cause : Rejection} : m.knowledge seat hitlerKnows ≠ .error (.rejected cause) := by
  intro h
  rw [knowledge, roleOf] at h
  cases hrole : m.roles.find? seat with
  | none =>
    rw [hrole] at h
    cases h
  | some role =>
    rw [hrole] at h
    cases role with
    | liberal | hitler => cases h
    | plainFascist =>
      simp only [Attempt.orFail, Attempt.ok_bind, RoleMap.hitler] at h
      cases hseat : (m.roles.entries.find? fun e => e.2 == .hitler).map (·.1) with
      | none =>
        rw [hseat] at h
        cases h
      | some hitler =>
        rw [hseat] at h
        cases h

/-- The strategies that have a name decide. -/
theorem Bot.decides (bot : Bot) : (bot.strategy : Strategy σ).Decides := by
  intro game actor options s cause
  cases bot with
  | random => exact Draws.choose_ne_rejected options s cause
  | partisan =>
    cases game with
    | running g =>
      simp only [strategy, Strategy.partisan]
      cases g.board.seating.seatOf? actor with
      | none => exact Draws.choose_ne_rejected options s cause
      | some me =>
        dsimp only
        rw [Draws.bind_apply, Draws.lift_apply]
        rcases hknown : g.board.knowledgeOf me with halt | knowledge
        · rintro ⟨⟩
          exact RoleMap.knowledge_ne_rejected hknown
        · exact Draws.choose_ne_rejected _ s cause
    | lobby l | completed v => exact Draws.choose_ne_rejected options s cause

/-- An allowed action is the action of a player. -/
theorem Running.Allows.exists_seat {g : Running} {a : Action} (h : g.Allows a) :
    ∃ s, g.board.seating.seatOf? a.actor = some s := by
  obtain ⟨b, phase⟩ := g
  cases phase with
  | nomination candidate =>
    cases a with
    | nominate actor nominee => exact ⟨_, h.1⟩
    | _ => exact absurd h id
  | voting government votes =>
    cases a with
    | vote voter ballot => exact ⟨_, h.choose_spec.1⟩
    | _ => exact absurd h id
  | presidentChoice government hand =>
    cases a with
    | discard actor index => exact ⟨_, h.1⟩
    | _ => exact absurd h id
  | chancellorChoice government agenda veto =>
    cases a with
    | enact actor index => exact ⟨_, h.1⟩
    | requestVeto actor => exact ⟨_, h.1⟩
    | answerVeto actor approved => exact ⟨_, h.1⟩
    | _ => exact absurd h id
  | powerPending pending president =>
    cases a with
    | usePower power actor name => exact ⟨_, h.2.1⟩
    | _ => exact absurd h id

namespace Match

variable {r : Rules} {names : List String} {lineup : Lineup σ}

/-- **A match on its way**: names are still joining, the game is on, or over. -/
inductive Standing.OnCourse (r : Rules) (names : List String) : Standing → Prop
  | gathering {l : Lobby} {rest : List String} {first : String} {events : ℕ} {track : Track} :
      Game.Reachable r (.lobby l) → l.players ++ rest = names →
      OnCourse r names ⟨.lobby l, rest.map .join ++ [.start first], events, track⟩
  | playing {g : Running} {events : ℕ} {track : Track} : g.Started r names.length →
      OnCourse r names ⟨.running g, [], events, track⟩
  | ended {v : Victory} {events : ℕ} {track : Track} :
      OnCourse r names ⟨.completed v, [], events, track⟩

/-- A match with names is on its way from the first. -/
theorem Standing.onCourse_first (r : Rules) (h : names ≠ []) :
    (Standing.first r names).OnCourse r names := by
  cases names with
  | nil => exact absurd rfl h
  | cons first rest => exact .gathering .new rfl

theorem Standing.noted_game (s : Standing) : s.noted.game = s.game := by
  rw [noted]
  split
  · rfl
  · rfl

theorem Standing.OnCourse.noted {s : Standing} (h : s.OnCourse r names) :
    s.noted.OnCourse r names := by
  cases h with
  | gathering hlobby hnames => exact .gathering hlobby hnames
  | playing hg => exact .playing hg
  | ended => exact .ended

omit [RandomSource σ] in
/-- **A player with a decision picks** among all the actions open to it, unless the
game is stuck. -/
theorem pick_cases {g : Running} (hg : g.Sound) (lineup : Lineup σ) :
    g.Stuck ∨ ∃ party actor options, options ≠ [] ∧
      (∀ a, a ∈ options ↔ a.actor = actor ∧ g.Allows a) ∧
      pick lineup (.running g) =
        lineup.forParty party (.running g) actor options >>= fun a => pure (some a) := by
  obtain ⟨acts, hacts, hlists⟩ := hg.exists_lists
  cases acts with
  | nil => exact .inl (hg.legalActions_eq_nil_iff.mp hacts)
  | cons first rest =>
    have hallows : g.Allows first := (hlists.2 first).mp (.head _)
    obtain ⟨seat, hseat⟩ := hallows.exists_seat
    obtain ⟨party, hparty⟩ := RoleMap.partyOf_succeeds
      (hg.board.covered ▸ Seating.mem_seats_of_seatOf? hseat)
    refine .inr ⟨party, first.actor, (first :: rest).filter fun a => a.actor = first.actor,
      ?_, fun a => ?_, ?_⟩
    · rw [List.filter_cons_of_pos (by simp)]
      exact List.cons_ne_nil _ _
    · rw [List.mem_filter, hlists.2 a, decide_eq_true_iff, and_comm]
    · simp only [pick, hacts, Draws.lift_ok_bind, hseat, hparty]

variable {c : Configuration} {step left k : ℕ} {s s' : Standing} {rng rng' : σ}

/-- **What a step does**: it takes the next action, which is accepted. -/
theorem exists_of_advance (h : advance lineup step s rng = (.ok s', rng')) :
    ∃ a opening u result, nextAction lineup s rng = (.ok (some (a, opening)), u) ∧
      s.game.apply a u = (.ok result, rng') ∧
      s' = ⟨result.game, opening, s.events + result.events.length, s.track⟩ := by
  rw [advance] at h
  split at h
  · cases h
  · cases h
  · cases h
  rename_i a opening u hnext
  split at h
  · cases h
  rename_i result v happly
  split at h
  · cases h
  · cases h
  · cases h
    exact ⟨a, opening, u, result, hnext, happly, rfl⟩

/-- Nothing is picked, or the strategy refuses. -/
def Wants (lineup : Lineup σ) (s : Standing) (rng : σ) : Prop :=
  (nextAction lineup s rng).1 = .ok none ∨
    ∃ cause, (nextAction lineup s rng).1 = .error (.rejected cause)

/-- **What a step fails for**: for want of an action, or for one that breaks, is
rejected or leads to an incoherent state. -/
theorem error_of_advance {e : MatchError} (h : advance lineup step s rng = (.error e, rng')) :
    e = .stuck step ∧ Wants lineup s rng ∨ (∃ cause, e = .fault cause) ∨
      (∃ a cause, e = .rejected step a cause) ∨ ∃ violation, e = .incoherent step violation := by
  rw [advance] at h
  split at h
  · cases h
    exact .inr (.inl ⟨_, rfl⟩)
  · rename_i cause _ hnext
    cases h
    exact .inl ⟨rfl, .inr ⟨cause, by rw [hnext]⟩⟩
  · rename_i hnext
    cases h
    exact .inl ⟨rfl, .inl (by rw [hnext])⟩
  split at h
  · rename_i halt _ _
    cases h
    cases halt with
    | rejected cause => exact .inr (.inr (.inl ⟨_, _, rfl⟩))
    | fault cause => exact .inr (.inl ⟨_, rfl⟩)
  split at h
  · rename_i halt _
    cases h
    cases halt with
    | rejected cause => exact .inr (.inr (.inl ⟨_, _, rfl⟩))
    | fault cause => exact .inr (.inl ⟨_, rfl⟩)
  · cases h
    exact .inr (.inr (.inr ⟨_, rfl⟩))
  · cases h

/-- A match is stuck for want of an action, and says after how many. -/
theorem advance_eq_stuck_iff :
    (advance lineup step s rng).1 = .error (.stuck k) ↔ k = step ∧ Wants lineup s rng := by
  constructor
  · intro h
    obtain ⟨hstuck, hwant⟩ | ⟨_, hother⟩ | ⟨_, _, hother⟩ | ⟨_, hother⟩ :=
      error_of_advance (Prod.ext h rfl)
    · exact ⟨MatchError.stuck.inj hstuck, hwant⟩
    · cases hother
    · cases hother
    · cases hother
  · rintro ⟨rfl, hwant⟩
    rw [advance]
    rcases hnext : nextAction lineup s rng with ⟨next, u⟩
    rw [Wants, hnext] at hwant
    obtain rfl | ⟨cause, rfl⟩ := hwant
    · rfl
    · rfl

omit [RandomSource σ] in
theorem nextAction_of_opening {a : Action} {rest : List Action} (h : s.opening = a :: rest) :
    nextAction lineup s rng = (.ok (some (a, rest)), rng) := by
  rw [nextAction, h]
  rfl

omit [RandomSource σ] in
/-- The next action comes off the opening as long as there is one. -/
theorem opening_subset_of_nextAction {a : Action} {opening : List Action} {u : σ}
    (h : nextAction lineup s rng = (.ok (some (a, opening)), u)) : opening ⊆ s.opening := by
  cases hopening : s.opening with
  | nil =>
    rw [nextAction, hopening] at h
    obtain ⟨picked, _, _, hret⟩ := Draws.bind_eq_ok.mp h
    cases picked with
    | none => cases hret
    | some b =>
      cases hret
      exact List.Subset.refl _
  | cons b rest =>
    rw [nextAction, hopening] at h
    cases h
    exact List.subset_cons_self _ _

/-- A step on the way stays on it. -/
theorem onCourse_of_advance (hr : r.Valid) (hs : s.OnCourse r names)
    (h : advance lineup step s rng = (.ok s', rng')) : s'.OnCourse r names := by
  obtain ⟨a, opening, u, result, hnext, happly, rfl⟩ := exists_of_advance h
  cases hs with
  | @gathering l rest first events track hlobby hnames =>
    have hl : Game.Sound r (.lobby l) := hlobby.sound hr
    have hplay := (hl.apply_eq_ok_iff hr).mp happly
    -- the start comes once everybody has joined
    cases rest with
    | nil =>
      rw [nextAction_of_opening rfl] at hnext
      cases hnext
      obtain ⟨c, g, _, hgame, _⟩ := Lobby.Sound.fresh_of_start hl hr hplay
      have hstarted : g.Started r l.players.length := .start hlobby rfl happly hgame
      rw [List.append_nil] at hnames
      rw [hgame]
      exact .playing (hnames ▸ hstarted)
    | cons name rest =>
      rw [nextAction_of_opening rfl] at hnext
      cases hnext
      obtain ⟨_, rfl⟩ := Lobby.join_eq_ok.mp (Prod.mk.inj hplay).1
      exact .gathering (hlobby.apply happly) (by rw [← hnames, List.append_assoc]; rfl)
  | @playing g events track hg =>
    obtain rfl : opening = [] := List.subset_nil.mp (opening_subset_of_nextAction hnext)
    have hsound : Game.Sound r (.running g) := hg.sound hr
    have hmove := Running.moves_of_play ((hsound.apply_eq_ok_iff hr).mp happly)
    obtain ⟨g', hg', _⟩ | ⟨v, hv⟩ := hmove.table.cases
    · rw [hg']
      exact .playing (hg.move happly hg')
    · rw [hv]
      exact .ended
  | ended => cases happly

/-- **A match on its way is stuck exactly if the game that it stands at is.** -/
theorem Standing.OnCourse.stuck_iff (hr : r.Valid)
    (hdecides : ∀ party, (lineup.forParty party).Decides) (hs : s.OnCourse r names)
    (hopen : ∀ v, s.game ≠ .completed v) :
    (advance lineup step s rng).1 = .error (.stuck k) ↔
      k = step ∧ ∃ g, s.game = .running g ∧ Running.Started r names.length g ∧ g.Stuck := by
  rw [advance_eq_stuck_iff, and_congr_right_iff]
  rintro rfl
  cases hs with
  | @gathering l rest first events track hlobby hnames =>
    refine iff_of_false ?_ fun ⟨_, hgame, _⟩ => nomatch hgame
    rw [Wants]
    obtain ⟨a, opening, hopening⟩ := List.exists_cons_of_ne_nil
      (List.append_ne_nil_of_right_ne_nil (rest.map Action.join)
        (List.cons_ne_nil (Action.start first) []))
    rw [nextAction_of_opening hopening]
    simp
  | @playing g events track hg =>
    have hsound : g.Sound := hg.sound hr
    constructor
    · intro hwant
      refine ⟨g, rfl, hg, ?_⟩
      obtain hstuck | ⟨party, actor, options, -, -, hpick⟩ := pick_cases hsound lineup
      · exact hstuck
      · -- the strategy has picked
        have hpicks := hdecides party (.running g) actor options rng
        simp only [Wants, nextAction, hpick, Draws.bind_apply] at hwant
        rcases hchoice : lineup.forParty party (.running g) actor options rng with ⟨halt | a, u⟩
        · rw [hchoice] at hwant hpicks
          cases halt with
          | fault cause => simp at hwant
          | rejected cause => exact absurd rfl (hpicks cause)
        · rw [hchoice] at hwant
          simp at hwant
    · rintro ⟨_, ⟨⟩, -, hstuck⟩
      refine .inl ?_
      simp only [nextAction, pick, hsound.legalActions_eq_nil_iff.mpr hstuck, Draws.lift_ok_bind]
      rfl
  | ended => exact absurd rfl (hopen _)

/-! ## Matches that can go on -/

/-- **A match that can go on**: it is on its way, and what is left of its opening
is its own. -/
structure Standing.Ready (r : Rules) (names : List String) (s : Standing) : Prop where
  onCourse : s.OnCourse r names
  opening : s.opening ⊆ Match.opening names

theorem Standing.noted_opening (s : Standing) : s.noted.opening = s.opening := by
  rw [noted]
  split
  · rfl
  · rfl

theorem Standing.Ready.noted (h : s.Ready r names) : s.noted.Ready r names :=
  ⟨h.onCourse.noted, s.noted_opening ▸ h.opening⟩

theorem Standing.Ready.first (r : Rules) (h : names ≠ []) :
    (Standing.first r names).Ready r names :=
  ⟨Standing.onCourse_first r h, List.Subset.refl _⟩

/-- A step leaves a match ready. -/
theorem Standing.Ready.advance (hr : r.Valid) (hs : s.Ready r names)
    (h : advance lineup step s rng = (.ok s', rng')) : s'.Ready r names := by
  refine ⟨onCourse_of_advance hr hs.onCourse h, ?_⟩
  obtain ⟨a, opening, u, result, hnext, -, rfl⟩ := exists_of_advance h
  exact List.Subset.trans (opening_subset_of_nextAction hnext) hs.opening

/-- The opening is allowed, one action after the other. -/
theorem allows_of_opening {l : Lobby} {a : Action} {rest : List Action} (hr : r.Valid)
    (hnames : names.Nodup) (hc : r.configurationFor names.length = some c)
    (hs : s.Ready r names) (hgame : s.game = .lobby l) (hopening : s.opening = a :: rest) :
    l.Allows a := by
  obtain ⟨hcourse, hsub⟩ := hs
  cases hcourse with
  | @gathering _ waiting first events track hlobby hplayers =>
    obtain rfl := Game.lobby.inj hgame
    have hl : Lobby.Sound r _ := hlobby.sound hr
    cases waiting with
    | nil =>
      obtain ⟨rfl, rfl⟩ := List.cons.inj hopening
      rw [List.append_nil] at hplayers
      have hfirst : Action.start first ∈ Match.opening names := hsub (.head _)
      have hhead : first ∈ names := by
        rw [Match.opening, List.mem_append] at hfirst
        rcases hfirst with hjoin | hstart
        · simp at hjoin
        · simp only [Option.mem_toList, Option.map_eq_some_iff] at hstart
          obtain ⟨_, hfirst, heq⟩ := hstart
          exact Action.start.inj heq ▸ List.mem_of_head? hfirst
      exact ⟨hplayers ▸ hhead, by rw [hl.rules, hplayers, hc]; rfl⟩
    | cons name waiting =>
      obtain ⟨rfl, -⟩ := List.cons.inj hopening
      have hmax := (Rules.configurationFor_eq_some hc).2.1
      rw [← hplayers] at hnames hmax
      refine ⟨fun hmem => ?_, ?_⟩
      · exact (List.disjoint_of_nodup_append hnames) hmem (.head _)
      · rw [List.length_append, List.length_cons] at hmax
        rw [Lobby.isFull, hl.rules, decide_eq_false_iff_not]
        omega
  | playing _ => cases hgame
  | ended => cases hgame

/-- A step whose action is allowed succeeds. -/
theorem advance_of_allows {a : Action} {opening : List Action} {u : σ} (hr : r.Valid)
    (hs : s.game.Sound r) (hnext : nextAction lineup s rng = (.ok (some (a, opening)), u))
    (hallows : s.game.Allows a) : ∃ s' rng', advance lineup step s rng = (.ok s', rng') := by
  obtain ⟨result, t, happly⟩ := hs.apply_succeeds hr hallows u
  have hsound := hs.play hr ((hs.apply_eq_ok_iff hr).mp happly)
  exact ⟨⟨result.game, opening, s.events + result.events.length, s.track⟩, t, by
    simp only [advance, hnext, happly, hsound.violation_eq]⟩

/-- **A match goes on** where the names can be seated and the strategies pick, unless the game
that it stands at is stuck. -/
theorem Standing.Ready.progress (hr : r.Valid) (hnames : names.Nodup)
    (hc : r.configurationFor names.length = some c)
    (hpicks : ∀ party, (lineup.forParty party).Picks r) (hs : s.Ready r names)
    (hopen : ∀ v, s.game ≠ .completed v) (step : ℕ) (rng : σ) :
    (∃ g, s.game = .running g ∧ Running.Started r names.length g ∧ g.Stuck) ∨
      ∃ s' rng', Match.advance lineup step s rng = (.ok s', rng') := by
  cases hs.onCourse with
  | @gathering l waiting first events track hlobby hplayers =>
    obtain ⟨a, rest, hopening⟩ := List.exists_cons_of_ne_nil
      (List.append_ne_nil_of_right_ne_nil (waiting.map Action.join)
        (List.cons_ne_nil (Action.start first) []))
    have hallows : l.Allows a := allows_of_opening hr hnames hc hs rfl hopening
    exact .inr (advance_of_allows hr (hlobby.sound hr) (nextAction_of_opening hopening) hallows)
  | @playing g events track hg =>
    obtain hstuck | ⟨party, actor, options, hsome, hoptions, hpick⟩ :=
      pick_cases (hg.sound hr) lineup
    · exact .inl ⟨g, rfl, hg, hstuck⟩
    obtain ⟨a, ha, u, hchoice⟩ :=
      hpicks party g actor options rng hg.reachable hsome fun a => (hoptions a).mp
    have hnext : nextAction lineup ⟨.running g, [], events, track⟩ rng =
        (.ok (some (a, [])), u) := by
      simp only [nextAction, hpick, Draws.bind_apply, hchoice]
      rfl
    exact .inr (advance_of_allows hr (hg.reachable.sound hr) hnext ((hoptions a).mp ha).2)
  | ended => exact absurd rfl (hopen _)

/-! ## How a match goes -/

/-- One accepted action leads from a game to another. -/
def Leads (σ : Type) [RandomSource σ] (g g' : Game) : Prop :=
  ∃ (a : Action) (s t : σ) (step : Step), g.apply a s = (.ok step, t) ∧ step.game = g'

/-- A step leads from one game to the next. -/
theorem leads_of_advance (h : advance lineup step s rng = (.ok s', rng')) :
    Leads σ s.game s'.game := by
  obtain ⟨a, opening, u, result, -, happly, rfl⟩ := exists_of_advance h
  exact ⟨a, u, rng', result, happly, rfl⟩

/-- **How a match goes** with some actions left to take, `step` having been taken: the games
it comes to, and what it reports. -/
inductive Goes (lineup : Lineup σ) :
    (left step : ℕ) → Standing → σ → List Game → Except MatchError Outcome → Prop
  | spent {step : ℕ} {s : Standing} {rng : σ} :
      Goes lineup 0 step s rng [] (.error (.stepLimit step))
  | ended {left step : ℕ} {s : Standing} {rng : σ} {v : Victory} : s.game = .completed v →
      Goes lineup (left + 1) step s rng [] (.ok ⟨v, step, s.events, s.track⟩)
  | fails {left step : ℕ} {s : Standing} {rng rng' : σ} {e : MatchError} :
      (∀ v, s.game ≠ .completed v) → advance lineup step s.noted rng = (.error e, rng') →
      Goes lineup (left + 1) step s rng [] (.error e)
  | advances {left step : ℕ} {s s' : Standing} {rng rng' : σ} {games : List Game}
      {result : Except MatchError Outcome} :
      (∀ v, s.game ≠ .completed v) → advance lineup step s.noted rng = (.ok s', rng') →
      Goes lineup left (step + 1) s' rng' games result →
      Goes lineup (left + 1) step s rng (s'.game :: games) result

/-- A match in which a step succeeds goes on from there. -/
theorem playOn_of_advance {observe : β → ℕ → Game → β} {seen : β}
    (hopen : ∀ v, s.game ≠ .completed v)
    (h : advance lineup step s.noted rng = (.ok s', rng')) :
    playOn lineup observe (left + 1) step s seen rng =
      playOn lineup observe left (step + 1) s' (observe seen (step + 1) s'.game) rng' := by
  rw [playOn]
  split
  · rename_i v hended
    exact absurd hended (hopen v)
  · rw [h]

/-- **A match goes one way**, and an observer is handed the games on it, numbered by the
actions taken. -/
theorem exists_goes (lineup : Lineup σ) (left step : ℕ) (s : Standing) (rng : σ) :
    ∃ result games, Goes lineup left step s rng games result ∧
      ∀ (β : Type) (observe : β → ℕ → Game → β) (seen : β),
        playOn lineup observe left step s seen rng =
          (result, (games.zipIdx (step + 1)).foldl (fun seen e => observe seen e.2 e.1) seen) := by
  induction left generalizing step s rng with
  | zero => exact ⟨_, [], .spent, fun _ _ _ => rfl⟩
  | succ left ih =>
    by_cases hended : ∃ v, s.game = .completed v
    · obtain ⟨v, hended⟩ := hended
      refine ⟨_, [], .ended hended, fun β observe seen => ?_⟩
      simp only [playOn, hended]
      rfl
    have hopen : ∀ v, s.game ≠ .completed v := not_exists.mp hended
    rcases hadvance : advance lineup step s.noted rng with ⟨e | s', rng'⟩
    · refine ⟨.error e, [], .fails hopen hadvance, fun β observe seen => ?_⟩
      rw [playOn]
      split
      · rename_i v hended
        exact absurd hended (hopen v)
      · rw [hadvance]
        rfl
    · obtain ⟨result, games, hgoes, hplays⟩ := ih (step + 1) s' rng'
      refine ⟨result, s'.game :: games, .advances hopen hadvance hgoes, fun β observe seen => ?_⟩
      rw [playOn_of_advance hopen hadvance, hplays]
      rfl

/-- A match comes to no other game than the empty lobby before its first action. -/
theorem getLast?_first_iff {games : List Game} {g : Game} (h : g ≠ .new r) :
    ((Standing.first r names).game :: games).getLast? = some g ↔ games.getLast? = some g := by
  cases games with
  | nil => exact iff_of_false (fun hfirst => h (Option.some.inj hfirst).symm) nofun
  | cons first rest => rw [List.getLast?_cons_cons]

namespace Goes

variable {games : List Game} {result : Except MatchError Outcome}

/-- Each game comes of an accepted action on the one before. -/
theorem leads (h : Goes lineup left step s rng games result) :
    (s.game :: games).IsChain (Leads σ) := by
  induction h with
  | spent | ended _ | fails _ _ => exact .singleton _
  | @advances _ _ s _ _ _ _ _ _ hadvance _ ih =>
    have hleads := leads_of_advance hadvance
    rw [s.noted_game] at hleads
    exact List.isChain_cons_cons.mpr ⟨hleads, ih⟩

/-- No match takes more actions than it has left. -/
theorem length_le (h : Goes lineup left step s rng games result) : games.length ≤ left := by
  induction h with
  | spent | ended _ | fails _ _ => exact Nat.zero_le _
  | advances _ _ _ ih => exact Nat.succ_le_succ ih

/-- **A match reports to be stuck exactly if the last game is**, and an action is left. -/
theorem stuck_iff (hr : r.Valid) (hdecides : ∀ party, (lineup.forParty party).Decides)
    (hs : s.OnCourse r names) (h : Goes lineup left step s rng games result) :
    result = .error (.stuck k) ↔ k = step + games.length ∧ games.length < left ∧
      ∃ g, (s.game :: games).getLast? = some (.running g) ∧
        Running.Started r names.length g ∧ g.Stuck := by
  induction h with
  | spent => simp
  | ended hended => simp [hended]
  | @fails left step s rng rng' e hopen hadvance =>
    have hnoted : ∀ v, s.noted.game ≠ .completed v := s.noted_game.symm ▸ hopen
    have hstuck : (advance lineup step s.noted rng).1 = .error (.stuck k) ↔ _ :=
      hs.noted.stuck_iff hr hdecides hnoted
    rw [hadvance, s.noted_game, Except.error.injEq] at hstuck
    simp [hstuck]
  | @advances left step s s' rng rng' games result _ hadvance _ ih =>
    rw [ih (onCourse_of_advance hr hs.noted hadvance), List.getLast?_cons_cons, List.length_cons,
      Nat.add_lt_add_iff_right, Nat.add_right_comm, Nat.add_assoc]

/-- **Short of its limit a match stops only at its end**, or at a game that is stuck, if the
names can be seated and the strategies pick. -/
theorem progress (hr : r.Valid) (hnames : names.Nodup)
    (hc : r.configurationFor names.length = some c)
    (hpicks : ∀ party, (lineup.forParty party).Picks r) (hs : s.Ready r names)
    (h : Goes lineup left step s rng games result) (hshort : games.length < left) :
    (∃ v, (s.game :: games).getLast? = some (.completed v)) ∨
      ∃ g, (s.game :: games).getLast? = some (.running g) ∧
        Running.Started r names.length g ∧ g.Stuck := by
  induction h with
  | spent => exact absurd hshort (Nat.not_lt_zero _)
  | @ended left step s rng v hended => exact .inl ⟨v, by rw [hended]; rfl⟩
  | @fails left step s rng rng' e hopen hadvance =>
    have hprogress := hs.noted.progress hr hnames hc hpicks (s.noted_game.symm ▸ hopen) step rng
    rw [s.noted_game] at hprogress
    obtain ⟨g, hg, hstarted, hstuck⟩ | ⟨s', _, hadvance'⟩ := hprogress
    · exact .inr ⟨g, by rw [hg]; rfl, hstarted, hstuck⟩
    · rw [hadvance] at hadvance'
      cases hadvance'
  | @advances left step s s' rng rng' games result _ hadvance _ ih =>
    rw [List.getLast?_cons_cons]
    exact ih (hs.noted.advance hr hadvance) (Nat.lt_of_succ_lt_succ hshort)

end Goes

end Match

/-- **A game goes on unless it is stuck.** Under a valid rule set the legal
actions of a game under way can be listed, and none is left exactly in a stuck
game; and a table that the power schedule spares never gets there. A match with
names, whose strategies decide, hands the same games to every observer, each of which
comes of an accepted action on the one before; and it reports to be stuck after
some actions, fewer than it may take, exactly if these have led to a game of that
many players that is stuck. If moreover the names can be seated and the strategies
pick what is allowed, it stops short of its limit only there or at its end. -/
theorem Rules.Valid.goes_on {r : Rules} (hr : r.Valid) :
    (∀ g, Game.Reachable r (.running g) →
      ∃ acts, g.legalActions = .ok acts ∧ (acts = [] ↔ g.Stuck)) ∧
    (∀ n c, r.configurationFor n = some c → c.Spares n →
      ∀ g, Running.Started r n g → ¬ g.Stuck) ∧
    ∀ (σ : Type) [RandomSource σ] (names : List String) (lineup : Lineup σ) (rng : σ),
      names ≠ [] → (∀ party, (lineup.forParty party).Decides) →
      ∃ (result : Except MatchError Outcome) (games : List Game),
        (∀ (β : Type) (observe : β → ℕ → Game → β) (seen : β),
          Match.play r names lineup observe seen rng =
            (result, (games.zipIdx 1).foldl (fun seen e => observe seen e.2 e.1) seen)) ∧
        (Game.new r :: games).IsChain (Match.Leads σ) ∧
        (∀ step, result = .error (.stuck step) ↔
          step = games.length ∧ step < maxSteps ∧
            ∃ g, games.getLast? = some (.running g) ∧
              Running.Started r names.length g ∧ g.Stuck) ∧
        (names.Nodup → (r.configurationFor names.length).isSome →
          (∀ party, (lineup.forParty party).Picks r) → games.length < maxSteps →
            (∃ v, games.getLast? = some (.completed v)) ∨
              result = .error (.stuck games.length)) := by
  refine ⟨fun g hg => ?_, fun n c hc hspares g hg => ?_, ?_⟩
  · have hsound : g.Sound := hg.sound hr
    obtain ⟨acts, hacts, _⟩ := hsound.exists_lists
    refine ⟨acts, hacts, ?_⟩
    rw [← hsound.legalActions_eq_nil_iff, hacts, Except.ok.injEq]
  · exact hg.not_stuck hr hc hspares
  · intro σ _ names lineup rng hnames hdecides
    obtain ⟨result, games, hgoes, hplays⟩ :=
      Match.exists_goes lineup maxSteps 0 (.first r names) rng
    have hlast {g : Running} : ((Match.Standing.first r names).game :: games).getLast? =
        some (.running g) ↔ games.getLast? = some (.running g) := Match.getLast?_first_iff nofun
    have hstuck (step : ℕ) : result = .error (.stuck step) ↔ step = games.length ∧
        games.length < maxSteps ∧ ∃ g, games.getLast? = some (.running g) ∧
          Running.Started r names.length g ∧ g.Stuck := by
      rw [hgoes.stuck_iff hr hdecides (Match.Standing.onCourse_first r hnames), Nat.zero_add]
      simp only [hlast]
    refine ⟨result, games, hplays, hgoes.leads, fun step => ?_,
      fun hdistinct hseats hpicks hshort => ?_⟩
    · rw [hstuck]
      exact and_congr_right fun hstep => by rw [hstep]
    · obtain ⟨c, hc⟩ := Option.isSome_iff_exists.mp hseats
      obtain ⟨v, hv⟩ | ⟨g, hg, hstarted, hgstuck⟩ :=
        hgoes.progress hr hdistinct hc hpicks (.first r hnames) hshort
      · exact .inl ⟨v, (Match.getLast?_first_iff (g := .completed v) nofun).mp hv⟩
      · exact .inr ((hstuck _).mpr ⟨rfl, hshort, g, hlast.mp hg, hstarted, hgstuck⟩)

/-- Under the standard rules nobody ever gets stuck, and no match of strategies
that have a name reports it. -/
theorem Rules.Valid.goes_on_standard :
    Rules.standard.Valid ∧
    (∀ g, Game.Reachable .standard (.running g) → ∃ a rest, g.legalActions = .ok (a :: rest)) ∧
    ∀ (names : List String) (liberal fascist : Bot) (seed : UInt64) (step : ℕ), names ≠ [] →
      Match.ofSeed .standard names ⟨liberal.strategy, fascist.strategy⟩ seed ≠
        .error (.stuck step) := by
  have hr : Rules.standard.Valid := by decide
  obtain ⟨hlisted, hspared, hmatch⟩ := Rules.Valid.goes_on (r := .standard) (by decide)
  have hfree {n : ℕ} {g : Running} (hg : Running.Started .standard n g) : ¬ g.Stuck :=
    hspared n _ (hg.config hr) (Rules.standard_spares (hg.config hr)) g hg
  refine ⟨hr, fun g hg => ?_, fun names liberal fascist seed step hnames hstuck => ?_⟩
  · obtain ⟨acts, hacts, hnil⟩ := hlisted g hg
    obtain ⟨n, hn⟩ := hg.exists_started
    obtain ⟨a, rest, rfl⟩ := List.exists_cons_of_ne_nil fun h => hfree hn (hnil.mp h)
    exact ⟨a, rest, hacts⟩
  · have hpicks : ∀ party, (Lineup.forParty ⟨liberal.strategy, fascist.strategy⟩ party :
        Strategy ChaCha).Decides := Lineup.forParty_of liberal.decides fascist.decides
    obtain ⟨result, games, hplays, -, hreports, -⟩ :=
      hmatch _ names _ (ChaCha.ofSeed seed) hnames hpicks
    rw [Match.ofSeed, hplays] at hstuck
    obtain ⟨-, -, g, -, hg, hgstuck⟩ := (hreports step).mp hstuck
    exact hfree hg hgstuck

end SecretHitler
