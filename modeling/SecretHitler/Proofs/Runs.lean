import SecretHitler.Proofs.Gathering
import SecretHitler.Proofs.Progress
import SecretHitler.Randomness.Script
/-!
# Runs

What can come of a rule set: the games that accepted actions lead to from the
empty lobby (`Reachable`), and the answers to a sequence of actions, accepted
or refused (`answers`). Soundness is kept by every step, so under a valid rule
set every reachable game is sound, and no answer is ever a fault.
-/

namespace SecretHitler

variable {σ : Type} [RandomSource σ] {r : Rules} {g : Game} {a : Action} {step : Step} {s t : σ}

namespace Game

/-- A lobby or a game under way that is sound; the end of a game is. -/
def Sound (r : Rules) : Game → Prop
  | lobby l => l.Sound r
  | running g => g.Sound
  | completed _ => True

/-- **The actions that the rules allow.** -/
def Allows : Game → Action → Prop
  | lobby l, a => l.Allows a
  | running g, a => g.Allows a
  | completed _, _ => False

theorem running?_eq_some_iff {g' : Running} : g.running? = some g' ↔ g = .running g' := by
  cases g <;> simp [running?]

theorem sound_new (r : Rules) : (new r).Sound r := Lobby.sound_opened r

theorem Sound.violation_eq (h : g.Sound r) : g.violation = .ok none := by
  cases g with
  | lobby l => rfl
  | running g => exact Running.Sound.violation_eq h
  | completed v => rfl

/-- A step leads to a sound game. -/
theorem Sound.play (hr : r.Valid) (hg : g.Sound r) (h : g.play a s = (.ok step, t)) :
    step.game.Sound r := by
  cases g with
  | lobby l =>
    obtain ⟨l', hlobby, hsound⟩ | ⟨c, g, _, hrunning, hsound, _⟩ := Lobby.Sound.play_cases hg hr h
    · rw [hlobby]
      exact hsound
    · rw [hrunning]
      exact hsound
  | running g =>
    obtain ⟨g', hrunning, hsound⟩ | ⟨v, hcompleted⟩ :=
      ((Running.moves_of_play h).sound hg).cases
    · rw [hrunning]
      exact hsound
    · rw [hcompleted]
      exact trivial
  | completed v => cases h

/-- What is accepted was carried out. -/
theorem play_of_apply (h : g.apply a s = (.ok step, t)) : g.play a s = (.ok step, t) := by
  obtain ⟨step', u, hplay, hcheck⟩ := Draws.bind_eq_ok.mp h
  obtain ⟨found, u', hfound, hend⟩ := Draws.bind_eq_ok.mp hcheck
  obtain rfl : u = u' := (Prod.mk.inj hfound).2
  cases found with
  | none =>
    cases hend
    exact hplay
  | some v => cases hend

/-- In a sound game the check that follows a step finds nothing. -/
theorem Sound.apply_eq_ok_iff (hr : r.Valid) (hg : g.Sound r) :
    g.apply a s = (.ok step, t) ↔ g.play a s = (.ok step, t) := by
  constructor
  · exact play_of_apply
  · intro h
    refine Draws.bind_eq_ok.mpr ⟨step, t, h, ?_⟩
    rw [(hg.play hr h).violation_eq]
    rfl

theorem play_rejects (h : ¬ g.Allows a) : (g.play a : Draws σ Step).Rejects := by
  cases g with
  | lobby l => exact Lobby.play_rejects h
  | running g => exact Running.play_rejects h
  | completed v => exact fun s => ⟨.gameCompleted, rfl⟩

/-- **What is not allowed is refused**, in any game, and nothing is drawn. -/
theorem apply_rejects (h : ¬ g.Allows a) : (g.apply a : Draws σ Step).Rejects :=
  (play_rejects h).bind _

/-- **What is allowed happens**, in a sound game. -/
theorem Sound.apply_succeeds (hr : r.Valid) (hg : g.Sound r) (h : g.Allows a) :
    (g.apply a : Draws σ Step).Succeeds := by
  have hplay : (g.play a : Draws σ Step).Succeeds := by
    cases g with
    | lobby l => exact Lobby.Sound.play_succeeds hg hr h
    | running g => exact Running.play_succeeds hg h
    | completed v => exact absurd h id
  intro s
  obtain ⟨step, t, hstep⟩ := hplay s
  exact ⟨step, t, (hg.apply_eq_ok_iff hr).mpr hstep⟩

/-- Every action of a sound game is carried out or refused. -/
theorem Sound.apply_cases (hr : r.Valid) (hg : g.Sound r) (a : Action) (s : σ) :
    (∃ step t, g.apply a s = (.ok step, t) ∧ step.game.Sound r) ∨
      ∃ cause, g.apply a s = (.error (.rejected cause), s) := by
  by_cases h : g.Allows a
  · obtain ⟨step, t, hstep⟩ := hg.apply_succeeds hr h s
    exact .inl ⟨step, t, hstep, hg.play hr ((hg.apply_eq_ok_iff hr).mp hstep)⟩
  · exact .inr (apply_rejects h s)

/-- An action that is not refused, on the luck that there is. -/
def Accepts (g : Game) (a : Action) (s : σ) : Prop := ∃ step t, g.apply a s = (.ok step, t)

/-- **A sound game accepts what the rules allow**, on any luck. -/
theorem Sound.accepts_iff (hr : r.Valid) (hg : g.Sound r) : g.Accepts a s ↔ g.Allows a := by
  refine ⟨fun ⟨step, t, happly⟩ => ?_, fun h => hg.apply_succeeds hr h s⟩
  by_contra hrefused
  obtain ⟨cause, hcause⟩ := apply_rejects hrefused s
  rw [happly] at hcause
  cases hcause

/-! ## Reachable games -/

/-- **The games that a rule set can lead to**, by any actions on any luck. -/
inductive Reachable (r : Rules) : Game → Prop
  | new : Reachable r (.new r)
  | apply {σ : Type} [RandomSource σ] {g : Game} {a : Action} {s t : σ} {step : Step} :
      Reachable r g → g.apply a s = (.ok step, t) → Reachable r step.game

/-- **Every reachable game is sound.** -/
theorem Reachable.sound (hr : r.Valid) (h : Reachable r g) : g.Sound r := by
  induction h with
  | new => exact sound_new r
  | apply _ hstep ih => exact ih.play hr ((ih.apply_eq_ok_iff hr).mp hstep)

end Game

/-- **The games under way** that a rule set leads to from a lobby of so many
names. -/
inductive Running.Started (r : Rules) (n : ℕ) : Running → Prop
  | start {σ : Type} [RandomSource σ] {l : Lobby} {a : Action} {s t : σ} {step : Step}
      {g : Running} : Game.Reachable r (.lobby l) → l.players.length = n →
      Game.apply (.lobby l) a s = (.ok step, t) → step.game = .running g → Started r n g
  | move {σ : Type} [RandomSource σ] {g g' : Running} {a : Action} {s t : σ} {step : Step} :
      Started r n g → Game.apply (.running g) a s = (.ok step, t) → step.game = .running g' →
      Started r n g'

namespace Running.Started

variable {n : ℕ} {g : Running}

theorem reachable (h : Started r n g) : Game.Reachable r (.running g) := by
  induction h with
  | start hlobby _ hstep hgame => exact hgame ▸ hlobby.apply hstep
  | move _ hstep hgame ih => exact hgame ▸ ih.apply hstep

theorem sound (hr : r.Valid) (h : Started r n g) : g.Sound := h.reachable.sound hr

/-- **What holds of a fresh game and is kept by every move of a sound one holds
of every game under way.** -/
theorem induction (hr : r.Valid) {P : Running → Prop}
    (fresh : ∀ c g, r.configurationFor n = some c → g.Fresh c n → P g)
    (move : ∀ g a step, g.Sound → P g → g.Moves a step → step.Keeps P)
    (h : Started r n g) : P g := by
  induction h with
  | @start _ _ l a s t step g hlobby hn hstep hgame =>
    have hl : Game.Sound r (.lobby l) := hlobby.sound hr
    have hplay := (hl.apply_eq_ok_iff hr).mp hstep
    obtain ⟨l', hl', _⟩ | ⟨c, g', hc, hg', _, hfresh⟩ := Lobby.Sound.play_cases hl hr hplay
    · rw [hgame] at hl'
      cases hl'
    · obtain rfl : g = g' := Game.running.inj (hgame.symm.trans hg')
      exact fresh c g (hn ▸ hc) (hn ▸ hfresh)
  | @move _ _ g g' a s t step hg hstep hgame ih =>
    have hsound : Game.Sound r (.running g) := hg.sound hr
    have hplay := (hsound.apply_eq_ok_iff hr).mp hstep
    exact (move g a step hsound ih (moves_of_play hplay)).of_running hgame

/-- A game is played under the configuration of its table size. -/
theorem config (hr : r.Valid) (h : Started r n g) :
    r.configurationFor n = some g.board.config := by
  refine h.induction hr (P := fun g => r.configurationFor n = some g.board.config)
    (fun c g hc hfresh => ?_) fun g a step _ hg hmove => ?_
  · rw [hfresh.config]
    exact hc
  · exact hmove.table.imp fun g' htable => htable.1 ▸ hg

end Running.Started

namespace Game

/-- A game under way was started from some lobby. -/
theorem Reachable.exists_started {g : Running} (h : Reachable r (.running g)) :
    ∃ n, g.Started r n := by
  have hstarted : ∀ {g : Game}, Reachable r g → ∀ g', g = .running g' → ∃ n, g'.Started r n := by
    intro g h
    -- the last step came from a lobby, where the game started, or from a game under way
    induction h with
    | new => intro g' heq; cases heq
    | @apply _ _ g a s t step hg hstep ih =>
      intro g' hgame
      cases g with
      | lobby l => exact ⟨_, .start hg rfl hstep hgame⟩
      | running g =>
        obtain ⟨n, hn⟩ := ih g rfl
        exact ⟨n, .move hn hstep hgame⟩
      | completed v => cases hstep
  exact hstarted h g rfl

/-! ## Answers -/

/-- The game after an answer: a refused action leaves it as it was. -/
def next (g : Game) : Attempt Step → Game
  | .ok step => step.game
  | .error _ => g

/-- The answers to actions that are fed to a game one after another. -/
def answers (g : Game) : List Action → σ → List (Attempt Step)
  | [], _ => []
  | a :: rest, s => (g.apply a s).1 :: (g.next (g.apply a s).1).answers rest (g.apply a s).2

/-- The game that actions lead to, fed to a game one after another. -/
def fed (g : Game) : List Action → σ → Game
  | [], _ => g
  | a :: rest, s => (g.next (g.apply a s).1).fed rest (g.apply a s).2

theorem Reachable.next (h : Reachable r g) (a : Action) (s : σ) :
    Reachable r (g.next (g.apply a s).1) := by
  rcases happly : g.apply a s with ⟨cause | step, t⟩
  · exact h
  · exact h.apply happly

theorem Reachable.fed (h : Reachable r g) (actions : List Action) (s : σ) :
    Reachable r (g.fed actions s) := by
  induction actions generalizing g s with
  | nil => exact h
  | cons a rest ih => exact ih (h.next a s) _

/-- **Every answer leads from one reachable game to another.** -/
theorem Reachable.exists_of_mem_answers {answer : Attempt Step} (h : Reachable r g)
    {actions : List Action} (hanswer : answer ∈ g.answers actions s) :
    ∃ g' a, ∃ s' : σ, Reachable r g' ∧ (g'.apply a s').1 = answer := by
  induction actions generalizing g s with
  | nil => cases hanswer
  | cons a rest ih =>
    rcases List.mem_cons.mp hanswer with rfl | hrest
    · exact ⟨g, a, s, h, rfl⟩
    exact ih (h.next a s) hrest

/-- Answers that come after others are those of a game that these led to. -/
theorem Reachable.exists_of_answers_append (h : Reachable r g) {actions : List Action}
    {before after : List (Attempt Step)} (hanswers : g.answers actions s = before ++ after) :
    ∃ g' actions', ∃ s' : σ, Reachable r g' ∧ g'.answers actions' s' = after := by
  induction before generalizing g actions s with
  | nil => exact ⟨g, actions, s, h, hanswers⟩
  | cons answer before ih =>
    cases actions with
    | nil => cases hanswers
    | cons a rest => exact ih (h.next a s) (List.cons.inj hanswers).2

/-- What a run accepts first, and what it answers then. -/
theorem exists_of_answers_eq_cons {actions : List Action} {after : List (Attempt Step)}
    (h : g.answers actions s = .ok step :: after) :
    ∃ a rest, ∃ t : σ, g.apply a s = (.ok step, t) ∧ step.game.answers rest t = after := by
  cases actions with
  | nil => cases h
  | cons a rest =>
    rw [answers] at h
    rcases happly : g.apply a s with ⟨answer, t⟩
    rw [happly] at h
    obtain ⟨rfl, hrest⟩ := List.cons.inj h
    exact ⟨a, rest, t, happly, hrest⟩

/-- Whatever is tried once a game is over is refused. -/
theorem eq_of_mem_answers_completed {v : Victory} {answer : Attempt Step} {actions : List Action}
    (h : answer ∈ (completed v).answers actions s) : answer = .error (.rejected .gameCompleted) := by
  induction actions generalizing s with
  | nil => cases h
  | cons a rest ih =>
    rcases List.mem_cons.mp h with rfl | hrest
    · rfl
    · exact ih hrest

end Game

/-- **No run breaks.** Under a valid rule set no answer is a fault, and every
game that an accepted action leads to is coherent and keeps a full draw, even
while a hand is out. -/
theorem Rules.Valid.answers_sound (hr : r.Valid) (actions : List Action) (s : σ) :
    ∀ answer ∈ (Game.new r).answers actions s,
      (∀ fault, answer ≠ .error (.fault fault)) ∧
        ∀ step g, answer = .ok step → step.game = .running g →
          g.violation = .ok none ∧ standardDraw ≤ g.board.deck.drawPile.length := by
  intro answer hanswer
  obtain ⟨g, a, s', hreach, rfl⟩ := Game.Reachable.new.exists_of_mem_answers hanswer
  have hg := hreach.sound hr
  obtain ⟨step, t, hstep, hsound⟩ | ⟨cause, hcause⟩ := hg.apply_cases hr a s'
  · rw [hstep]
    refine ⟨fun fault heq => ?_, fun step' g' heq hgame => ?_⟩
    · cases heq
    cases heq
    rw [hgame] at hsound
    exact ⟨Running.Sound.violation_eq hsound, hsound.board.stock⟩
  · rw [hcause]
    refine ⟨fun fault heq => ?_, fun step g heq => ?_⟩
    · cases heq
    · cases heq

/-- Five names under the standard rules. -/
def Lobby.ofFive : Lobby := ⟨["a", "b", "c", "d", "e"], .standard⟩

/-- Everybody casts the same ballot. -/
def Lobby.ballots (l : Lobby) (ballot : Ballot) : List Action := l.players.map (.vote · ballot)

theorem Lobby.reachable_ofFive : Game.Reachable .standard (.lobby ofFive) :=
  Game.Reachable.new.fed (ofFive.players.map .join) (Script.ofWords [])

/-- The names of five join and the first one starts. -/
theorem Rules.Valid.answers_sound_standard :
    Rules.standard.Valid ∧ ∀ answer ∈ (Game.new .standard).answers
        (Lobby.ofFive.players.map .join ++ [.start "a"]) (Script.ofWords []),
      (∀ fault, answer ≠ .error (.fault fault)) ∧
        ∀ step g, answer = .ok step → step.game = .running g →
          g.violation = .ok none ∧ standardDraw ≤ g.board.deck.drawPile.length :=
  ⟨by decide, Rules.Valid.answers_sound (by decide) _ _⟩

end SecretHitler
