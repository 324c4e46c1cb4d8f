import SecretHitler.Proofs.Runs
/-!
# Histories

What has been done in a game: a history lists the accepted actions that lead from one
game to another, each with the game it was taken in and the step it took. What is
refused leaves no trace and is no part of it. A claim about all that has happened so
far, or about what may still happen after something has, is a claim about histories,
and is proved by `History.cases_on_last`: one case for what is done in a lobby
(`Lobby.Gathers`) and one for a move.
-/

namespace SecretHitler

/-- **What is done in a lobby**: somebody joins or leaves, or the names are seated and a
first candidate is opened. -/
inductive Lobby.Gathers (l : Lobby) : Action → Step → Prop
  | join {name : String} :
      Gathers l (.join name)
        ⟨.lobby { l with players := l.players ++ [name] }, [.playerJoined name]⟩
  | leave {name : String} :
      Gathers l (.leave name)
        ⟨.lobby { l with players := l.players.filter (· ≠ name) }, [.playerLeft name]⟩
  | start {actor : String} {c : Configuration} {seating : Seating} {roles : RoleMap} {deck : Deck}
      {first : Seat} :
      Gathers l (.start actor) ((Board.beginElection
        ⟨c, seating, roles, {}, deck, .start first, .empty⟩ first false).after
          [.gameStarted l.size])

theorem Lobby.gathers_of_play {σ : Type} [RandomSource σ] {l : Lobby} {a : Action} {s t : σ}
    {step : Step} (h : l.play a s = (.ok step, t)) : l.Gathers a step := by
  cases a with
  | join name =>
    obtain ⟨-, rfl⟩ := join_eq_ok.mp (Prod.mk.inj h).1
    exact .join
  | leave name =>
    obtain ⟨-, rfl⟩ := leave_eq_ok.mp (Prod.mk.inj h).1
    exact .leave
  | start actor =>
    obtain ⟨_, _, _, _, _, -, -, -, -, -, rfl⟩ := exists_of_start h
    exact .start
  | _ => cases h

/-- **An accepted action**: the game it was taken in and the step it took. -/
structure Deed where
  before : Game
  action : Action
  step : Step

namespace Deed

/-- A deed that can be done, with some luck. -/
def Happens (d : Deed) : Prop :=
  ∃ (σ : Type) (_ : RandomSource σ) (s t : σ), d.before.apply d.action s = (.ok d.step, t)

/-- The events of deeds, in order. -/
def log (past : List Deed) : List Event := past.flatMap (·.step.events)

@[simp] theorem log_append (past later : List Deed) :
    log (past ++ later) = log past ++ log later := List.flatMap_append

@[simp] theorem log_singleton (d : Deed) : log [d] = d.step.events := List.flatMap_singleton ..

/-- **Where a log has an event from**: a deed reports it, after what came before. -/
theorem exists_of_log_eq {past : List Deed} {earlier later : List Event} {e : Event}
    (h : log past = earlier ++ e :: later) :
    ∃ before d after first last, past = before ++ d :: after ∧
      d.step.events = first ++ e :: last ∧ earlier = log before ++ first := by
  induction past generalizing earlier with
  | nil => cases earlier <;> cases h
  | cons d rest ih =>
    have hlog : d.step.events ++ log rest = earlier ++ e :: later := h
    rcases List.append_eq_append_iff.mp hlog with ⟨first, rfl, hrest⟩ | ⟨last, hevents, hlater⟩
    · obtain ⟨before, d', after, first, last, rfl, hevents, rfl⟩ := ih hrest
      exact ⟨d :: before, d', after, first, last, rfl, hevents, (List.append_assoc ..).symm⟩
    · cases last with
      | nil =>
        -- the event comes first in what is left
        have hrest : log rest = [] ++ e :: later := hlater.symm
        obtain ⟨before, d', after, first, last, rfl, hreport, hnil⟩ := ih hrest
        refine ⟨d :: before, d', after, first, last, rfl, hreport, ?_⟩
        show earlier = d.step.events ++ log before ++ first
        rw [hevents, List.append_nil, List.append_assoc, ← hnil, List.append_nil]
      | cons e' last =>
        obtain ⟨rfl, -⟩ := List.cons.inj hlater
        exact ⟨[], d, rest, earlier, last, rfl, hevents, rfl⟩

/-- A deed that passes a test, between those before it and those after. -/
theorem exists_of_any {past : List Deed} {i : ℕ} {P : Deed → Prop} [DecidablePred P]
    (h : past[i]?.any (P ·) = true) :
    ∃ d, past = past.take i ++ d :: past.drop (i + 1) ∧ P d := by
  obtain ⟨d, hd, htest⟩ := (Option.any_eq_true ..).mp h
  obtain ⟨hi, rfl⟩ := List.getElem?_eq_some_iff.mp hd
  refine ⟨past[i], ?_, of_decide_eq_true htest⟩
  rw [List.getElem_cons_drop, List.take_append_drop]

/-- A deed is done in a lobby, or it is a move. -/
theorem Happens.gathers_or_moves {d : Deed} (h : d.Happens) :
    (∃ l, d.before = .lobby l ∧ l.Gathers d.action d.step) ∨
      ∃ g, d.before = .running g ∧ g.Moves d.action d.step := by
  obtain ⟨σ, _, s, t, happly⟩ := h
  have hplay := Game.play_of_apply happly
  cases hbefore : d.before with
  | lobby l =>
    rw [hbefore] at hplay
    exact .inl ⟨l, rfl, Lobby.gathers_of_play hplay⟩
  | running g =>
    rw [hbefore] at hplay
    exact .inr ⟨g, rfl, Running.moves_of_play hplay⟩
  | completed v =>
    rw [hbefore] at hplay
    cases hplay

end Deed

namespace Game

/-- **The histories of a game**: the deeds that lead from it to another, each on luck of
its own. -/
inductive History (start : Game) : List Deed → Game → Prop
  | start : History start [] start
  | act {past : List Deed} {d : Deed} :
      History start past d.before → d.Happens → History start (past ++ [d]) d.step.game

namespace History

variable {r : Rules} {start g : Game} {past before after : List Deed} {d : Deed}

theorem reachable (hstart : Reachable r start) (h : History start past g) : Reachable r g := by
  induction h with
  | start => exact hstart
  | act _ hd ih =>
    obtain ⟨_, _, _, _, happly⟩ := hd
    exact ih.apply happly

/-- One history after another. -/
theorem trans {middle : Game} (h : History start past middle) (h' : History middle after g) :
    History start (past ++ after) g := by
  induction h' with
  | start =>
    rw [List.append_nil]
    exact h
  | act _ hd ih =>
    rw [← List.append_assoc]
    exact ih.act hd

/-- Where nothing is done nothing changes. -/
theorem eq_of_nil (h : History start [] g) : g = start := by
  generalize hnil : ([] : List Deed) = past at h
  cases h with
  | start => rfl
  | act _ _ => simp at hnil

/-- **A deed in the middle of a history**: what led to it, that it was done, and what has
come of it. -/
theorem split (h : History start (before ++ d :: after) g) :
    History start before d.before ∧ d.Happens ∧ History d.step.game after g := by
  -- from the last deed back
  generalize hpast : before ++ d :: after = past at h
  induction h generalizing after with
  | start => simp at hpast
  | @act past last hlast hhappens ih =>
    rcases List.eq_nil_or_concat' after with rfl | ⟨earlier, e, rfl⟩
    · obtain ⟨rfl, hsame⟩ := List.append_inj' hpast rfl
      obtain rfl := List.singleton_injective hsame
      exact ⟨hlast, hhappens, .start⟩
    · rw [← List.cons_append, ← List.append_assoc] at hpast
      obtain ⟨hearlier, hsame⟩ := List.append_inj' hpast rfl
      obtain rfl := List.singleton_injective hsame
      obtain ⟨hbefore, hd, hafter⟩ := ih hearlier
      exact ⟨hbefore, hd, hafter.act hhappens⟩

/-- Every deed of a history was done. -/
theorem happens (h : History start past g) : ∀ d ∈ past, d.Happens := by
  intro d hd
  obtain ⟨before, after, rfl⟩ := List.append_of_mem hd
  exact h.split.2.1

/-- **What holds at the start and is kept by what is done in a lobby and by every move
holds of every history.** -/
theorem cases_on_last {P : List Deed → Game → Prop} (nil : P [] start)
    (gathers : ∀ past l a step, History start past (.lobby l) → P past (.lobby l) →
      l.Gathers a step → P (past ++ [⟨.lobby l, a, step⟩]) step.game)
    (moves : ∀ past g a step, History start past (.running g) → P past (.running g) →
      g.Moves a step → P (past ++ [⟨.running g, a, step⟩]) step.game)
    (h : History start past g) : P past g := by
  induction h with
  | start => exact nil
  | @act past d hpast hd ih =>
    obtain ⟨before, a, step⟩ := d
    obtain ⟨l, rfl, hgathers⟩ | ⟨g, rfl, hmove⟩ := hd.gathers_or_moves
    · exact gathers past l a step hpast ih hgathers
    · exact moves past g a step hpast ih hmove

end History

variable {σ : Type} [RandomSource σ]

/-- The deeds of a run: those of the actions fed to a game that it accepts. -/
def deeds (g : Game) : List Action → σ → List Deed
  | [], _ => []
  | a :: rest, s =>
    match g.apply a s with
    | (.ok step, t) => ⟨g, a, step⟩ :: step.game.deeds rest t
    | (.error _, t) => g.deeds rest t

/-- **Every run has a history.** -/
theorem History.deeds (g : Game) (actions : List Action) (s : σ) :
    History g (g.deeds actions s) (g.fed actions s) := by
  induction actions generalizing g s with
  | nil => exact .start
  | cons a rest ih =>
    rw [Game.deeds, Game.fed]
    split
    · rename_i step t happly
      have hdone : Deed.Happens ⟨g, a, step⟩ := ⟨σ, inferInstance, s, t, happly⟩
      have hfirst : History g ([] ++ [⟨g, a, step⟩]) step.game := History.start.act hdone
      rw [happly]
      exact hfirst.trans (ih step.game t)
    · rename_i cause t happly
      rw [happly]
      exact ih g t

end Game

/-! ## An eventful game -/

/-- Rules under which each of the first four fascist policies holds a power, and from the
fourth one on agendas may be vetoed. -/
def Rules.eventful : Rules :=
  { standard with
    hitlerThreshold := none
    vetoThreshold := 4
    brackets := [{ minPlayers := 5, maxPlayers := 10, fascists := 1,
                   powers := [⟨1, .execution⟩, ⟨2, .specialElection⟩, ⟨3, .investigateParty⟩,
                     ⟨4, .investigateParty⟩] }] }

/-- The first president has a player killed and the second calls an election out of turn.
Three governments in a row are voted down and chaos breaks out. The turn is the first
president's again, who investigates a player, and the next agenda is vetoed. -/
def eventfulGame : List Action :=
  let votes (ballot : Ballot) : List Action := ["a", "b", "c", "e"].map (.vote · ballot)
  [Lobby.ofFive.players.map .join, [.start "a", .nominate "a" "b"], Lobby.ofFive.ballots .yes,
    [.discard "a" 0, .enact "b" 0, .usePower .execution "a" "d", .nominate "b" "c"], votes .yes,
    [.discard "b" 1, .enact "c" 0, .usePower .specialElection "b" "e", .nominate "e" "a"],
    votes .no, [.nominate "c" "a"], votes .no, [.nominate "e" "a"], votes .no,
    [.nominate "a" "b"], votes .yes,
    [.discard "a" 1, .enact "b" 0, .usePower .investigateParty "a" "c", .nominate "b" "e"],
    votes .yes, [.discard "b" 0, .requestVeto "e", .answerVeto "b" true]].flatten

/-- The history of the eventful game. -/
def eventfulPast : List Deed := (Game.new .eventful).deeds eventfulGame (Script.ofWords [])

/-- The eventful game is not over when the last action is done. -/
theorem history_eventfulPast :
    ∃ g : Running, Game.History (.new .eventful) eventfulPast (.running g) := by
  have hgame : ((Game.new .eventful).fed eventfulGame (Script.ofWords [])).running?.isSome := by
    decide +kernel
  obtain ⟨g, hg⟩ := Option.isSome_iff_exists.mp hgame
  refine ⟨g, ?_⟩
  rw [← Game.running?_eq_some_iff.mp hg]
  exact .deeds _ eventfulGame _

end SecretHitler
