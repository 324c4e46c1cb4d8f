import SecretHitler.Proofs.Matches
import SecretHitler.Proofs.Survivors
/-!
# What players still know

Players are told of the roles when these are dealt, but what they were told is kept
nowhere: it is worked out again from the roles that are left. Nobody's own role changes,
and Hitler is never off the map, but a fascist who is killed is missing from the team that
the others are told of. So knowledge is what it was at the start, less the dead
(`Rules.Valid.knowledge_dwindles`).
-/

namespace SecretHitler

/-- The entries of a table that holds some of the keys of another. -/
theorem Table.entries_eq_filter {κ α : Type} [Ranked κ] {t t' : Table κ α} {P : κ → Bool}
    (h : ∀ k, t'.find? k = if P k then t.find? k else none) :
    t'.entries = t.entries.filter fun e => P e.1 := by
  have hsame : t' = ⟨t.entries.filter fun e => P e.1, t.sorted.filter _⟩ := by
    refine ext_find? fun k => Option.ext fun v => ?_
    rw [h k, find?_eq_some_iff, List.mem_filter, ← find?_eq_some_iff]
    by_cases hk : P k = true
    · simp [hk]
    · simp [hk]
  rw [hsame]

namespace RoleMap

variable {m m' : RoleMap} {s : Seat}

/-- **Hitler is whoever has the role.** -/
theorem hitler_eq_ok (h : m.hitlers = 1) :
    m.hitler = .ok s ↔ m.roles.find? s = some .hitler := by
  -- nobody shares the role
  have hone : (m.roles.entries.filter fun e => e.2 == .hitler).length = 1 := by
    rwa [hitlers, Table.values, List.count, List.countP_map, List.countP_eq_length_filter] at h
  obtain ⟨⟨first, role⟩, hfirst⟩ := List.length_eq_one_iff.mp hone
  have hmem {e : Seat × Role} :
      e ∈ m.roles.entries ∧ (e.2 == .hitler) = true ↔ e = (first, role) := by
    rw [← List.mem_filter (p := fun e : Seat × Role => e.2 == .hitler), hfirst,
      List.mem_singleton]
  obtain rfl : role = .hitler := by simpa using (hmem.mpr rfl).2
  have hfound : m.hitler = .ok first := by
    rw [hitler, ← List.head?_filter, hfirst]
    rfl
  rw [hfound, Except.ok.injEq, Table.find?_eq_some_iff]
  constructor
  · rintro rfl
    exact (hmem.mpr rfl).1
  · intro hs
    exact (Prod.mk.inj (hmem.mp ⟨hs, rfl⟩)).1.symm

/-- **What is left of a role map**: some of its seats, with the roles they had. -/
def Keeps (m m' : RoleMap) (P : Seat → Bool) : Prop :=
  ∀ s, m'.roles.find? s = if P s then m.roles.find? s else none

variable {P : Seat → Bool}

theorem Keeps.plainFascists (h : m.Keeps m' P) : m'.plainFascists = m.plainFascists.filter P := by
  rw [RoleMap.plainFascists, Table.entries_eq_filter h, RoleMap.plainFascists, List.filter_map,
    List.filter_comm]
  rfl

/-- As long as there is a Hitler it is the same one. -/
theorem Keeps.hitler (h : m.Keeps m' P) (hm : m.hitlers = 1) (hm' : m'.hitlers = 1) :
    m'.hitler = m.hitler := by
  obtain ⟨s, hs⟩ := exists_hitler hm'
  have hheld : m.roles.find? s = some .hitler := by
    rw [h s] at hs
    split at hs
    · exact hs
    · cases hs
  rw [(hitler_eq_ok hm').mpr hs, (hitler_eq_ok hm).mpr hheld]

end RoleMap

/-- **What is left of knowledge** after some events: of the players known to be fascists
those who were not killed. -/
def Knowledge.after (k : Knowledge) (log : List Event) : Knowledge :=
  { k with knownFascists := k.knownFascists.filter fun s => .playerExecuted s ∉ log }

/-- Knowledge is as it was exactly if none of the fascists it speaks of was killed. -/
theorem Knowledge.after_eq_iff {k : Knowledge} {log : List Event} :
    k.after log = k ↔ ∀ s ∈ k.knownFascists, .playerExecuted s ∉ log := by
  obtain ⟨player, role, team, hitler⟩ := k
  simp only [after, mk.injEq, true_and, and_true, List.filter_eq_self, decide_eq_true_eq]

/-- Whoever is left is told what is left of what it was told. -/
theorem RoleMap.Keeps.knowledge {m m' : RoleMap} {log : List Event} {s : Seat} {k : Knowledge}
    {hitlerKnows : Bool} (h : m.Keeps m' fun s => .playerExecuted s ∉ log) (hm : m.hitlers = 1)
    (hm' : m'.hitlers = 1) (hleft : .playerExecuted s ∉ log)
    (hk : m.knowledge s hitlerKnows = .ok k) : m'.knowledge s hitlerKnows = .ok (k.after log) := by
  obtain ⟨role, hrole, hk⟩ := Attempt.bind_eq_ok.mp hk
  have hrole' : m'.roleOf s = .ok role := by
    rw [roleOf_eq_ok, h s, if_pos (decide_eq_true hleft), ← roleOf_eq_ok]
    exact hrole
  have hteam : (m'.plainFascists.filter (· ≠ s)) =
      (m.plainFascists.filter (· ≠ s)).filter fun s => .playerExecuted s ∉ log := by
    rw [h.plainFascists, List.filter_comm]
  rw [RoleMap.knowledge, hrole', Attempt.ok_bind, hteam]
  cases role with
  | liberal =>
    cases hk
    rfl
  | plainFascist =>
    obtain ⟨hitler, hhitler, hret⟩ := Attempt.bind_eq_ok.mp hk
    cases hret
    dsimp only
    rw [h.hitler hm hm', hhitler]
    rfl
  | hitler =>
    cases hk
    cases hitlerKnows with
    | true | false => rfl

namespace Running

variable {g₀ g : Running} {log : List Event}

/-- The roles of those who survive are left. -/
theorem Survives.keepsRoles (h : g₀.Survives log g)
    (hg₀ : g₀.board.roles.seats = g₀.board.seating.seats)
    (hg : g.board.roles.seats = g.board.seating.seats) :
    g₀.board.roles.Keeps g.board.roles fun s => .playerExecuted s ∉ log := by
  intro s
  by_cases hs : s ∈ g.board.seating.seats
  · obtain ⟨role, hrole⟩ := Table.mem_keys_iff.mp (hg ▸ hs)
    have hsame := h.roles s hs
    rw [RoleMap.roleOf_eq_ok.mpr hrole] at hsame
    rw [if_pos (decide_eq_true ((h.seats s).mp hs).2), hrole,
      RoleMap.roleOf_eq_ok.mp hsame.symm]
  · rw [← hg] at hs
    rw [Table.find?_eq_none_iff.mpr hs]
    split
    · rename_i hleft
      -- whoever was not killed and is not there has never been there
      refine (Table.find?_eq_none_iff.mpr fun hs₀ => hs ?_).symm
      exact hg ▸ (h.seats s).mpr ⟨hg₀ ▸ hs₀, of_decide_eq_true hleft⟩
    · rfl

end Running

/-- A game under a configuration, or one that is over. -/
def Game.Under (c : Configuration) : Game → Prop
  | lobby _ => False
  | running g => g.board.config = c
  | completed _ => True

/-- **The configuration of a game stays.** -/
theorem Game.History.under {g₀ : Running} {past : List Deed} {g : Game}
    (h : History (.running g₀) past g) : g.Under g₀.board.config := by
  refine h.cases_on_last (P := fun _ g => g.Under g₀.board.config)
    ?_ (fun _ _ _ _ _ ih _ => ih.elim) fun _ g a step _ ih hmove => ?_
  · exact rfl
  · obtain ⟨g', hgame, hconfig, -⟩ | ⟨v, hgame⟩ := hmove.table.cases
    · rw [hgame]
      exact hconfig.trans ih
    · rw [hgame]
      trivial

/-- **Knowledge dwindles with the team.** Once a game has started under a valid rule set,
whoever is seated in a game that comes of it is told what the start told the same player,
but for the fascists who have been killed since: the player, the role and Hitler are the
same. It is all that the start told exactly if none of the fascists it named was killed. -/
theorem Rules.Valid.knowledge_dwindles {r : Rules} (hr : r.Valid) {l : Lobby}
    (hl : Game.Reachable r (.lobby l)) {σ : Type} [RandomSource σ] {actor : String} {s t : σ}
    {step : Step} (hstart : Game.apply (.lobby l) (.start actor) s = (.ok step, t)) :
    ∃ g₀, step.game = .running g₀ ∧ ∀ past g, Game.History step.game past (.running g) →
      ∀ seat ∈ g.board.seating.seats, ∃ k, g₀.board.knowledgeOf seat = .ok k ∧
        g.board.knowledgeOf seat = .ok (k.after (Deed.log past)) ∧
        (g.board.knowledgeOf seat = g₀.board.knowledgeOf seat ↔
          ∀ fascist ∈ k.knownFascists, .playerExecuted fascist ∉ Deed.log past) := by
  obtain ⟨g₀, hgame₀, hpolled, -⟩ := (hl.sound hr).seats_of_start hr (Game.play_of_apply hstart)
  have hreach : Game.Reachable r (.running g₀) := hgame₀ ▸ hl.apply hstart
  have hsound₀ : g₀.Sound := hreach.sound hr
  rw [hgame₀]
  refine ⟨g₀, rfl, fun past g hpast seat hseat => ?_⟩
  have hsound : g.Sound := (hpast.reachable hreach).sound hr
  have hconfig : g.board.config = g₀.board.config := hpast.under
  obtain ⟨hsurvives, -⟩ := hpast.comesOf hr hreach hpolled
  obtain ⟨hseat₀, hleft⟩ := (hsurvives.seats seat).mp hseat
  obtain ⟨k, hk⟩ := RoleMap.knowledge_succeeds hsound₀.board.hitler
    (hsound₀.board.covered ▸ hseat₀) g₀.board.config.hitlerKnowsFascists
  have hkeeps := hsurvives.keepsRoles hsound₀.board.covered hsound.board.covered
  have htold : g.board.knowledgeOf seat = .ok (k.after (Deed.log past)) := by
    rw [Board.knowledgeOf, hconfig]
    exact hkeeps.knowledge hsound₀.board.hitler hsound.board.hitler hleft hk
  refine ⟨k, hk, htold, ?_⟩
  rw [htold, Board.knowledgeOf, hk, Except.ok.injEq, Knowledge.after_eq_iff]

/-! ## A fascist who is forgotten -/

/-- Rules under which two fascists are dealt and the first fascist policy kills a player. -/
def Rules.treacherous : Rules :=
  { standard with
    brackets := [{ minPlayers := 5, maxPlayers := 10, fascists := 2, hitlerKnowsFascists := true,
                   powers := [⟨1, .execution⟩] }] }

/-- The first president, a fascist, has the other one killed. -/
def treacherousGame : List Action :=
  [Lobby.ofFive.players.map .join, [.start "a", .nominate "a" "c"], Lobby.ofFive.ballots .yes,
    [.discard "a" 0, .enact "c" 0, .usePower .execution "a" "b"]].flatten

/-- The history of that game. -/
def treacherousPast : List Deed := (Game.new .treacherous).deeds treacherousGame (Script.ofWords [])

/-- The end of that game, and what its first player is told then. -/
theorem exists_treacherous :
    ∃ g, (Game.new .treacherous).fed treacherousGame (Script.ofWords []) = .running g ∧
      ⟨1⟩ ∈ g.board.seating.seats ∧
      g.board.knowledgeOf ⟨1⟩ = .ok ⟨⟨1⟩, .plainFascist, [], some ⟨5⟩⟩ := by
  have hlast : ((Game.new .treacherous).fed treacherousGame (Script.ofWords [])).running?.map
      (fun g => (decide (⟨1⟩ ∈ g.board.seating.seats), g.board.knowledgeOf ⟨1⟩)) =
        some (true, .ok ⟨⟨1⟩, .plainFascist, [], some ⟨5⟩⟩) := by decide +kernel
  obtain ⟨g, hg, hleft⟩ := Option.map_eq_some_iff.mp hlast
  obtain ⟨hseat, htold⟩ := Prod.mk.inj hleft
  exact ⟨g, Game.running?_eq_some_iff.mp hg, of_decide_eq_true hseat, htold⟩

/-- **What was told at the start can be forgotten**: the first player was told who the other
fascist is, and is told of none once that one is dead. -/
theorem treacherous_forgets :
    Rules.treacherous.Valid ∧ ∃ g₀ g,
      (Game.new .treacherous).fed (treacherousGame.take 6) (Script.ofWords []) = .running g₀ ∧
      (Game.new .treacherous).fed treacherousGame (Script.ofWords []) = .running g ∧
      ⟨1⟩ ∈ g.board.seating.seats ∧
      g₀.board.knowledgeOf ⟨1⟩ = .ok ⟨⟨1⟩, .plainFascist, [⟨2⟩], some ⟨5⟩⟩ ∧
      g.board.knowledgeOf ⟨1⟩ = .ok ⟨⟨1⟩, .plainFascist, [], some ⟨5⟩⟩ := by
  have hfirst : ((Game.new .treacherous).fed (treacherousGame.take 6)
      (Script.ofWords [])).running?.map (fun g => g.board.knowledgeOf ⟨1⟩) =
        some (.ok ⟨⟨1⟩, .plainFascist, [⟨2⟩], some ⟨5⟩⟩) := by decide +kernel
  obtain ⟨g₀, hg₀, htold⟩ := Option.map_eq_some_iff.mp hfirst
  obtain ⟨g, hlast⟩ := exists_treacherous
  exact ⟨by decide, g₀, g, Game.running?_eq_some_iff.mp hg₀, hlast.1, hlast.2.1, htold, hlast.2.2⟩

/-- The same game: what the first player is told in the end is what the start told it, less
the fascist who was killed. -/
theorem Rules.Valid.knowledge_dwindles_treacherous :
    Rules.treacherous.Valid ∧ ∃ (l : Lobby) (σ : Type) (_ : RandomSource σ) (s t : σ)
        (start : Step) (g₀ g : Running) (past : List Deed) (k : Knowledge),
      Game.Reachable .treacherous (.lobby l) ∧ l.players = ["a", "b", "c", "d", "e"] ∧
      Game.apply (.lobby l) (.start "a") s = (.ok start, t) ∧ start.game = .running g₀ ∧
      Game.History start.game past (.running g) ∧ ⟨1⟩ ∈ g.board.seating.seats ∧
      .playerExecuted ⟨2⟩ ∈ Deed.log past ∧ ⟨2⟩ ∈ k.knownFascists ∧
      g₀.board.knowledgeOf ⟨1⟩ = .ok k ∧
      g.board.knowledgeOf ⟨1⟩ = .ok (k.after (Deed.log past)) ∧
      g.board.knowledgeOf ⟨1⟩ ≠ g₀.board.knowledgeOf ⟨1⟩ := by
  have hr : Rules.treacherous.Valid := by decide
  obtain ⟨g, hg, hseat, -⟩ := exists_treacherous
  have hwhole : Game.History (.new .treacherous) treacherousPast (.running g) :=
    hg ▸ .deeds _ treacherousGame _
  obtain ⟨⟨before, a, start⟩, hcut, ⟨hlobby, haction⟩, htold⟩ :
      ∃ d, treacherousPast = treacherousPast.take 5 ++ d :: treacherousPast.drop 6 ∧
        (d.before = .lobby ⟨["a", "b", "c", "d", "e"], .treacherous⟩ ∧ d.action = .start "a") ∧
        d.step.game.running?.map (fun g => g.board.knowledgeOf ⟨1⟩) =
          some (.ok ⟨⟨1⟩, .plainFascist, [⟨2⟩], some ⟨5⟩⟩) :=
    Deed.exists_of_any (by decide +kernel)
  dsimp only at hlobby haction htold
  subst hlobby haction
  rw [hcut] at hwhole
  obtain ⟨hbefore, ⟨σ, hσ, s, t, hstart⟩, hafter⟩ := hwhole.split
  have hl := hbefore.reachable .new
  obtain ⟨g₀, hg₀, hall⟩ := hr.knowledge_dwindles hl hstart
  obtain ⟨k, hk, hdwindled, hsame⟩ := hall _ _ hafter ⟨1⟩ hseat
  have hknown : (⟨2⟩ : Seat) ∈ k.knownFascists := by
    rw [hg₀] at htold
    obtain rfl := Except.ok.inj (hk.symm.trans (Option.some.inj htold))
    exact .head _
  have hkilled : .playerExecuted ⟨2⟩ ∈ Deed.log (treacherousPast.drop 6) := by decide +kernel
  exact ⟨hr, _, σ, hσ, s, t, start, g₀, g, _, k, hl, rfl, hstart, hg₀, hafter, hseat, hkilled,
    hknown, hk, hdwindled, fun heq => hsame.mp heq ⟨2⟩ hknown hkilled⟩

end SecretHitler
