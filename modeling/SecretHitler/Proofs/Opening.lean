import SecretHitler.Proofs.History
import Mathlib.Data.List.Induction
/-!
# From the empty lobby to the first nomination

Who is in a lobby is settled by who has come and gone: `Action.roster` reads it off the
accepted actions, and `History.players_eq_roster` shows that the lobby lists nothing else.
A valid rule set has a bracket for every size that it allows
(`Rules.Valid.isSome_configurationFor`), so a start waits for nothing but enough players,
and `Lobby.Sound.dealt_of_start` says what is then on the table.
-/

namespace SecretHitler

namespace Action

/-- Whether somebody joins or leaves. -/
def comesOrGoes : Action → Bool
  | join _ => true
  | leave _ => true
  | _ => false

/-- **Who is there** after accepted actions: whoever has joined and has not left since, in
the order in which they last joined. -/
def roster : List Action → List String
  | [] => []
  | join name :: later =>
    if join name ∈ later ∨ leave name ∈ later then roster later else name :: roster later
  | _ :: later => roster later

variable {name : String} {past : List Action}

/-- Whoever joins or leaves later is no longer where they were. -/
theorem roster_append (past later : List Action) :
    roster (past ++ later) =
      (roster past).filter (fun name => join name ∉ later ∧ leave name ∉ later) ++
        roster later := by
  induction past with
  | nil => rfl
  | cons a rest ih =>
    cases a with
    | join name =>
      rw [List.cons_append, roster, roster]
      by_cases hgone : join name ∈ rest ∨ leave name ∈ rest
      · have hgone' : join name ∈ rest ++ later ∨ leave name ∈ rest ++ later :=
          hgone.imp (List.mem_append_left _) (List.mem_append_left _)
        rw [if_pos hgone, if_pos hgone', ih]
      · rw [if_neg hgone]
        by_cases hlater : join name ∈ later ∨ leave name ∈ later
        · have hgone' : join name ∈ rest ++ later ∨ leave name ∈ rest ++ later :=
            hlater.imp (List.mem_append_right _) (List.mem_append_right _)
          have hdropped : ¬ (join name ∉ later ∧ leave name ∉ later) := by tauto
          rw [if_pos hgone', ih, List.filter_cons_of_neg (by simpa using hdropped)]
        · have hstays : ¬ (join name ∈ rest ++ later ∨ leave name ∈ rest ++ later) := by
            rw [List.mem_append, List.mem_append]
            tauto
          have hkept : join name ∉ later ∧ leave name ∉ later := by tauto
          rw [if_neg hstays, ih, List.filter_cons_of_pos (by simpa using hkept)]
          rfl
    | _ => exact ih

theorem roster_concat_join (past : List Action) (name : String) :
    roster (past ++ [join name]) = (roster past).filter (· ≠ name) ++ [name] := by
  rw [roster_append]
  congr 1
  refine List.filter_congr fun other _ => ?_
  simp

theorem roster_concat_leave (past : List Action) (name : String) :
    roster (past ++ [leave name]) = (roster past).filter (· ≠ name) := by
  rw [roster_append, show roster [leave name] = [] from rfl, List.append_nil]
  refine List.filter_congr fun other _ => ?_
  simp

/-- **Who is there has joined and has not left since.** -/
theorem mem_roster_iff : name ∈ roster past ↔
    ∃ earlier later, past = earlier ++ join name :: later ∧ leave name ∉ later := by
  constructor
  · intro h
    induction past with
    | nil => cases h
    | cons a rest ih =>
      have hrest (h : name ∈ roster rest) :
          ∃ earlier later, a :: rest = earlier ++ join name :: later ∧ leave name ∉ later := by
        obtain ⟨earlier, later, rfl, hstays⟩ := ih h
        exact ⟨a :: earlier, later, rfl, hstays⟩
      cases a with
      | join other =>
        rw [roster] at h
        split at h
        · exact hrest h
        rename_i hlast
        rcases List.mem_cons.mp h with rfl | h
        · exact ⟨[], rest, rfl, fun hleft => hlast (.inr hleft)⟩
        · exact hrest h
      | _ => exact hrest h
  · rintro ⟨earlier, later, rfl, hstays⟩
    have hlast : name ∈ roster (join name :: later) := by
      induction later using List.reverseRecOn with
      | nil => exact List.mem_singleton_self name
      | append_singleton rest a ih =>
        rw [List.mem_append, not_or, List.mem_singleton] at hstays
        obtain ⟨hrest, hleave⟩ := hstays
        rw [← List.cons_append, roster_append, List.mem_append, List.mem_filter]
        by_cases hjoin : join name = a
        · -- a later join of the name stands for this one
          exact .inr (hjoin ▸ List.mem_singleton_self name)
        · exact .inl ⟨ih hrest, by simp [hjoin, hleave]⟩
    rw [roster_append]
    exact List.mem_append_right _ hlast

end Action

namespace Lobby

variable {σ : Type} [RandomSource σ] {l l' : Lobby} {a : Action} {s t : σ} {step : Step}

/-- **What is done in a lobby keeps its list up to date.** -/
theorem players_of_play {past : List Action} (hl : l.players = Action.roster past)
    (h : l.play a s = (.ok step, t)) (hgame : step.game = .lobby l') :
    l'.players = Action.roster (past ++ [a]) := by
  cases a with
  | join name =>
    obtain ⟨⟨habsent, -⟩, rfl⟩ := join_eq_ok.mp (Prod.mk.inj h).1
    obtain rfl := Game.lobby.inj hgame
    -- who joins was not there and is no longer looked for further up
    have hothers : l.players.filter (· ≠ name) = l.players :=
      List.filter_eq_self.mpr fun other hother => decide_eq_true fun heq => habsent (heq ▸ hother)
    rw [Action.roster_concat_join, ← hl, hothers]
  | leave name =>
    obtain ⟨-, rfl⟩ := leave_eq_ok.mp (Prod.mk.inj h).1
    obtain rfl := Game.lobby.inj hgame
    rw [Action.roster_concat_leave, ← hl]
  | start actor =>
    obtain ⟨_, _, _, _, _, -, -, -, -, -, rfl⟩ := exists_of_start h
    cases hgame
  | _ => cases h

/-- Joining and leaving keep to the lobby. -/
theorem exists_of_comesOrGoes (ha : a.comesOrGoes) (h : l.play a s = (.ok step, t)) :
    ∃ l', step.game = .lobby l' := by
  cases a with
  | join name =>
    obtain ⟨-, rfl⟩ := join_eq_ok.mp (Prod.mk.inj h).1
    exact ⟨_, rfl⟩
  | leave name =>
    obtain ⟨-, rfl⟩ := leave_eq_ok.mp (Prod.mk.inj h).1
    exact ⟨_, rfl⟩
  | _ => cases ha

end Lobby

namespace Game

variable {σ : Type} [RandomSource σ] {r : Rules} {past : List Deed} {g : Game}

/-- **A lobby lists who is there.** -/
theorem History.players_eq_roster (h : History (.new r) past g) {l : Lobby}
    (hg : g = .lobby l) : l.players = Action.roster (past.map (·.action)) := by
  induction h generalizing l with
  | start =>
    cases hg
    rfl
  | @act past d hpast hd ih =>
    obtain ⟨before, a, step⟩ := d
    obtain ⟨σ, _, s, t, happly⟩ := hd
    have hplay : before.play a s = (.ok step, t) := play_of_apply happly
    rw [List.map_append, List.map_singleton]
    cases before with
    | lobby l₀ => exact Lobby.players_of_play (ih rfl) hplay hg
    | running g =>
      -- a game under way does not go back to the lobby
      have hkept := (Running.moves_of_play hplay).table
      rw [Step.Keeps, show step.game = .lobby l from hg] at hkept
      exact hkept.elim
    | completed v => cases hplay

theorem exists_fed_eq_lobby (l : Lobby) {actions : List Action}
    (h : ∀ a ∈ actions, a.comesOrGoes) (s : σ) :
    ∃ l', (lobby l).fed actions s = .lobby l' := by
  induction actions generalizing l s with
  | nil => exact ⟨l, rfl⟩
  | cons a rest ih =>
    obtain ⟨ha, hrest⟩ := List.forall_mem_cons.mp h
    have hnext : ∃ l', (lobby l).next ((lobby l).apply a s).1 = .lobby l' := by
      rcases happly : (lobby l).apply a s with ⟨cause | step, t⟩
      · exact ⟨l, rfl⟩
      · exact Lobby.exists_of_comesOrGoes ha (play_of_apply happly)
    obtain ⟨l', hl'⟩ := hnext
    rw [fed, hl']
    exact ih l' hrest _

end Game

/-! ## The start -/

namespace Rules

variable {r : Rules} {n : ℕ}

/-- **Every size that a valid rule set allows has a configuration.** -/
theorem Valid.isSome_configurationFor (h : r.Valid) :
    (r.configurationFor n).isSome ↔ r.minPlayers.toNat ≤ n ∧ n ≤ r.maxPlayers.toNat := by
  constructor
  · intro hsome
    obtain ⟨c, hc⟩ := Option.isSome_iff_exists.mp hsome
    obtain ⟨hmin, hmax, -⟩ := configurationFor_eq_some hc
    exact ⟨hmin, hmax⟩
  · rintro ⟨hmin, hmax⟩
    have hflaw := h.bracketFlaw_eq_none hmin hmax
    have hallowed : ¬ (n < r.minPlayers.toNat ∨ r.maxPlayers.toNat < n) := by omega
    rw [configurationFor, if_neg hallowed, Option.isSome_map]
    cases hbracket : r.bracketFor n with
    | none => simp [bracketFlaw, hbracket] at hflaw
    | some bracket => rfl

/-- The configuration of a size is that of the first bracket that covers it. -/
theorem exists_bracket_of_configurationFor {c : Configuration}
    (h : r.configurationFor n = some c) :
    ∃ earlier bracket later, r.brackets = earlier ++ bracket :: later ∧ bracket.covers n ∧
      (∀ other ∈ earlier, other.covers n = false) ∧ c.fascists = bracket.fascists := by
  obtain ⟨-, -, bracket, hbracket, hfascists, -⟩ := configurationFor_eq_some h
  obtain ⟨hcovers, earlier, later, hcut, hfirst⟩ :=
    List.find?_eq_some_iff_append.mp hbracket
  refine ⟨earlier, bracket, later, hcut, hcovers, fun other hother => ?_, hfascists⟩
  simpa using hfirst other hother

end Rules

namespace RoleMap

variable {fascists : ℕ} {order : List Seat} {σ : Type} [RandomSource σ] {t : Seating}

/-- The roles that are dealt are those of the places. -/
theorem values_dealtTo (fascists : ℕ) (h : order.Nodup) :
    (dealtTo fascists order).values.Perm ((List.range order.length).map (dealt fascists)) := by
  have hperm := Table.values_ofList_perm ((map_fst_dealt fascists order).symm ▸ h)
  have hplaces : ((order.zipIdx.map fun e => (e.1, dealt fascists e.2)).map (·.2)) =
      (order.zipIdx.map (·.2)).map (dealt fascists) := by
    rw [List.map_map, List.map_map]
    rfl
  rwa [hplaces, List.zipIdx_map_snd, ← List.range_eq_range'] at hperm

/-- **How the first places are dealt**: one Hitler, then fascists while there are any. -/
theorem count_dealt (fascists n : ℕ) :
    ((List.range (n + 1)).map (dealt fascists)).count .plainFascist = min fascists n ∧
      ((List.range (n + 1)).map (dealt fascists)).count .liberal = n - fascists := by
  induction n with
  | zero => simp [dealt]
  | succ n ih =>
    obtain ⟨hfascists, hliberals⟩ := ih
    rw [List.range_succ, List.map_append, List.count_append, List.count_append, hfascists,
      hliberals, List.map_singleton, dealt, if_neg n.succ_ne_zero]
    split
    · constructor
      · rw [List.count_singleton_self]
        omega
      · rw [List.count_singleton, if_neg (by decide)]
        omega
    · constructor
      · rw [List.count_singleton, if_neg (by decide)]
        omega
      · rw [List.count_singleton_self]
        omega

/-- **What a deal comes to**: as many fascists as were asked for, and liberals for all who
are left once Hitler is dealt. -/
theorem count_of_deal {s u : σ} {m : RoleMap} (h : deal t.seats fascists s = (.ok m, u)) :
    m.roles.values.count .plainFascist = fascists ∧
      m.roles.values.count .liberal + fascists + 1 = t.seats.length := by
  obtain ⟨hplayers, -, order, horder, rfl⟩ := exists_of_deal h
  have hdealt := values_dealtTo fascists (horder.nodup_iff.mpr t.names.nodup_keys)
  obtain ⟨n, hn⟩ : ∃ n, t.seats.length = n + 1 := Nat.exists_eq_succ_of_ne_zero (by omega)
  obtain ⟨hfascists, hliberals⟩ := count_dealt fascists n
  rw [horder.length_eq, hn] at hdealt
  rw [hdealt.count_eq, hdealt.count_eq, hfascists, hliberals]
  omega

end RoleMap

namespace Seating

variable {names : List String} {t : Seating}

theorem entries_of_ofNames (h : ofNames names = .ok t) (hsize : names.length < UInt32.size) :
    t.names.entries = numbered names := by
  rw [ofNames_eq hsize, ofTable] at h
  split at h
  · cases h
    rfl
  · cases h

/-- **The seats are taken from one upwards**, -/
theorem map_rank_seats_of_ofNames (h : ofNames names = .ok t)
    (hsize : names.length < UInt32.size) :
    t.seats.map rank = List.range' 1 names.length := by
  have hranks : t.seats.map rank = (names.zipIdx.map (·.2)).map (1 + ·) := by
    rw [seats, Table.keys, entries_of_ofNames h hsize, numbered, List.map_map, List.map_map,
      List.map_map]
    refine List.map_congr_left fun e he => ?_
    have hplace := (List.mem_zipIdx he).2.1
    have hnumber : (UInt32.ofNat (e.2 + 1)).toNat = e.2 + 1 :=
      UInt32.toNat_ofNat_of_lt' (by omega)
    exact hnumber.trans (Nat.add_comm ..)
  rw [hranks, List.zipIdx_map_snd, List.map_add_range']

/-- and in the order of the names. -/
theorem values_of_ofNames (h : ofNames names = .ok t) (hsize : names.length < UInt32.size) :
    t.names.values = names := by
  rw [Table.values, entries_of_ofNames h hsize, map_snd_numbered]

end Seating

/-- **What a start has dealt** to a lobby of names. -/
structure Running.Dealt (r : Rules) (names : List String) (g : Running) : Prop where
  /-- The seats are those from one to the number of names. -/
  seats : g.board.seating.seats.map rank = List.range' 1 names.length
  /-- Seat by seat, the names sit in the order of the lobby. -/
  named : g.board.seating.names.values = names
  inverse : ∀ name s, g.board.seating.seatOf? name = some s ↔
    g.board.seating.nameOf? s = some name
  /-- Everybody has a role. -/
  covered : g.board.roles.seats = g.board.seating.seats
  hitler : g.board.roles.hitlers = 1
  /-- The first bracket that covers the table says how many fascists there are. -/
  fascists : ∃ earlier bracket later, r.brackets = earlier ++ bracket :: later ∧
    bracket.covers names.length ∧ (∀ other ∈ earlier, other.covers names.length = false) ∧
    g.board.roles.roles.values.count .plainFascist = bracket.fascists.toNat
  liberals : 1 ≤ g.board.roles.roles.values.count .liberal
  drawPile : g.board.deck.drawPile.count .liberal = 6 ∧ g.board.deck.drawPile.count .fascist = 11
  discards : g.board.deck.discardPile = []
  track : g.board.track = ⟨0, 0⟩
  tracker : g.board.election.tracker = 0
  unlimited : g.board.election.termLimited = none
  nomination : g.board.election.ticker ∈ g.board.seating.seats ∧
    g.phase = .nomination g.board.election.ticker

/-- **What is on the table after a start.** -/
theorem Lobby.Sound.dealt_of_start {r : Rules} {l : Lobby} (hl : l.Sound r) (hr : r.Valid)
    {σ : Type} [RandomSource σ] {actor : String} {s t : σ} {step : Step}
    (h : l.start actor s = (.ok step, t)) :
    ∃ g, step.game = .running g ∧ g.Dealt r l.players := by
  obtain ⟨c, g, hc, hgame, hsound, hfresh⟩ := hl.fresh_of_start hr h
  obtain ⟨c', seating, roles, deck, lot, -, hseating, ⟨_, _, hroles⟩, ⟨s', hdeck⟩, -, rfl⟩ :=
    exists_of_start h
  cases hgame
  obtain rfl : c' = c := hfresh.config
  obtain ⟨earlier, bracket, later, hcut, hcovers, hskipped, hbracket⟩ :=
    Rules.exists_bracket_of_configurationFor hc
  obtain ⟨hfascists, hothers⟩ := RoleMap.count_of_deal hroles
  have hliberals : 1 ≤ roles.roles.values.count .liberal := by
    have hleft := hr.fascists_lt hc
    have hsize : seating.seats.length = l.players.length :=
      seating.length_seats.trans hfresh.living
    omega
  have hpile (p : Policy) : deck.drawPile.count p = p.cards := by
    rw [hdeck, (Deck.standard_perm s').count_eq, Deck.count_box]
  have hdiscards : deck.discardPile = [] := by rw [hdeck, Deck.standard_discardPile]
  obtain ⟨first, hfirst, hphase⟩ := hfresh.nomination
  cases hphase
  exact ⟨_, rfl, {
    seats := Seating.map_rank_seats_of_ofNames hseating (hl.length_lt hr)
    named := Seating.values_of_ofNames hseating (hl.length_lt hr)
    inverse := fun _ _ => Seating.seatOf?_eq_some_iff hsound.board.distinct
    covered := hsound.board.covered
    hitler := hsound.board.hitler
    fascists := ⟨earlier, bracket, later, hcut, hcovers, hskipped, hbracket ▸ hfascists⟩
    liberals := hliberals
    drawPile := ⟨hpile .liberal, hpile .fascist⟩
    discards := hdiscards
    track := rfl
    tracker := rfl
    unlimited := rfl
    nomination := ⟨hfirst, rfl⟩ }⟩

/-- **From the empty lobby to the first nomination.** Under a valid rule set, whatever is
tried of joins and leaves, the lobby lists those who have joined and have not left since,
each once, in the order in which they last joined and no more than may play. Who is not
there may join while there is room, and who is there may leave. Whoever is there may start
as soon as enough are, and then, on any luck, the game that the rules describe is dealt. -/
theorem Rules.Valid.gathers_and_deals {r : Rules} (hr : r.Valid) {actions : List Action}
    (hactions : ∀ a ∈ actions, a.comesOrGoes) {σ : Type} [RandomSource σ] (s : σ) :
    ∃ l accepted, (Game.new r).fed actions s = .lobby l ∧
      accepted = ((Game.new r).deeds actions s).map (·.action) ∧
      l.players = Action.roster accepted ∧
      (∀ name, name ∈ l.players ↔ ∃ earlier later,
        accepted = earlier ++ .join name :: later ∧ .leave name ∉ later) ∧
      l.players.Nodup ∧ l.players.length ≤ r.maxPlayers.toNat ∧
      ∀ {τ : Type} [RandomSource τ] (t : τ) (name : String),
        (Game.Accepts (.lobby l) (.join name) t ↔
          name ∉ l.players ∧ l.players.length < r.maxPlayers.toNat) ∧
        (Game.Accepts (.lobby l) (.leave name) t ↔ name ∈ l.players) ∧
        (Game.Accepts (.lobby l) (.start name) t ↔
          name ∈ l.players ∧ r.minPlayers.toNat ≤ l.players.length) ∧
        ∀ step u, Game.apply (.lobby l) (.start name) t = (.ok step, u) →
          ∃ g, step.game = .running g ∧ g.Dealt r l.players := by
  obtain ⟨l, hl⟩ := Game.exists_fed_eq_lobby (.opened r) hactions s
  have hfed : (Game.new r).fed actions s = .lobby l := hl
  have hpast : Game.History (.new r) ((Game.new r).deeds actions s) (.lobby l) :=
    hfed ▸ .deeds _ actions s
  have hsound : Game.Sound r (.lobby l) := (hpast.reachable .new).sound hr
  have hlobby : l.Sound r := hsound
  have hplayers := hpast.players_eq_roster rfl
  refine ⟨l, _, hfed, rfl, hplayers, fun name => ?_, hlobby.distinct, hlobby.size,
    fun t name => ⟨?_, ?_, ?_, fun step u happly => ?_⟩⟩
  · rw [hplayers, Action.mem_roster_iff]
  · rw [hsound.accepts_iff hr]
    simp [Game.Allows, Lobby.Allows, Lobby.isFull, hlobby.rules]
  · rw [hsound.accepts_iff hr]
    rfl
  · rw [hsound.accepts_iff hr, Game.Allows, Lobby.Allows, hlobby.rules,
      hr.isSome_configurationFor, and_iff_left hlobby.size]
  · exact hlobby.dealt_of_start hr (Game.play_of_apply happly)

/-- Five join, one of them tries to join again, and another leaves and comes back. -/
def openingActions : List Action :=
  Lobby.ofFive.players.map .join ++ [.join "a", .leave "b", .join "b"]

/-- Who came back sits on the last seat and may start the game. -/
theorem Rules.Valid.gathers_and_deals_standard :
    Rules.standard.Valid ∧ (∀ a ∈ openingActions, a.comesOrGoes) ∧
      ∃ l step g, ∃ u : Script,
        (Game.new .standard).fed openingActions (Script.ofWords []) = .lobby l ∧
        l.players = ["a", "c", "d", "e", "b"] ∧
        Game.apply (.lobby l) (.start "b") (Script.ofWords []) = (.ok step, u) ∧
        step.game = .running g ∧ g.Dealt .standard ["a", "c", "d", "e", "b"] := by
  have hr : Rules.standard.Valid := by decide
  have hactions : ∀ a ∈ openingActions, a.comesOrGoes := by decide
  obtain ⟨l, accepted, hfed, rfl, hplayers, -, -, -, hstarts⟩ :=
    hr.gathers_and_deals hactions (Script.ofWords [])
  have hroster : Action.roster (((Game.new .standard).deeds openingActions
      (Script.ofWords [])).map (·.action)) = ["a", "c", "d", "e", "b"] := by
    decide +kernel
  rw [hroster] at hplayers
  obtain ⟨-, -, haccepts, hdealt⟩ := hstarts (Script.ofWords []) "b"
  obtain ⟨step, u, happly⟩ := haccepts.mpr (by rw [hplayers]; decide)
  obtain ⟨g, hgame, hg⟩ := hdealt step u happly
  exact ⟨hr, hactions, l, step, g, u, hfed, hplayers, happly, hgame, hplayers ▸ hg⟩

end SecretHitler
