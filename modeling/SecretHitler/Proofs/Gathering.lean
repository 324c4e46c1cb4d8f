import SecretHitler.Play.Apply
import SecretHitler.Proofs.Soundness
import SecretHitler.Rules.Validity
import SecretHitler.Table.Filling
import Mathlib.Data.List.GetD
/-!
# How a game begins

A lobby holds distinct names, no more than its rules allow. What a valid rule
set says of a table size can be played (`Rules.Valid.playable`), and a start
under it deals a sound game: names are seated from one upwards, one of them is
Hitler, the deck is a shuffled box and the first candidate is somebody there.
-/

namespace SecretHitler

namespace Rules

variable {r : Rules} {n : ℕ} {c : Configuration} {bracket : Bracket}

/-- What a valid rule set satisfies. -/
theorem Valid.bounds (h : r.Valid) :
    r.maxPlayers.toNat ≤ maxTable ∧ 0 < r.liberalGoal ∧ 0 < r.fascistGoal ∧
      0 < r.chaosThreshold ∧ 2 * standardDraw ≤ r.cardsInPlay ∧
      r.tableSizes.findSome? r.bracketFlaw = none := by
  unfold Valid flaw at h
  dsimp only at h
  split at h
  · cases h
  split at h
  · cases h
  split at h
  · cases h
  split at h
  · cases h
  split at h
  · cases h
  split at h
  · cases h
  rename_i hlimits _ hpos _ _ hcards
  simp only [not_or, ← UInt32.pos_iff_ne_zero] at hpos
  refine ⟨by omega, ?_, ?_, hpos.2.2, by omega, h⟩
  · rw [UInt32.lt_iff_toNat_lt, UInt32.toNat_zero]
    omega
  · rw [UInt32.lt_iff_toNat_lt, UInt32.toNat_zero]
    omega

theorem configurationFor_eq_some (h : r.configurationFor n = some c) :
    r.minPlayers.toNat ≤ n ∧ n ≤ r.maxPlayers.toNat ∧
      ∃ bracket, r.bracketFor n = some bracket ∧ c.fascists = bracket.fascists ∧
        c.liberalGoal = r.liberalGoal ∧ c.fascistGoal = r.fascistGoal ∧
        c.chaosThreshold = r.chaosThreshold := by
  rw [configurationFor] at h
  split at h
  · cases h
  rename_i hsize
  obtain ⟨bracket, hbracket, rfl⟩ := Option.map_eq_some_iff.mp h
  exact ⟨by omega, by omega, bracket, hbracket, rfl, rfl, rfl, rfl⟩

/-- **A valid rule set can be played.** -/
theorem Valid.playable (h : r.Valid) (hc : r.configurationFor n = some c) : c.Playable := by
  obtain ⟨_, hliberal, hfascist, hchaos, hcards, _⟩ := h.bounds
  obtain ⟨_, _, _, _, _, hl, hf, ht⟩ := configurationFor_eq_some hc
  refine ⟨fun p => ?_, ht ▸ hchaos, ?_⟩
  · cases p with
    | liberal =>
      rw [Configuration.goal, hl]
      exact hliberal
    | fascist =>
      rw [Configuration.goal, hf]
      exact hfascist
  rw [hl, hf]
  simp only [cardsInPlay, standardDraw] at hcards ⊢
  omega

/-- No size that a valid rule set allows has a flaw. -/
theorem Valid.bracketFlaw_eq_none (h : r.Valid) (hmin : r.minPlayers.toNat ≤ n)
    (hmax : n ≤ r.maxPlayers.toNat) : r.bracketFlaw n = none := by
  obtain ⟨_, _, _, _, _, hflaws⟩ := h.bounds
  refine List.findSome?_eq_none_iff.mp hflaws n ?_
  rw [tableSizes, List.mem_range'_1]
  omega

/-- And it leaves a liberal at every table. -/
theorem Valid.fascists_lt (h : r.Valid) (hc : r.configurationFor n = some c) :
    c.fascists.toNat + 1 < n := by
  obtain ⟨hmin, hmax, bracket, hbracket, hfascists, _⟩ := configurationFor_eq_some hc
  have hflaw := h.bracketFlaw_eq_none hmin hmax
  simp only [bracketFlaw, hbracket, ite_eq_right_iff, reduceCtorEq, imp_false] at hflaw
  rw [hfascists]
  omega

end Rules

/-- Nothing is erased where nothing occurs twice. -/
theorem eraseDups_of_nodup {l : List String} (h : l.Nodup) : l.eraseDups = l := by
  induction l with
  | nil => rfl
  | cons name rest ih =>
    obtain ⟨hname, hrest⟩ := List.nodup_cons.mp h
    have hkept : (rest.filter fun other => !other == name) = rest := by
      refine List.filter_eq_self.mpr fun other hother => ?_
      have hne : other ≠ name := fun heq => hname (heq ▸ hother)
      simpa using hne
    rw [List.eraseDups_cons, hkept, ih hrest]

namespace Seating

variable {names : List String}

/-- Names on the seats that they take, from one upwards. -/
def numbered (names : List String) : List (Seat × String) :=
  names.zipIdx.map fun e => (⟨.ofNat (e.2 + 1)⟩, e.1)

theorem sorted_numbered (hsize : names.length < UInt32.size) :
    (numbered names).Pairwise fun a b => rank a.1 < rank b.1 := by
  have hplaces : (names.zipIdx.map (·.2)).Pairwise (· < ·) := by
    rw [List.zipIdx_map_snd]
    exact List.pairwise_lt_range'
  refine List.pairwise_map.mpr ((List.pairwise_map.mp hplaces).imp_of_mem fun ha hb hlt => ?_)
  -- a place below the size of the lobby is a word
  have ha' := (List.mem_zipIdx ha).2.1
  have hb' := (List.mem_zipIdx hb).2.1
  show (UInt32.ofNat _).toNat < (UInt32.ofNat _).toNat
  rw [UInt32.toNat_ofNat_of_lt' (by omega), UInt32.toNat_ofNat_of_lt' (by omega)]
  omega

theorem map_snd_numbered (names : List String) : (numbered names).map (·.2) = names := by
  rw [numbered, List.map_map]
  exact List.zipIdx_map_fst 0 names

/-- As long as there is a seat for everybody, none is taken twice. -/
theorem ofNames_eq (hsize : names.length < UInt32.size) :
    ofNames names = ofTable ⟨numbered names, sorted_numbered hsize⟩ :=
  congrArg ofTable (Table.ofList_eq_of_perm (t := ⟨_, sorted_numbered hsize⟩) (.refl _))

/-- **The seating of a lobby**: every name has a seat of its own. -/
theorem ofNames_eq_ok (hnodup : names.Nodup) (hsize : names.length < UInt32.size) :
    ∃ seating : Seating, ofNames names = .ok seating ∧ seating.Distinct ∧
      seating.size = names.length := by
  let table : Table Seat String := ⟨numbered names, sorted_numbered hsize⟩
  have hvalues : table.values = names := map_snd_numbered names
  have hdistinct : table.values.Nodup := hvalues ▸ hnodup
  refine ⟨⟨table⟩, ?_, hdistinct, ?_⟩
  · rw [ofNames_eq hsize, ofTable, eraseDups_of_nodup hdistinct]
    exact if_pos (List.length_map ..).symm
  · exact (List.length_map ..).trans List.length_zipIdx

end Seating

namespace RoleMap

variable {fascists : ℕ} {order : List Seat}

/-- The roles dealt to seats in order. -/
def dealtTo (fascists : ℕ) (order : List Seat) : Table Seat Role :=
  .ofList (order.zipIdx.map fun e => (e.1, dealt fascists e.2))

theorem map_fst_dealt (fascists : ℕ) (order : List Seat) :
    (order.zipIdx.map fun e => (e.1, dealt fascists e.2)).map (·.1) = order := by
  rw [List.map_map]
  exact List.zipIdx_map_fst 0 order

/-- Every seat is dealt a role. -/
theorem keys_dealtTo (h : order.Nodup) : (dealtTo fascists order).keys.Perm order := by
  have hperm := Table.keys_ofList_perm ((map_fst_dealt fascists order).symm ▸ h)
  rwa [map_fst_dealt] at hperm

/-- The first one is Hitler, and nobody else. -/
theorem hitlers_dealtTo (h : order.Nodup) (hne : order ≠ []) :
    (⟨dealtTo fascists order⟩ : RoleMap).hitlers = 1 := by
  have hperm := Table.values_ofList_perm ((map_fst_dealt fascists order).symm ▸ h)
  rw [hitlers, dealtTo, hperm.count_eq]
  cases order with
  | nil => exact absurd rfl hne
  | cons first rest =>
    rw [List.zipIdx_cons, List.map_map, List.map_cons, List.count_cons]
    have hrest : ((rest.zipIdx (0 + 1)).map
        (Prod.snd ∘ fun e => (e.1, dealt fascists e.2))).count .hitler = 0 := by
      -- everybody after the first has a place above zero
      refine List.count_eq_zero.mpr fun hmem => ?_
      obtain ⟨e, he, hrole⟩ := List.mem_map.mp hmem
      have hplace := (List.mem_zipIdx he).1
      simp only [Function.comp, dealt, if_neg (show e.2 ≠ 0 by omega)] at hrole
      split at hrole <;> cases hrole
    rw [hrest]
    rfl

variable {σ : Type} [RandomSource σ] {t : Seating}

theorem ofTable_dealtTo (h : order.Perm t.seats) (hplayers : fascists < t.seats.length) :
    ofTable (dealtTo fascists order) = .ok ⟨dealtTo fascists order⟩ := by
  have hne : order ≠ [] := by
    rintro rfl
    rw [← h.length_eq] at hplayers
    cases hplayers
  exact ofTable_eq_ok.mpr ⟨rfl, hitlers_dealtTo (h.nodup_iff.mpr t.names.nodup_keys) hne⟩

/-- A deal deals to the seats in some order. -/
theorem exists_of_deal {seats : List Seat} {s u : σ} {m : RoleMap}
    (h : deal seats fascists s = (.ok m, u)) :
    fascists < seats.length ∧ m.hitlers = 1 ∧
      ∃ order : List Seat, order.Perm seats ∧ m = ⟨dealtTo fascists order⟩ := by
  rw [deal] at h
  split at h
  · rename_i hplayers
    obtain ⟨order, _, horder, hend⟩ := Draws.bind_eq_ok.mp h
    obtain ⟨rfl, hone⟩ := ofTable_eq_ok.mp (Prod.mk.inj hend).1
    rw [Draws.draw_apply, Prod.mk.injEq, Except.ok.injEq] at horder
    exact ⟨hplayers, hone, order, horder.1 ▸ RandomSource.shuffle_perm .., rfl⟩
  · cases h

/-- **A deal covers the table**: everybody has a role, and one of them is
Hitler. -/
theorem deal_covers {s u : σ} {m : RoleMap} (hdeal : deal t.seats fascists s = (.ok m, u)) :
    m.seats = t.seats ∧ m.hitlers = 1 := by
  obtain ⟨-, hone, order, hperm, rfl⟩ := exists_of_deal hdeal
  refine ⟨Table.keys_eq_of_perm ?_, hone⟩
  exact (keys_dealtTo (hperm.nodup_iff.mpr t.names.nodup_keys)).trans hperm

theorem deal_succeeds (hplayers : fascists < t.seats.length) :
    (deal t.seats fascists : Draws σ RoleMap).Succeeds := by
  rw [deal, if_pos hplayers]
  refine .bind (.draw _) fun order _ _ horder => .lift ⟨_, ofTable_dealtTo ?_ hplayers⟩
  rw [Draws.draw_apply, Prod.mk.injEq, Except.ok.injEq] at horder
  exact horder.1 ▸ RandomSource.shuffle_perm ..

end RoleMap

/-! ## The start -/

/-- What a lobby of a rule set holds: distinct names, no more than it allows. -/
structure Lobby.Sound (r : Rules) (l : Lobby) : Prop where
  rules : l.rules = r
  distinct : l.players.Nodup
  size : l.players.length ≤ r.maxPlayers.toNat

/-- **A fresh game** of so many players under a configuration: nothing has been
enacted and nobody has been nominated. -/
structure Running.Fresh (c : Configuration) (n : ℕ) (g : Running) : Prop where
  config : g.board.config = c
  living : g.board.living = n
  track : g.board.track = {}
  patient : g.board.election.tracker = 0
  uninvestigated : g.board.investigated = .empty
  nomination : ∃ first ∈ g.board.seating.seats, g.phase = .nomination first

namespace Lobby

variable {σ : Type} [RandomSource σ] {r : Rules} {l : Lobby} {actor : String}

theorem sound_opened (r : Rules) : (opened r).Sound r := ⟨rfl, .nil, Nat.zero_le _⟩

theorem configuration_eq_ok {c : Configuration} :
    l.configuration actor = .ok c ↔
      actor ∈ l.players ∧ l.rules.configurationFor l.players.length = some c := by
  rw [configuration]
  split
  · rename_i habsent
    simp only [contains, Bool.not_eq_true', decide_eq_false_iff_not,
      List.contains_eq_mem] at habsent
    simp [habsent]
  rename_i hpresent
  have hpresent : actor ∈ l.players := by simpa [contains] using hpresent
  split
  · rename_i hfew
    have hnone : l.rules.configurationFor l.players.length = none := if_pos (.inl hfew)
    simp [hnone]
  · simp [hpresent]

theorem configuration_rejects (h : ¬ (actor ∈ l.players ∧
    (l.rules.configurationFor l.players.length).isSome)) : (l.configuration actor).Rejects := by
  rw [configuration]
  split
  · exact Attempt.rejects_reject _
  rename_i hpresent
  have hpresent : actor ∈ l.players := by simpa [contains] using hpresent
  split
  · exact Attempt.rejects_reject _
  · refine Attempt.rejects_orReject ?_
    simpa [hpresent] using h

/-- There is a seat for everybody. -/
theorem Sound.length_lt (hl : l.Sound r) (hr : r.Valid) : l.players.length < UInt32.size := by
  have hsize := hl.size
  have hmax := hr.bounds.1
  simp only [maxTable, UInt32.size] at hmax ⊢
  omega

/-- A table that the rules seat: who sits there, and who is dealt what. -/
theorem Sound.seated (hl : l.Sound r) (hr : r.Valid) {c : Configuration}
    (hc : r.configurationFor l.players.length = some c) :
    ∃ seating : Seating, Seating.ofNames l.players = .ok seating ∧ seating.Distinct ∧
      seating.size = l.players.length ∧ c.fascists.toNat < seating.seats.length := by
  obtain ⟨seating, hseating, hdistinct, hsize⟩ :=
    Seating.ofNames_eq_ok hl.distinct (hl.length_lt hr)
  refine ⟨seating, hseating, hdistinct, hsize, ?_⟩
  have := hr.fascists_lt hc
  rw [Seating.length_seats]
  omega

/-- What a start has drawn. -/
theorem exists_of_start {s t : σ} {step : Step} (h : l.start actor s = (.ok step, t)) :
    ∃ c seating roles deck lot, l.configuration actor = .ok c ∧
      Seating.ofNames l.players = .ok seating ∧
      (∃ s u : σ, RoleMap.deal seating.seats c.fascists.toNat s = (.ok roles, u)) ∧
      (∃ s : σ, deck = (Deck.standard s).1) ∧
      (∃ s : σ, lot = (RandomSource.below64 seating.seats.length s).1) ∧
      step = (Board.beginElection ⟨c, seating, roles, {}, deck,
        .start (seating.seats.getD lot default), .empty⟩
          (seating.seats.getD lot default) false).after [.gameStarted l.size] := by
  obtain ⟨c, _, hconfig, hseated⟩ := Draws.bind_eq_ok.mp h
  obtain ⟨seating, _, hseating, hdealt⟩ := Draws.bind_eq_ok.mp hseated
  obtain ⟨roles, _, hroles, hshuffled⟩ := Draws.bind_eq_ok.mp hdealt
  obtain ⟨deck, _, hdeck, hdrawn⟩ := Draws.bind_eq_ok.mp hshuffled
  obtain ⟨lot, _, hlot, hset⟩ := Draws.bind_eq_ok.mp hdrawn
  obtain ⟨b, _, hboard, hret⟩ := Draws.bind_eq_ok.mp hset
  obtain ⟨_, _, hb⟩ := Attempt.bind_eq_ok.mp (Prod.mk.inj hboard).1
  cases hb
  cases hret
  rw [Draws.draw_apply, Prod.mk.injEq, Except.ok.injEq] at hdeck hlot
  exact ⟨c, seating, roles, deck, lot, (Prod.mk.inj hconfig).1, (Prod.mk.inj hseating).1,
    ⟨_, _, hroles⟩, ⟨_, hdeck.1.symm⟩, ⟨_, hlot.1.symm⟩, rfl⟩

/-- The board of a table that has just been dealt is sound. -/
theorem sound_of_deal {c : Configuration} {seating : Seating} {roles : RoleMap} {deck : Deck}
    {first : Seat} (hc : c.Playable) (hdistinct : seating.Distinct)
    (hcovered : roles.seats = seating.seats) (hone : roles.hitlers = 1) {s : σ}
    (hdeck : deck = (Deck.standard s).1) (hfirst : first ∈ seating.seats) :
    Running.Sound ⟨⟨c, seating, roles, {}, deck, .start first, .empty⟩, .nomination first⟩ := by
  have hpile : deck.drawPile.Perm Deck.box := hdeck ▸ Deck.standard_perm s
  have hstock : standardDraw ≤ deck.drawPile.length := by
    rw [hpile.length_eq]
    decide
  have hbelow : ∀ p, Track.count {} p < c.goal p := fun p => by
    cases p with
    | liberal => exact hc.goal_pos .liberal
    | fascist => exact hc.goal_pos .fascist
  refine ⟨⟨hc, hbelow, hc.chaos_pos, hdistinct, hcovered, hone, hstock⟩, hfirst, fun p => ?_⟩
  have hzero : (Track.count {} p).toNat = 0 := by cases p <;> rfl
  have hdiscards : deck.discardPile.count p = 0 := by
    rw [hdeck, Deck.standard_discardPile, List.count_nil]
  show (Track.count {} p).toNat + (deck.drawPile.count p + deck.discardPile.count p) + 0 = p.cards
  rw [hzero, hdiscards, hpile.count_eq, Deck.count_box]
  omega

/-- **A start deals a fresh game**, and a sound one. -/
theorem Sound.fresh_of_start (hl : l.Sound r) (hr : r.Valid) {s t : σ} {step : Step}
    (h : l.start actor s = (.ok step, t)) :
    ∃ c g, r.configurationFor l.players.length = some c ∧ step.game = .running g ∧ g.Sound ∧
      g.Fresh c l.players.length := by
  obtain ⟨c, seating, roles, deck, lot, hconfig, hseating, ⟨_, _, hroles⟩, ⟨_, hdeck⟩, ⟨_, hlot⟩,
    rfl⟩ := exists_of_start h
  have hc := (configuration_eq_ok.mp hconfig).2
  rw [hl.rules] at hc
  obtain ⟨seating', hseating', hdistinct, hsize, hplayers⟩ := hl.seated hr hc
  obtain rfl := Except.ok.inj (hseating.symm.trans hseating')
  obtain ⟨hcovered, hone⟩ := RoleMap.deal_covers hroles
  have hfirst : seating.seats.getD lot default ∈ seating.seats := by
    have hlt : lot < seating.seats.length := hlot ▸ RandomSource.below64_lt (by omega) _
    rw [List.getD_eq_getElem _ _ hlt]
    exact List.getElem_mem hlt
  exact ⟨c, _, hc, rfl, sound_of_deal (hr.playable hc) hdistinct hcovered hone hdeck hfirst,
    ⟨rfl, hsize, rfl, rfl, rfl, _, hfirst, rfl⟩⟩

/-- **A start that is allowed happens.** -/
theorem Sound.start_succeeds (hl : l.Sound r) (hr : r.Valid) {c : Configuration}
    (hactor : actor ∈ l.players) (hc : r.configurationFor l.players.length = some c) :
    (l.start actor : Draws σ Step).Succeeds := by
  obtain ⟨seating, hseating, _, _, hplayers⟩ := hl.seated hr hc
  have hconfig := configuration_eq_ok.mpr ⟨hactor, hl.rules ▸ hc⟩
  rw [start, hconfig, Draws.lift_ok_bind, hseating, Draws.lift_ok_bind]
  refine .bind (RoleMap.deal_succeeds hplayers) fun roles _ _ hroles => ?_
  refine .bind (.draw _) fun deck _ _ _ => .bind (.draw _) fun lot _ _ _ => ?_
  have hboard : (Board.setUp c seating roles deck
      (.start (seating.seats.getD lot default))).Succeeds := by
    refine Attempt.Succeeds.bind ⟨(), if_pos ?_⟩ fun _ _ => ⟨_, rfl⟩
    exact (RoleMap.deal_covers hroles).1
  exact .bind (.lift hboard) fun _ _ _ _ => .pure _

/-! ## The actions of a lobby -/

/-- **The actions that the rules allow** in a lobby. -/
def Allows (l : Lobby) : Action → Prop
  | .join name => name ∉ l.players ∧ l.isFull = false
  | .leave name => name ∈ l.players
  | .start actor => actor ∈ l.players ∧ (l.rules.configurationFor l.players.length).isSome
  | _ => False

theorem contains_iff {name : String} : l.contains name = true ↔ name ∈ l.players := by
  simp [contains]

theorem join_eq_ok {name : String} {step : Step} :
    l.join name = .ok step ↔ (name ∉ l.players ∧ l.isFull = false) ∧
      step = ⟨.lobby { l with players := l.players ++ [name] }, [.playerJoined name]⟩ := by
  rw [join]
  split
  · rename_i hpresent
    simp [contains_iff.mp hpresent]
  rename_i habsent
  rw [contains_iff] at habsent
  split
  · rename_i hfull
    simp [hfull]
  · rename_i hroom
    simp [habsent, hroom, eq_comm]

theorem leave_eq_ok {name : String} {step : Step} :
    l.leave name = .ok step ↔ name ∈ l.players ∧
      step = ⟨.lobby { l with players := l.players.filter (· ≠ name) }, [.playerLeft name]⟩ := by
  rw [leave]
  split
  · rename_i hpresent
    simp [contains_iff.mp hpresent, eq_comm]
  · rename_i habsent
    rw [contains_iff] at habsent
    simp [habsent]

/-- What is not allowed is refused, and nothing is drawn for it. -/
theorem play_rejects {a : Action} (h : ¬ l.Allows a) : (l.play a : Draws σ Step).Rejects := by
  cases a with
  | join name =>
    have hjoin : (l.join name).Rejects := by
      rw [join]
      split
      · exact Attempt.rejects_reject _
      rename_i habsent
      split
      · exact Attempt.rejects_reject _
      rename_i hroom
      exact absurd ⟨fun hmem => habsent (contains_iff.mpr hmem), Bool.not_eq_true _ ▸ hroom⟩ h
    exact Draws.rejects_lift hjoin
  | leave name => exact Draws.rejects_lift ⟨_, if_neg fun hmem => h (contains_iff.mp hmem)⟩
  | start actor => exact (Draws.rejects_lift (configuration_rejects h)).bind _
  | _ => exact Draws.rejects_lift (Attempt.rejects_reject _)

/-- What is allowed happens. -/
theorem Sound.play_succeeds (hl : l.Sound r) (hr : r.Valid) {a : Action} (h : l.Allows a) :
    (l.play a : Draws σ Step).Succeeds := by
  cases a with
  | join name => exact .lift ⟨_, join_eq_ok.mpr ⟨h, rfl⟩⟩
  | leave name => exact .lift ⟨_, if_pos (contains_iff.mpr h)⟩
  | start actor =>
    obtain ⟨hactor, hsome⟩ := h
    obtain ⟨c, hc⟩ := Option.isSome_iff_exists.mp hsome
    exact hl.start_succeeds hr hactor (hl.rules ▸ hc)
  | _ => exact absurd h id

/-- **What comes of an action in a lobby**: the lobby of other names, or a fresh
game. -/
theorem Sound.play_cases (hl : l.Sound r) (hr : r.Valid) {a : Action} {s t : σ} {step : Step}
    (h : l.play a s = (.ok step, t)) :
    (∃ l' : Lobby, step.game = .lobby l' ∧ l'.Sound r) ∨
      ∃ c g, r.configurationFor l.players.length = some c ∧ step.game = .running g ∧ g.Sound ∧
        g.Fresh c l.players.length := by
  cases a with
  | join name =>
    obtain ⟨⟨habsent, hroom⟩, rfl⟩ := join_eq_ok.mp (Prod.mk.inj h).1
    refine .inl ⟨_, rfl, hl.rules, ?_, ?_⟩
    · exact List.nodup_append.mpr ⟨hl.distinct, List.nodup_singleton _, fun other hother _ hname =>
        fun heq => habsent (by rw [← List.mem_singleton.mp hname, ← heq]; exact hother)⟩
    · have hless : l.players.length < r.maxPlayers.toNat := by
        simpa [isFull, hl.rules] using hroom
      rw [List.length_append]
      exact hless
  | leave name =>
    obtain ⟨-, rfl⟩ := leave_eq_ok.mp (Prod.mk.inj h).1
    exact .inl ⟨_, rfl, hl.rules, hl.distinct.filter _,
      Nat.le_trans (List.length_filter_le _ _) hl.size⟩
  | start actor => exact .inr (hl.fresh_of_start hr h)
  | _ => cases h

end Lobby

end SecretHitler
