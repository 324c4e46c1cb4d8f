import SecretHitler.Arena.Report
import SecretHitler.Proofs.Matches
import SecretHitler.Table.Filling
import Mathlib.Algebra.BigOperators.Group.Finset.Basic
/-!
# The totals of an arena

A tally counts outcomes twice, by party and by reason, and lists how long the matches were.
What it shows depends on the outcomes alone (`Tally.Records`), and these on the seeds: so
the tallies of two stretches of seeds add up to that of both together (`Arena.totals_add`).
A clock changes nothing but the times (`Arena.runTimed_untimed`).
-/

namespace SecretHitler

namespace Tally

section Counts

variable {κ : Type} [Ranked κ] [DecidableEq κ] {t : Table κ ℕ} {l : List κ}

/-- **A table that counts** how often each key comes in a list; one that never comes has no
entry. -/
def Counts (t : Table κ ℕ) (l : List κ) : Prop :=
  ∀ k, t.find? k = if l.count k = 0 then none else some (l.count k)

theorem counts_empty : Counts (.empty : Table κ ℕ) [] := fun _ => rfl

theorem Counts.getD (h : Counts t l) (k : κ) : (t.find? k).getD 0 = l.count k := by
  rw [h k]
  split
  · rename_i hnone
    exact hnone.symm
  · rfl

/-- One more under a key counts one more of it. -/
theorem Counts.bump (h : Counts t l) (k : κ) : Counts (bump t k) (l ++ [k]) := by
  intro k'
  rw [Tally.bump, h.getD]
  by_cases hk : k = k'
  · subst hk
    rw [Table.find?_insert_self, List.count_append, List.count_singleton_self,
      if_neg (Nat.succ_ne_zero _)]
  · have hsame : (l ++ [k]).count k' = l.count k' := by simp [hk]
    rw [Table.find?_insert_of_ne _ hk, h k', hsame]

/-- What a table counts is the entries, each with its key's count. -/
theorem Counts.entries (h : Counts t l) {e : κ × ℕ} (he : e ∈ t.entries) :
    e.2 = l.count e.1 ∧ e.1 ∈ l := by
  have hfound := Table.find?_eq_some_iff.mpr he
  rw [h e.1] at hfound
  split at hfound
  · cases hfound
  · rename_i hcount
    exact ⟨(Option.some.inj hfound).symm, List.count_pos_iff.mp (Nat.pos_of_ne_zero hcount)⟩

theorem Counts.mem_keys (h : Counts t l) {k : κ} : k ∈ t.keys ↔ k ∈ l := by
  rw [Table.mem_keys_iff, h k, ← List.count_pos_iff]
  split
  · rename_i hnone
    simp [hnone]
  · rename_i hcount
    simp [Nat.pos_of_ne_zero hcount]

/-- **The counts of some keys add up** to how many of the list are among them. -/
theorem Counts.sum_filter (h : Counts t l) (P : κ → Bool) :
    ((t.entries.filter fun e => P e.1).map (·.2)).sum = l.countP P := by
  have hcounts : (t.entries.filter fun e => P e.1).map (·.2) =
      (t.keys.filter P).map (l.filter P).count := by
    rw [Table.keys, List.filter_map, List.map_map]
    refine List.map_congr_left fun e he => ?_
    obtain ⟨hmem, hkey⟩ := List.mem_filter.mp he
    rw [(h.entries hmem).1]
    exact (List.count_filter hkey).symm
  have hkeys : (t.keys.filter P).toFinset = (l.filter P).toFinset := by
    ext k
    simp [h.mem_keys]
  rw [hcounts, ← List.sum_toFinset _ (t.nodup_keys.filter P), hkeys,
    List.sum_toFinset_count_eq_length, List.countP_eq_length_filter]

end Counts

/-- The victories of a kind. -/
def reasonsOf (t : Tally) (v : Victory) : ℕ := (t.reasons.find? v).getD 0

/-- **A tally of some outcomes**: their winners and reasons are counted, and their lengths
are listed in order. -/
structure Records (t : Tally) (outcomes : List Outcome) : Prop where
  wins : Counts t.wins (outcomes.map (·.victory.party))
  reasons : Counts t.reasons (outcomes.map (·.victory))
  actions : t.actions = outcomes.map (·.actions)

variable {t t₁ t₂ : Tally} {outcomes os₁ os₂ : List Outcome}

theorem records_start (games players : ℕ) :
    ({ games := games, players := players } : Tally).Records [] :=
  ⟨counts_empty, counts_empty, rfl⟩

/-- One more outcome is one more of each. -/
theorem Records.record (h : t.Records outcomes) (o : Outcome) :
    (t.record o).Records (outcomes ++ [o]) := by
  refine ⟨?_, ?_, ?_⟩
  · rw [List.map_append]
    exact h.wins.bump _
  · rw [List.map_append]
    exact h.reasons.bump _
  · rw [List.map_append, ← h.actions]
    rfl

/-- **Recording outcomes** adds them to those that were recorded before. -/
theorem Records.foldl (h : t.Records os₁) (os₂ : List Outcome) :
    (os₂.foldl Tally.record t).Records (os₁ ++ os₂) := by
  induction os₂ generalizing t os₁ with
  | nil => rwa [List.append_nil]
  | cons o rest ih =>
    rw [List.foldl_cons, List.append_cons]
    exact ih (h.record o)

/-- What is recorded leaves the size of the arena. -/
theorem foldl_record_size (t : Tally) (outcomes : List Outcome) :
    (outcomes.foldl Tally.record t).games = t.games ∧
      (outcomes.foldl Tally.record t).players = t.players := by
  induction outcomes generalizing t with
  | nil => exact ⟨rfl, rfl⟩
  | cons o rest ih => exact ih (t.record o)

/-- The wins of a party are the matches it won. -/
theorem Records.winsOf (h : t.Records outcomes) (p : Party) :
    t.winsOf p = outcomes.countP (·.victory.party = p) := by
  rw [Tally.winsOf, h.wins.getD, List.count, List.countP_map]
  rfl

theorem Records.reasonsOf (h : t.Records outcomes) (v : Victory) :
    t.reasonsOf v = outcomes.countP (·.victory = v) := by
  rw [Tally.reasonsOf, h.reasons.getD, List.count, List.countP_map]
  rfl

/-- Every match is won by one party. -/
theorem Records.sum_wins (h : t.Records outcomes) : t.wins.values.sum = outcomes.length := by
  have hall := h.wins.sum_filter fun _ => true
  rwa [List.filter_true, List.countP_true, List.length_map] at hall

/-- The wins of a party are the victories that belong to it. -/
theorem Records.sum_reasons (h : t.Records outcomes) (p : Party) :
    ((t.reasons.entries.filter fun e => e.1.party = p).map (·.2)).sum = t.winsOf p := by
  rw [h.reasons.sum_filter fun v => v.party = p, List.countP_map, h.winsOf]
  rfl

/-- **Tallies add up** where the outcomes of one follow on those of the other. -/
theorem Records.add (h : t.Records (os₁ ++ os₂)) (h₁ : t₁.Records os₁) (h₂ : t₂.Records os₂) :
    t.actions = t₁.actions ++ t₂.actions ∧ (∀ p, t.winsOf p = t₁.winsOf p + t₂.winsOf p) ∧
      ∀ v, t.reasonsOf v = t₁.reasonsOf v + t₂.reasonsOf v := by
  refine ⟨?_, fun p => ?_, fun v => ?_⟩
  · rw [h.actions, h₁.actions, h₂.actions, List.map_append]
  · rw [h.winsOf, h₁.winsOf, h₂.winsOf, List.countP_append]
  · rw [h.reasonsOf, h₁.reasonsOf, h₂.reasonsOf, List.countP_append]

/-- The tally without the times. -/
def untimed (t : Tally) : Tally := { t with durations := [] }

theorem untimed_timed (t : Tally) (start stop : Option ℕ) :
    (t.timed start stop).untimed = t.untimed := by
  cases start with
  | none => rfl
  | some start => cases stop <;> rfl

end Tally

namespace Arena

variable {rules : Rules} {lineup : Lineup ChaCha} {players games seed : ℕ} {t t' : Tally}

/-- **The outcomes of the seeds from one on**, in their order. -/
def Plays (rules : Rules) (lineup : Lineup ChaCha) (players seed : ℕ)
    (outcomes : List Outcome) : Prop :=
  ∀ i (h : i < outcomes.length), seed + i < UInt64.size ∧
    Match.ofSeed rules (botNames players) lineup (.ofNat (seed + i)) = .ok outcomes[i]

/-- A match of an arena is the match of its seed, if that is a word. -/
theorem game_eq_ok {o : Outcome} : game rules lineup players seed = .ok o ↔
    seed < UInt64.size ∧ Match.ofSeed rules (botNames players) lineup (.ofNat seed) = .ok o := by
  rw [game]
  split
  · rename_i hword
    rw [and_iff_right hword]
  · rename_i hlarge
    exact iff_of_false nofun fun h => hlarge h.1

theorem plays_cons {o : Outcome} {rest : List Outcome} :
    Plays rules lineup players seed (o :: rest) ↔
      game rules lineup players seed = .ok o ∧ Plays rules lineup players (seed + 1) rest := by
  rw [game_eq_ok]
  constructor
  · intro h
    refine ⟨h 0 (Nat.zero_lt_succ _), fun i hi => ?_⟩
    rw [Nat.add_right_comm]
    exact h (i + 1) (Nat.succ_lt_succ hi)
  · rintro ⟨hfirst, hrest⟩ i hi
    cases i with
    | zero => exact hfirst
    | succ i =>
      have hlater := hrest i (Nat.lt_of_succ_lt_succ hi)
      rwa [Nat.add_right_comm] at hlater

/-- One stretch of seeds after another. -/
theorem Plays.append {os₁ os₂ : List Outcome} (h₁ : Plays rules lineup players seed os₁)
    (h₂ : Plays rules lineup players (seed + os₁.length) os₂) :
    Plays rules lineup players seed (os₁ ++ os₂) := by
  intro i hi
  by_cases hfirst : i < os₁.length
  · rw [List.getElem_append_left hfirst]
    exact h₁ i hfirst
  · rw [List.length_append] at hi
    have hlater := h₂ (i - os₁.length) (by omega)
    rw [Nat.add_assoc, Nat.add_sub_of_le (Nat.le_of_not_lt hfirst)] at hlater
    rwa [List.getElem_append_right (Nat.le_of_not_lt hfirst)]

/-- One match, and then the others. -/
theorem runFrom_succ : Id.run (runFrom (pure none) rules lineup players (games + 1) seed t) =
    match game rules lineup players seed with
    | .ok o => Id.run (runFrom (pure none) rules lineup players games (seed + 1) (t.record o))
    | .error e => .error e := by
  rw [runFrom]
  cases game rules lineup players seed with
  | ok o => rfl
  | error e => rfl

/-- **An arena records the outcomes of its seeds**, or has no tally. -/
theorem runFrom_eq_ok : Id.run (runFrom (pure none) rules lineup players games seed t) = .ok t' ↔
    ∃ outcomes, outcomes.length = games ∧ Plays rules lineup players seed outcomes ∧
      t' = outcomes.foldl Tally.record t := by
  induction games generalizing seed t with
  | zero =>
    rw [runFrom, Id.run_pure, Except.ok.injEq]
    constructor
    · rintro rfl
      exact ⟨[], rfl, nofun, rfl⟩
    · rintro ⟨outcomes, hlength, -, rfl⟩
      rw [List.eq_nil_of_length_eq_zero hlength]
      rfl
  | succ games ih =>
    rw [runFrom_succ]
    cases hgame : game rules lineup players seed with
    | error e =>
      refine iff_of_false nofun ?_
      rintro ⟨outcomes, hlength, hplays, -⟩
      obtain ⟨o, rest, rfl⟩ := List.exists_cons_of_length_eq_add_one hlength
      rw [(plays_cons.mp hplays).1] at hgame
      cases hgame
    | ok o =>
      dsimp only
      rw [ih]
      constructor
      · rintro ⟨rest, rfl, hplays, rfl⟩
        exact ⟨o :: rest, rfl, plays_cons.mpr ⟨hgame, hplays⟩, rfl⟩
      · rintro ⟨outcomes, hlength, hplays, rfl⟩
        obtain ⟨first, rest, rfl⟩ := List.exists_cons_of_length_eq_add_one hlength
        obtain ⟨hfirst, hrest⟩ := plays_cons.mp hplays
        obtain rfl : o = first := Except.ok.inj (hgame.symm.trans hfirst)
        exact ⟨rest, Nat.succ.inj hlength, hrest, rfl⟩

/-- **The tally of an arena** is one of the outcomes of its seeds. -/
theorem exists_records (h : run rules lineup players games seed = .ok t) :
    ∃ outcomes, outcomes.length = games ∧ Plays rules lineup players seed outcomes ∧
      t.games = games ∧ t.players = players ∧ t.Records outcomes := by
  obtain ⟨outcomes, hlength, hplays, rfl⟩ := runFrom_eq_ok.mp h
  obtain ⟨hgames, hplayers⟩ := Tally.foldl_record_size _ outcomes
  exact ⟨outcomes, hlength, hplays, hgames, hplayers, (Tally.records_start _ _).foldl outcomes⟩

/-- Where every match has an outcome there is a tally of them. -/
theorem exists_run {outcomes : List Outcome} (h : Plays rules lineup players seed outcomes) :
    ∃ t, run rules lineup players outcomes.length seed = .ok t ∧ t.Records outcomes :=
  ⟨_, runFrom_eq_ok.mpr ⟨outcomes, rfl, h, rfl⟩, (Tally.records_start _ _).foldl outcomes⟩

/-- Matches that have an outcome each have their outcomes in a list. -/
theorem exists_plays (games seed : ℕ) (hword : seed + games < UInt64.size)
    (h : ∀ i < games, ∃ o,
      Match.ofSeed rules (botNames players) lineup (.ofNat (seed + i)) = .ok o) :
    ∃ outcomes, outcomes.length = games ∧ Plays rules lineup players seed outcomes := by
  choose outcome houtcome using h
  refine ⟨List.ofFn fun i : Fin games => outcome i i.isLt, List.length_ofFn, fun i hi => ?_⟩
  rw [List.length_ofFn] at hi
  refine ⟨by omega, ?_⟩
  rw [houtcome i hi, List.getElem_ofFn]

/-- **The totals of an arena add up.** Where every match on `a + b` seeds has an outcome, the
arenas of the first `a`, of the next `b` and of all of them have tallies; the lengths in the
last are those of the first two, one after the other, and its wins and reasons are their
sums. In every tally the wins add up to the number of matches, those of a party are the
victories that belong to it, and all of them are counted from the outcomes of the matches
that the seeds decide. -/
theorem totals_add (rules : Rules) (lineup : Lineup ChaCha) (players : ℕ) :
    (∀ a b seed, seed + a + b < UInt64.size →
      (∀ i < a + b, ∃ o,
        Match.ofSeed rules (botNames players) lineup (.ofNat (seed + i)) = .ok o) →
      ∃ t t₁ t₂, run rules lineup players (a + b) seed = .ok t ∧
        run rules lineup players a seed = .ok t₁ ∧
        run rules lineup players b (seed + a) = .ok t₂ ∧
        t.actions = t₁.actions ++ t₂.actions ∧
        (∀ p, t.winsOf p = t₁.winsOf p + t₂.winsOf p) ∧
        ∀ v, t.reasonsOf v = t₁.reasonsOf v + t₂.reasonsOf v) ∧
    ∀ games seed t, run rules lineup players games seed = .ok t →
      t.games = games ∧ t.players = players ∧ t.wins.values.sum = games ∧
      (∀ p, ((t.reasons.entries.filter fun e => e.1.party = p).map (·.2)).sum = t.winsOf p) ∧
      ∃ outcomes : List Outcome, outcomes.length = games ∧
        (∀ i (h : i < outcomes.length), seed + i < UInt64.size ∧
          Match.ofSeed rules (botNames players) lineup (.ofNat (seed + i)) = .ok outcomes[i]) ∧
        t.actions = outcomes.map (·.actions) ∧
        (∀ p, t.winsOf p = outcomes.countP (·.victory.party = p)) ∧
        ∀ v, t.reasonsOf v = outcomes.countP (·.victory = v) := by
  refine ⟨fun a b seed hword hall => ?_, fun games seed t hrun => ?_⟩
  · obtain ⟨os₁, rfl, hplays₁⟩ := exists_plays a seed (by omega)
      fun i hi => hall i (Nat.lt_add_right b hi)
    obtain ⟨os₂, rfl, hplays₂⟩ := exists_plays b (seed + os₁.length) (by omega)
      fun i hi => by
        rw [Nat.add_assoc]
        exact hall _ (Nat.add_lt_add_left hi _)
    obtain ⟨t₁, hrun₁, hrecords₁⟩ := exists_run hplays₁
    obtain ⟨t₂, hrun₂, hrecords₂⟩ := exists_run hplays₂
    obtain ⟨t, hrun, hrecords⟩ := exists_run (hplays₁.append hplays₂)
    rw [List.length_append] at hrun
    exact ⟨t, t₁, t₂, hrun, hrun₁, hrun₂, hrecords.add hrecords₁ hrecords₂⟩
  · obtain ⟨outcomes, hlength, hplays, hgames, hplayers, hrecords⟩ := exists_records hrun
    exact ⟨hgames, hplayers, hlength ▸ hrecords.sum_wins, hrecords.sum_reasons, outcomes, hlength,
      hplays, hrecords.actions, hrecords.winsOf, hrecords.reasonsOf⟩

/-! ## An arena with a clock -/

section Clock

variable {m : Type → Type} [Monad m]

/-- A number of looks at a clock. -/
def looks (clock : m (Option ℕ)) : ℕ → m Unit
  | 0 => pure ()
  | n + 1 => clock >>= fun _ => looks clock n

/-- The clock has no say in the loop: it is looked at before every match and after each that
has an outcome. -/
theorem exists_looks [LawfulMonad m] (clock : m (Option ℕ)) (rules : Rules)
    (lineup : Lineup ChaCha) (players games seed : ℕ) :
    ∃ n, ∀ t : Tally, Except.map Tally.untimed <$> runFrom clock rules lineup players games seed t =
      looks clock n >>= fun _ =>
        pure (Id.run (runFrom (pure none) rules lineup players games seed t.untimed)) := by
  induction games generalizing seed with
  | zero => exact ⟨0, fun t => by simp only [runFrom, looks, map_pure, pure_bind]; rfl⟩
  | succ games ih =>
    cases hgame : game rules lineup players seed with
    | error e =>
      refine ⟨1, fun t => ?_⟩
      simp only [runFrom, hgame, looks, map_bind, map_pure, bind_assoc, pure_bind]
      rfl
    | ok o =>
      obtain ⟨n, hlooks⟩ := ih (seed + 1)
      refine ⟨n + 2, fun t => ?_⟩
      simp only [runFrom, hgame, looks, map_bind, bind_assoc, hlooks, Tally.untimed_timed]
      rfl

/-- **A clock changes nothing but the times**: looked at so and so often, it leaves the tally
that there is without one. -/
theorem runTimed_untimed [LawfulMonad m] (clock : m (Option ℕ)) (rules : Rules)
    (lineup : Lineup ChaCha) (players games seed : ℕ) :
    ∃ n, Except.map Tally.untimed <$> runTimed clock rules lineup players games seed =
      looks clock n >>= fun _ => pure (run rules lineup players games seed) := by
  obtain ⟨n, hlooks⟩ := exists_looks clock rules lineup players games seed
  exact ⟨n, hlooks _⟩

end Clock

/-- Under the standard rules every match of five bots has an outcome. -/
theorem exists_outcome_of_bots (liberal fascist : Bot) (seed : UInt64) :
    ∃ o, Match.ofSeed .standard (botNames 5) ⟨liberal.strategy, fascist.strategy⟩ seed = .ok o := by
  have hr : Rules.standard.Valid := by decide
  have hnames : (botNames 5).Nodup := by decide
  obtain ⟨c, hc⟩ : ∃ c, Rules.standard.configurationFor (botNames 5).length = some c := ⟨_, rfl⟩
  have hpicks : ∀ party, (Lineup.forParty ⟨liberal.strategy, fascist.strategy⟩ party :
      Strategy ChaCha).Picks .standard := Lineup.forParty_of (liberal.picks hr) (fascist.picks hr)
  obtain ⟨o, games, -, -, hplays⟩ := hr.exists_outcome hnames hc (Rules.standard_spares hc)
    (Rules.standard_fits hc) hpicks (ChaCha.ofSeed seed)
  exact ⟨o, by rw [Match.ofSeed, hplays]⟩

/-- Two and three matches of five bots are five matches. -/
theorem totals_add_standard :
    (∀ i < 2 + 3, ∃ o, Match.ofSeed .standard (botNames 5)
      ⟨Bot.random.strategy, Bot.partisan.strategy⟩ (.ofNat (7 + i)) = .ok o) ∧
    ∃ t t₁ t₂,
      run .standard ⟨Bot.random.strategy, Bot.partisan.strategy⟩ 5 (2 + 3) 7 = .ok t ∧
      run .standard ⟨Bot.random.strategy, Bot.partisan.strategy⟩ 5 2 7 = .ok t₁ ∧
      run .standard ⟨Bot.random.strategy, Bot.partisan.strategy⟩ 5 3 (7 + 2) = .ok t₂ ∧
      t.actions = t₁.actions ++ t₂.actions ∧
      (∀ p, t.winsOf p = t₁.winsOf p + t₂.winsOf p) ∧
      (∀ v, t.reasonsOf v = t₁.reasonsOf v + t₂.reasonsOf v) ∧ t.wins.values.sum = 5 := by
  have hall : ∀ i < 2 + 3, ∃ o, Match.ofSeed .standard (botNames 5)
      ⟨Bot.random.strategy, Bot.partisan.strategy⟩ (.ofNat (7 + i)) = .ok o :=
    fun i _ => exists_outcome_of_bots .random .partisan _
  obtain ⟨hadds, htallies⟩ := totals_add .standard
    ⟨Bot.random.strategy, Bot.partisan.strategy⟩ 5
  obtain ⟨t, t₁, t₂, hrun, hrun₁, hrun₂, hactions, hwins, hreasons⟩ :=
    hadds 2 3 7 (by decide) hall
  obtain ⟨-, -, hsum, -⟩ := htallies _ _ _ hrun
  exact ⟨hall, t, t₁, t₂, hrun, hrun₁, hrun₂, hactions, hwins, hreasons, hsum⟩

end Arena

end SecretHitler
