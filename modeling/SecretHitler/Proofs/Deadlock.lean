import SecretHitler.Proofs.Legality
/-!
# Where a game gets stuck

Nothing in a rule set bounds how many players its powers kill or investigate,
so a game can run out of choices: a candidate for president may be left with
nobody but the last chancellor, who is barred, and a president may have nobody
left to investigate. These are the only ways (`Sound.stuck_iff`).
-/

namespace SecretHitler

/-- **A game in which nobody can go on.** Two players are left at most, and
whoever could be nominated was the last chancellor; or whoever could be
investigated has been. -/
def Running.Stuck (g : Running) : Prop :=
  match g.phase with
  | .nomination candidate =>
    g.board.living ≤ 2 ∧ ∀ s ∈ g.board.seating.seats, s ≠ candidate →
      g.board.election.termLimited.map (·.chancellor) = some s
  | .powerPending .investigateParty president =>
    ∀ s ∈ g.board.seating.seats, s ≠ president → g.board.investigated.contains s = true
  | _ => False

theorem Seating.length_le_of_subset {t : Seating} {l : List Seat} (h : t.seats ⊆ l) :
    t.size ≤ l.length := by
  rw [← t.length_seats]
  exact (List.subperm_of_subset t.names.nodup_keys h).length_le

namespace Board

variable {b : Board} {candidate s : Seat}

/-- Among three players somebody can be nominated: a small table bars one
player, and a large one two. -/
theorem exists_eligible (h : 3 ≤ b.living) (candidate : Seat) :
    ∃ s, s ∈ b.eligible candidate := by
  by_contra hnobody
  have hbarred : ∀ s ∈ b.seating.seats, s ≠ candidate →
      b.election.isLimited s b.living = true := by
    intro s hs hne
    by_contra hfree
    exact hnobody ⟨s, mem_eligible_iff.mpr ⟨hs, hne, by simpa using hfree⟩⟩
  -- then the table is the candidate and those barred, who are too few
  simp only [Election.isLimited] at hbarred
  cases hlast : b.election.termLimited with
  | none =>
    rw [hlast] at hbarred
    have hsub : b.seating.seats ⊆ [candidate] := fun s hs => by
      by_contra hne
      exact absurd (hbarred s hs (by simpa using hne)) Bool.false_ne_true
    have hle : b.living ≤ 1 := Seating.length_le_of_subset hsub
    omega
  | some last =>
    rw [hlast] at hbarred
    dsimp only at hbarred
    split at hbarred
    · have hsub : b.seating.seats ⊆ [candidate, last.chancellor] := fun s hs => by
        by_cases hs' : s = candidate
        · simp [hs']
        · have hchancellor : last.chancellor = s := by simpa using hbarred s hs hs'
          simp [hchancellor]
      have hle : b.living ≤ 2 := Seating.length_le_of_subset hsub
      omega
    · have hsub : b.seating.seats ⊆ [candidate, last.president, last.chancellor] := fun s hs => by
        by_cases hs' : s = candidate
        · simp [hs']
        · have hmember : last.president = s ∨ last.chancellor = s := by
            simpa [Government.contains] using hbarred s hs hs'
          rcases hmember with rfl | rfl
          · simp
          · simp
      have hle : b.living ≤ 3 := Seating.length_le_of_subset hsub
      omega

/-- Between two players the last chancellor is the one who is barred. -/
theorem isLimited_iff_of_few (h : b.living ≤ 2) :
    b.election.isLimited s b.living = true ↔
      b.election.termLimited.map (·.chancellor) = some s := by
  rw [Election.isLimited]
  cases b.election.termLimited with
  | none => simp
  | some last => simp [show b.living ≤ 5 by omega]

theorem eligible_eq_nil_iff :
    (∀ s, s ∉ b.eligible candidate) ↔ Running.Stuck ⟨b, .nomination candidate⟩ := by
  constructor
  · intro hnobody
    have hfew : b.living ≤ 2 := by
      by_contra hmany
      obtain ⟨s, hs⟩ := exists_eligible (b := b) (by omega) candidate
      exact hnobody s hs
    refine ⟨hfew, fun s hs hne => (isLimited_iff_of_few hfew).mp ?_⟩
    by_contra hfree
    exact hnobody s (mem_eligible_iff.mpr ⟨hs, hne, by simpa using hfree⟩)
  · rintro ⟨hfew, hbarred⟩ s hs
    obtain ⟨hseat, hne, hfree⟩ := mem_eligible_iff.mp hs
    rw [(isLimited_iff_of_few hfew).mpr (hbarred s hseat hne)] at hfree
    cases hfree

end Board

/-- **A sound game allows nothing exactly if it is stuck.** -/
theorem Running.Sound.stuck_iff {g : Running} (hg : g.Sound) : g.Stuck ↔ ∀ a, ¬ g.Allows a := by
  obtain ⟨b, phase⟩ := g
  obtain ⟨hb, hphase, _⟩ := hg
  have hname {s : Seat} (hs : s ∈ b.seating.seats) :
      b.seating.seatOf? (b.seating.called s) = some s :=
    (Seating.seatOf?_eq_some_iff_called hb.distinct).mpr ⟨hs, rfl⟩
  cases phase with
  | nomination candidate =>
    rw [← Board.eligible_eq_nil_iff]
    constructor
    · intro hnobody a ha
      cases a with
      | nominate actor nominee =>
        obtain ⟨_, s, hs, _⟩ := ha
        exact hnobody s hs
      | _ => exact ha
    · intro hnothing s hs
      exact hnothing (.nominate (b.seating.called candidate) (b.seating.called s))
        ⟨hname hphase, s, hs, hname (Board.mem_eligible_iff.mp hs).1⟩
  | voting government votes =>
    refine iff_of_false id fun hnothing => ?_
    obtain ⟨s, hs, hfresh⟩ := List.all_eq_false.mp hphase.2
    exact hnothing (.vote (b.seating.called s) .yes) ⟨s, hname hs, by simpa using hfresh⟩
  | presidentChoice government hand =>
    refine iff_of_false id fun hnothing => ?_
    exact hnothing (.discard (b.seating.called government.president) 0)
      ⟨hname hphase.president, by decide⟩
  | chancellorChoice government agenda veto =>
    refine iff_of_false id fun hnothing => ?_
    by_cases hveto : veto = .requested
    · exact hnothing (.answerVeto (b.seating.called government.president) true)
        ⟨hname hphase.president, hveto⟩
    · exact hnothing (.enact (b.seating.called government.chancellor) 0)
        ⟨hname hphase.chancellor, hveto, by decide⟩
  | powerPending pending president =>
    obtain ⟨chancellor, hseated⟩ := hphase
    have hallows {s : Seat} (hs : s ∈ b.targets pending president) :
        Running.Allows ⟨b, .powerPending pending president⟩
          (.usePower pending (b.seating.called president) (b.seating.called s)) :=
      ⟨rfl, hname hseated.president, s, hs, hname (Board.mem_targets_iff.mp hs).1⟩
    -- the chancellor is there to be called or killed, but may have been investigated
    cases pending with
    | investigateParty =>
      constructor
      · intro hall a ha
        cases a with
        | usePower power actor name =>
          obtain ⟨rfl, _, s, hs, _⟩ := ha
          obtain ⟨hseat, hne, hfresh⟩ := Board.mem_targets_iff.mp hs
          rw [hall s hseat hne] at hfresh
          exact absurd (hfresh rfl) (by decide)
        | _ => exact ha
      · intro hnothing s hs hne
        by_contra hfresh
        exact hnothing _ (hallows (Board.mem_targets_iff.mpr ⟨hs, hne, fun _ => by simpa using hfresh⟩))
    | specialElection | execution =>
      refine iff_of_false id fun hnothing => ?_
      exact hnothing _ (hallows (Board.mem_targets_iff.mpr
        ⟨hseated.chancellor, hseated.distinct, nofun⟩))

/-- A sound game lists nothing exactly if it is stuck. -/
theorem Running.Sound.legalActions_eq_nil_iff {g : Running} (hg : g.Sound) :
    g.legalActions = .ok [] ↔ g.Stuck := by
  obtain ⟨acts, hacts, _, hlists⟩ := hg.exists_lists
  rw [hacts, Except.ok.injEq, hg.stuck_iff, List.eq_nil_iff_forall_not_mem]
  exact forall_congr' fun a => not_congr (hlists a)

/-! ## A game that gets stuck -/

/-- Rules under which each of the first three fascist policies kills a player. -/
def Rules.lethal : Rules :=
  { standard with
    hitlerThreshold := none
    brackets := [{ minPlayers := 5, maxPlayers := 10, fascists := 1,
                   powers := [⟨1, .execution⟩, ⟨2, .execution⟩, ⟨3, .execution⟩] }] }

/-- A government that is elected by all, enacts the first card it may and kills. -/
def lethalTerm (president chancellor : String) (voters : List String) (victim : String) :
    List Action :=
  .nominate president chancellor :: voters.map (.vote · .yes) ++
    [.discard president 0, .enact chancellor 0, .usePower .execution president victim]

/-- Three such governments, the third of the second one's members, and a fourth
that is voted down: its president is left with the last chancellor. -/
def lethalGame : List Action :=
  ["a", "b", "c", "d", "e"].map .join ++ [.start "a"] ++
    lethalTerm "a" "b" ["a", "b", "c", "d", "e"] "e" ++
    lethalTerm "b" "c" ["a", "b", "c", "d"] "d" ++
    lethalTerm "c" "b" ["a", "b", "c"] "a" ++
    [.nominate "b" "c", .vote "b" .no, .vote "c" .no]

/-- A draw that puts fascist policies on top of the deck. -/
def lethalLuck : Script :=
  .ofWords ([0, 0, 0, 0, 0, 268435456, 572662307, 920350135, 1321528399, 1789569707] ++
    List.replicate 12 0)

/-- **Valid rules can get a game stuck**: two players are left, and the one who
could be nominated was the last chancellor. -/
theorem lethal_gets_stuck :
    Rules.lethal.Valid ∧ ∃ g, (Game.new .lethal).fed lethalGame lethalLuck = .running g ∧
      g.legalActions = .ok [] := by
  have hstuck : ((Game.new .lethal).fed lethalGame lethalLuck).running?.map
      Running.legalActions = some (.ok []) := by decide +kernel
  obtain ⟨g, hg, hlegal⟩ := Option.map_eq_some_iff.mp hstuck
  refine ⟨by decide, g, ?_, hlegal⟩
  revert hg
  cases (Game.new .lethal).fed lethalGame lethalLuck with
  | running g' => rintro ⟨⟩; rfl
  | lobby l | completed v => exact nofun

end SecretHitler
