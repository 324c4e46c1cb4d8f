import SecretHitler.Proofs.Legality
import SecretHitler.Proofs.Survivors
/-!
# The order of the ballots

A vote has one outcome. The players who have not voted yet may do so in any order: every
ballot but the last only joins those that are in, and draws nothing, so the last one
finds the same ballots and the same source, whoever casts it
(`Rules.Valid.votes_commute`). What carries this is that a cast does not change what all
ballots are going to be (`Votes.filled_withBallot`), and that a table is its lookups: it does
not tell in which order it was filled.
-/

namespace SecretHitler

namespace Votes

variable {votes : Votes} {t : Seating} {s s' : Seat} {ballot : Seat → Ballot}

/-- The players who have not voted. -/
def awaited (votes : Votes) (t : Seating) : List Seat := t.seats.filter (!votes.hasVoted ·)

/-- What a player votes: the ballot that is in, or the one that is going to be cast. -/
def ballotOf (votes : Votes) (ballot : Seat → Ballot) (s : Seat) : Ballot :=
  (votes.ballots.find? s).getD (ballot s)

/-- The ballots of all players, once those are in that are going to be cast. -/
def filled (votes : Votes) (ballot : Seat → Ballot) (t : Seating) : Table Seat Ballot :=
  .ofList (t.seats.map fun s => (s, votes.ballotOf ballot s))

/-- The votes when a player casts the ballot that is meant for it. -/
def withBallot (votes : Votes) (ballot : Seat → Ballot) (s : Seat) : Votes :=
  ⟨votes.ballots.insert s (ballot s)⟩

theorem hasVoted_eq_false_iff : votes.hasVoted s = false ↔ votes.ballots.find? s = Option.none := by
  rw [Table.find?_eq_none_iff, ← Table.contains_iff, Bool.not_eq_true]
  rfl

theorem mem_awaited : s ∈ votes.awaited t ↔ s ∈ t.seats ∧ votes.hasVoted s = false := by
  simp [awaited]

theorem nodup_awaited (votes : Votes) (t : Seating) : (votes.awaited t).Nodup :=
  t.names.nodup_keys.filter _

/-- A vote is complete when nobody is awaited. -/
theorem isComplete_iff : votes.isComplete t = true ↔ votes.awaited t = [] := by
  simp [isComplete, awaited, List.filter_eq_nil_iff]

/-- Whoever votes is awaited no more, and all others are as before. -/
theorem mem_awaited_withBallot :
    s' ∈ (votes.withBallot ballot s).awaited t ↔ s' ∈ votes.awaited t ∧ s' ≠ s := by
  have hvoted : (votes.withBallot ballot s).hasVoted s' = false ↔
      votes.hasVoted s' = false ∧ s' ≠ s := by
    rw [← Bool.not_eq_true, ← Bool.not_eq_true, hasVoted, hasVoted, Table.contains_iff,
      Table.contains_iff, withBallot, Table.mem_keys_insert, not_or, and_comm]
  rw [mem_awaited, mem_awaited, hvoted, and_assoc]

/-- When the first of some awaited players has voted, the others are awaited. -/
theorem perm_awaited_withBallot {rest : List Seat} (h : (s :: rest).Perm (votes.awaited t))
    (ballot : Seat → Ballot) : rest.Perm ((votes.withBallot ballot s).awaited t) := by
  have hnodup : (s :: rest).Nodup := h.nodup_iff.mpr (votes.nodup_awaited t)
  obtain ⟨hs, hrest⟩ := List.nodup_cons.mp hnodup
  refine (List.perm_ext_iff_of_nodup hrest (nodup_awaited _ t)).mpr fun s' => ?_
  rw [mem_awaited_withBallot, ← h.mem_iff, List.mem_cons]
  constructor
  · intro hs'
    exact ⟨.inr hs', fun heq => hs (heq ▸ hs')⟩
  · rintro ⟨rfl | hs', hne⟩
    · exact absurd rfl hne
    · exact hs'

theorem perm_filled (votes : Votes) (ballot : Seat → Ballot) (t : Seating) :
    (votes.filled ballot t).entries.Perm (t.seats.map fun s => (s, votes.ballotOf ballot s)) := by
  refine Table.ofList_perm ?_
  rw [List.map_map]
  exact (List.map_id t.seats).symm ▸ t.names.nodup_keys

/-- Each ballot counts that a player has cast or is going to cast. -/
theorem count_filled (votes : Votes) (ballot : Seat → Ballot) (t : Seating) (kind : Ballot) :
    (⟨votes.filled ballot t⟩ : Votes).count kind =
      (t.seats.map (votes.ballotOf ballot)).count kind := by
  have hperm := (votes.perm_filled ballot t).map (·.2)
  rw [List.map_map] at hperm
  exact hperm.count_eq kind

/-- **A cast does not change what all ballots are going to be.** -/
theorem filled_withBallot (hs : votes.hasVoted s = false) (ballot : Seat → Ballot) (t : Seating) :
    (votes.withBallot ballot s).filled ballot t = votes.filled ballot t := by
  have hsame (s' : Seat) :
      (votes.withBallot ballot s).ballotOf ballot s' = votes.ballotOf ballot s' := by
    by_cases h : s = s'
    · subst h
      rw [ballotOf, ballotOf, hasVoted_eq_false_iff.mp hs, withBallot, Table.find?_insert_self]
      rfl
    · rw [ballotOf, ballotOf, withBallot, Table.find?_insert_of_ne _ h]
  simp only [filled, hsame]

/-- **When all players have voted, and nobody else, all ballots are in.** -/
theorem filled_of_isComplete (h : votes.isComplete t = true)
    (hvoters : ∀ s ∈ votes.ballots.keys, s ∈ t.seats) : votes.filled ballot t = votes.ballots := by
  refine Table.ext_find? fun s => Option.ext fun kind => ?_
  rw [Table.find?_eq_some_iff, (votes.perm_filled ballot t).mem_iff, List.mem_map]
  have hvoted {s : Seat} (hs : s ∈ t.seats) :
      votes.ballots.find? s = some (votes.ballotOf ballot s) := by
    have hnot : votes.ballots.find? s ≠ Option.none := fun hnone => by
      have := List.all_eq_true.mp h s hs
      rw [hasVoted_eq_false_iff.mpr hnone] at this
      cases this
    obtain ⟨kind, hkind⟩ := Option.ne_none_iff_exists'.mp hnot
    rw [ballotOf, hkind]
    rfl
  constructor
  · rintro ⟨s', hs', heq⟩
    cases heq
    exact hvoted hs'
  · intro hfind
    have hs : s ∈ t.seats := hvoters s (Table.mem_keys_iff.mpr ⟨kind, hfind⟩)
    rw [hvoted hs] at hfind
    exact ⟨s, hs, by rw [Option.some.inj hfind]⟩

end Votes

variable {σ : Type} [RandomSource σ]

/-- **Only players who are there have voted**, in any game that a valid rule set leads to. -/
theorem Game.Reachable.polled {r : Rules} (hr : r.Valid) {g : Running}
    (h : Game.Reachable r (.running g)) : g.Polled := by
  obtain ⟨n, hstarted⟩ := h.exists_started
  refine hstarted.induction hr (P := Running.Polled) (fun c g _ hfresh => ?_)
    fun g a step hsound hpolled hmove => (hmove.fates hsound hpolled).polled
  obtain ⟨first, -, hphase⟩ := hfresh.nomination
  intro government votes hvoting
  rw [hphase] at hvoting
  cases hvoting

namespace Board

variable {r : Rules} {b : Board} {g : Government} {votes : Votes} {ballot : Seat → Ballot}
  {s t : σ} {last : Step}

/-- **A vote that the players who are awaited bring to its end**, in some order: each cast
but the last is accepted, leaves the game voting with one more ballot in, and draws
nothing; the last one is accepted too and ends in a step, on what is left of the source. -/
inductive Polls (b : Board) (g : Government) (ballot : Seat → Ballot) (s : σ) (last : Step)
    (t : σ) : Votes → List Seat → Prop
  | decides {votes : Votes} {seat : Seat} :
      Game.apply (.running ⟨b, .voting g votes⟩) (.vote (b.seating.called seat) (ballot seat)) s =
        (.ok (last.after [.voteCast seat]), t) →
      Polls b g ballot s last t votes [seat]
  | goesOn {votes : Votes} {seat : Seat} {rest : List Seat} :
      Game.apply (.running ⟨b, .voting g votes⟩) (.vote (b.seating.called seat) (ballot seat)) s =
        (.ok ⟨.running ⟨b, .voting g (votes.withBallot ballot seat)⟩, [.voteCast seat]⟩, s) →
      Polls b g ballot s last t (votes.withBallot ballot seat) rest →
      Polls b g ballot s last t votes (seat :: rest)

/-- A decided vote is reported first, with its ballots. -/
theorem Resolves.reports (h : b.Resolves g votes last) :
    (votes.elects = true ∧ ∃ rest, last.events = .governmentElected g votes.ballots :: rest) ∨
      votes.elects = false ∧
        ∃ tracker rest, last.events = .governmentRejected g votes.ballots tracker :: rest := by
  cases h with
  | hitlerElected hyes _ | elected hyes _ _ => exact .inl ⟨hyes, _, rfl⟩
  | rejected hno _ _ => exact .inr ⟨hno, _, _, rfl⟩

/-- What a player who is awaited does by voting. -/
theorem castVote_of_awaited (hb : b.Sound) {seat : Seat} (hseat : seat ∈ votes.awaited b.seating)
    (g : Government) (ballot : Seat → Ballot) :
    (b.castVote g votes (b.seating.called seat) (ballot seat) : Draws σ Step) =
      if (votes.withBallot ballot seat).isComplete b.seating then do
        let step ← b.resolveVote g (votes.withBallot ballot seat)
        return step.after [.voteCast seat]
      else return ⟨.running ⟨b, .voting g (votes.withBallot ballot seat)⟩, [.voteCast seat]⟩ := by
  obtain ⟨hseated, hfresh⟩ := Votes.mem_awaited.mp hseat
  have hname := (Seating.seatOf?_eq_some_iff_called hb.distinct).mpr ⟨hseated, rfl⟩
  have hcast : votes.cast seat (ballot seat) = .ok (votes.withBallot ballot seat) :=
    Votes.cast_eq_ok.mpr ⟨hfresh, rfl⟩
  rw [castVote, Attempt.orReject_eq_ok.mpr hname, Draws.lift_ok_bind, hcast, Draws.lift_ok_bind]

/-- **In whatever order the awaited players vote**, the vote ends as all ballots together
decide it. -/
theorem polls_of_perm (hr : r.Valid) (h : Game.Reachable r (.running ⟨b, .voting g votes⟩))
    {order : List Seat} (horder : order.Perm (votes.awaited b.seating)) (hsome : order ≠ [])
    (hlast : b.resolveVote g ⟨votes.filled ballot b.seating⟩ s = (.ok last, t)) :
    b.Polls g ballot s last t votes order := by
  induction order generalizing votes with
  | nil => exact absurd rfl hsome
  | cons seat rest ih =>
    have hsound : Game.Sound r (.running ⟨b, .voting g votes⟩) := h.sound hr
    have hb : b.Sound := Running.Sound.board hsound
    have hseat : seat ∈ votes.awaited b.seating := horder.mem_iff.mp (.head _)
    have hfresh := (Votes.mem_awaited.mp hseat).2
    have hrest := Votes.perm_awaited_withBallot horder ballot
    have hfilled := Votes.filled_withBallot hfresh ballot b.seating
    cases rest with
    | nil =>
      have hcomplete : (votes.withBallot ballot seat).isComplete b.seating = true :=
        Votes.isComplete_iff.mpr (List.nil_perm.mp hrest)
      have hvoters : ∀ s ∈ (votes.withBallot ballot seat).ballots.keys, s ∈ b.seating.seats := by
        intro s hs
        rcases Table.mem_keys_insert.mp hs with rfl | hs
        · exact (Votes.mem_awaited.mp hseat).1
        · exact h.polled hr _ _ rfl s hs
      have hballots : (⟨votes.filled ballot b.seating⟩ : Votes) = votes.withBallot ballot seat := by
        rw [← hfilled, Votes.filled_of_isComplete hcomplete hvoters]
      refine .decides ((hsound.apply_eq_ok_iff hr).mpr ?_)
      show b.castVote g votes (b.seating.called seat) (ballot seat) s = _
      rw [castVote_of_awaited hb hseat, if_pos hcomplete]
      exact Draws.bind_eq_ok.mpr ⟨last, t, hballots ▸ hlast, rfl⟩
    | cons next others =>
      have hopen : (votes.withBallot ballot seat).isComplete b.seating = false := by
        rw [← Bool.not_eq_true, Votes.isComplete_iff]
        intro hnil
        rw [hnil] at hrest
        exact absurd hrest.eq_nil (List.cons_ne_nil _ _)
      have happly : Game.apply (.running ⟨b, .voting g votes⟩)
          (.vote (b.seating.called seat) (ballot seat)) s =
          (.ok ⟨.running ⟨b, .voting g (votes.withBallot ballot seat)⟩, [.voteCast seat]⟩, s) := by
        refine (hsound.apply_eq_ok_iff hr).mpr ?_
        show b.castVote g votes (b.seating.called seat) (ballot seat) s = _
        rw [castVote_of_awaited hb hseat, hopen]
        rfl
      exact .goesOn happly (ih (h.apply happly) hrest (List.cons_ne_nil _ _) (hfilled ▸ hlast))

end Board

/-- **Votes resolve alike in every order.** In a vote that a valid rule set leads to
somebody is awaited, and whatever the awaited players are going to vote, there is one step
that every order of theirs ends in, on the same luck, up to the voter that is reported
first. It reports the government elected, with the ballots of all players, exactly if more
of them are for it than against it; otherwise it reports the government rejected. -/
theorem Rules.Valid.votes_commute {r : Rules} (hr : r.Valid) {b : Board} {g : Government}
    {votes : Votes} (h : Game.Reachable r (.running ⟨b, .voting g votes⟩))
    (ballot : Seat → Ballot) (s : σ) :
    votes.awaited b.seating ≠ [] ∧ ∃ last t,
      (∀ order, order.Perm (votes.awaited b.seating) → b.Polls g ballot s last t votes order) ∧
      ((∃ rest, last.events = .governmentElected g (votes.filled ballot b.seating) :: rest) ↔
        (b.seating.seats.map (votes.ballotOf ballot)).count .no <
          (b.seating.seats.map (votes.ballotOf ballot)).count .yes) ∧
      ((∃ tracker rest,
          last.events = .governmentRejected g (votes.filled ballot b.seating) tracker :: rest) ↔
        ¬ (b.seating.seats.map (votes.ballotOf ballot)).count .no <
          (b.seating.seats.map (votes.ballotOf ballot)).count .yes) := by
  obtain ⟨hb, ⟨hseated, hopen⟩, -⟩ : Running.Sound ⟨b, .voting g votes⟩ := h.sound hr
  have hsome : votes.awaited b.seating ≠ [] := by
    rw [ne_eq, ← Votes.isComplete_iff, hopen]
    exact Bool.false_ne_true
  obtain ⟨last, t, hlast⟩ : ∃ last t,
      b.resolveVote g ⟨votes.filled ballot b.seating⟩ s = (.ok last, t) :=
    Board.resolveVote_succeeds hb hseated _ s
  refine ⟨hsome, last, t, fun order horder => ?_, ?_⟩
  · refine Board.polls_of_perm hr h horder (fun hnil => ?_) hlast
    exact hsome (List.nil_perm.mp (hnil ▸ horder))
  have helects : (⟨votes.filled ballot b.seating⟩ : Votes).elects = true ↔
      (b.seating.seats.map (votes.ballotOf ballot)).count .no <
        (b.seating.seats.map (votes.ballotOf ballot)).count .yes := by
    rw [Votes.elects, Votes.count_filled, Votes.count_filled, decide_eq_true_iff]
  rw [← helects]
  obtain ⟨hyes, rest, hevents⟩ | ⟨hno, tracker, rest, hevents⟩ :=
    (Board.resolves_of_resolveVote hlast).reports
  · rw [hyes, hevents]
    simp
  · rw [hno, hevents]
    simp

/-- The first two of five players have voted, one for and one against. The others are for
it, and elect the government in one order as in another. -/
theorem Rules.Valid.votes_commute_split : Rules.standard.Valid ∧
    ∃ (b : Board) (g : Government) (votes : Votes) (last : Step) (t : Script),
      Game.Reachable .standard (.running ⟨b, .voting g votes⟩) ∧
      b.Polls g (fun _ => .yes) (Script.ofWords []) last t votes [⟨3⟩, ⟨4⟩, ⟨5⟩] ∧
      b.Polls g (fun _ => .yes) (Script.ofWords []) last t votes [⟨5⟩, ⟨3⟩, ⟨4⟩] ∧
      ∃ ballots rest, last.events = .governmentElected g ballots :: rest := by
  have hr : Rules.standard.Valid := by decide
  have hreach := Lobby.reachable_ofFive.fed
    [.start "a", .nominate "a" "b", .vote "a" .yes, .vote "b" .no] (Script.ofWords [])
  -- three players are awaited, and most of the ballots are going to be for the government
  obtain ⟨⟨b, phase⟩, hrunning, hsplit⟩ := (Option.any_eq_true ..).mp
    (by decide +kernel : (((Game.lobby .ofFive).fed
      [.start "a", .nominate "a" "b", .vote "a" .yes, .vote "b" .no]
      (Script.ofWords [])).running?.any fun g => match g.phase with
        | .voting _ votes => votes.awaited g.board.seating == [⟨3⟩, ⟨4⟩, ⟨5⟩] &&
          (g.board.seating.seats.map (votes.ballotOf fun _ => .yes)).count .no == 1 &&
          (g.board.seating.seats.map (votes.ballotOf fun _ => .yes)).count .yes == 4
        | _ => false) = true)
  rw [Game.running?_eq_some_iff.mp hrunning] at hreach
  cases phase with
  | voting g votes =>
    simp only [Bool.and_eq_true, beq_iff_eq] at hsplit
    obtain ⟨⟨hawaited, hno⟩, hyes⟩ := hsplit
    obtain ⟨-, last, t, hpolls, helected, -⟩ :=
      hr.votes_commute hreach (fun _ => .yes) (Script.ofWords [])
    rw [hno, hyes] at helected
    obtain ⟨rest, hevents⟩ := helected.mpr (by decide)
    exact ⟨hr, b, g, votes, last, t, hreach, hpolls _ (.of_eq hawaited.symm),
      hpolls _ (hawaited ▸ by decide), _, rest, hevents⟩
  | _ => cases hsplit

end SecretHitler
