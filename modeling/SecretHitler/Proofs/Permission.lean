import SecretHitler.Play.Apply
import SecretHitler.Proofs.Seats
/-!
# Who may do what

`Allows` says in one place what the guards of the transitions say one by one:
the decision is awaited, the actor is the player it belongs to, and the choice
is open. An action that is not allowed is refused, and the source of randomness
is left where it was (`play_rejects`), whatever the board looks like.
-/

namespace SecretHitler

variable {σ : Type} [RandomSource σ]

/-- **The actions that the rules allow** while a decision is awaited. -/
def Running.Allows (g : Running) (a : Action) : Prop :=
  match g.phase, a with
  | .nomination candidate, .nominate actor nominee =>
    g.board.seating.seatOf? actor = some candidate ∧
      ∃ s ∈ g.board.eligible candidate, g.board.seating.seatOf? nominee = some s
  | .voting _ votes, .vote voter _ =>
    ∃ s, g.board.seating.seatOf? voter = some s ∧ votes.hasVoted s = false
  | .presidentChoice government _, .discard actor index =>
    g.board.seating.seatOf? actor = some government.president ∧ index.toNat < 3
  | .chancellorChoice government _ veto, .enact actor index =>
    g.board.seating.seatOf? actor = some government.chancellor ∧ veto ≠ .requested ∧
      index.toNat < 2
  | .chancellorChoice government _ veto, .requestVeto actor =>
    g.board.seating.seatOf? actor = some government.chancellor ∧ veto = .notRequested ∧
      g.board.config.vetoUnlocked g.board.track.fascist = true
  | .chancellorChoice government _ veto, .answerVeto actor _ =>
    g.board.seating.seatOf? actor = some government.president ∧ veto = .requested
  | .powerPending pending president, .usePower power actor name =>
    power = pending ∧ g.board.seating.seatOf? actor = some president ∧
      ∃ s ∈ g.board.targets pending president, g.board.seating.seatOf? name = some s
  | _, _ => False

theorem Hand.exists_take (h : Hand) {i : ℕ} (hi : i < 3) : ∃ p, h.take i = some p := by
  match i, hi with
  | 0, _ | 1, _ | 2, _ => exact ⟨_, rfl⟩

/-- A hand has no fourth card. -/
theorem Hand.take_eq_none (h : Hand) {i : ℕ} (hi : 3 ≤ i) : h.take i = none := by
  match i, hi with
  | _ + 3, _ => rfl

theorem Agenda.exists_take (a : Agenda) {i : ℕ} (hi : i < 2) : ∃ p, a.take i = some p := by
  match i, hi with
  | 0, _ | 1, _ => exact ⟨_, rfl⟩

/-- An agenda has no third card. -/
theorem Agenda.take_eq_none (a : Agenda) {i : ℕ} (hi : 2 ≤ i) : a.take i = none := by
  match i, hi with
  | _ + 2, _ => rfl

namespace Board

variable {b : Board}

/-- A power is aimed at another player who is seated, and an investigation at nobody twice. -/
theorem mem_targets_iff {power : PendingPower} {president s : Seat} :
    s ∈ b.targets power president ↔ s ∈ b.seating.seats ∧ s ≠ president ∧
      (power = .investigateParty → b.investigated.contains s = false) := by
  cases power with
  | investigateParty => simp [targets]
  | specialElection | execution => simp [targets]

/-- Only the candidate nominates, and only somebody eligible. -/
theorem nominate_rejects {candidate : Seat} {actor nominee : String}
    (h : ¬ Running.Allows ⟨b, .nomination candidate⟩ (.nominate actor nominee)) :
    (b.nominate candidate actor nominee).Rejects := by
  by_cases hactor : b.seating.seatOf? actor = some candidate
  · rw [nominate, Seating.authorize_eq_ok.mpr ⟨hactor, rfl⟩, Attempt.ok_bind]
    cases hnominee : b.seating.seatOf? nominee with
    | none => exact (Attempt.rejects_orReject hnominee).bind _
    | some s =>
      rw [Seating.target_eq_ok.mpr hnominee, Attempt.ok_bind]
      refine ⟨_, if_neg fun hs => h ⟨hactor, s, ?_, hnominee⟩⟩
      simpa using hs
  · exact (Seating.authorize_rejects hactor).bind _

/-- Only players vote, each of them once. -/
theorem castVote_rejects {g : Government} {votes : Votes} {voter : String} {ballot : Ballot}
    (h : ¬ Running.Allows ⟨b, .voting g votes⟩ (.vote voter ballot)) :
    (b.castVote g votes voter ballot : Draws σ Step).Rejects := by
  cases hvoter : b.seating.seatOf? voter with
  | none => exact (Draws.rejects_lift (Attempt.rejects_orReject hvoter)).bind _
  | some s =>
    have hvoted : votes.hasVoted s = true := by
      by_contra hfresh
      exact h ⟨s, hvoter, by simpa using hfresh⟩
    rw [castVote, hvoter]
    exact (Draws.rejects_lift ⟨.alreadyVoted, if_pos hvoted⟩).bind _

/-- Only the president discards, and only a card of the hand. -/
theorem presidentDiscard_rejects {g : Government} {hand : Hand} {actor : String} {index : UInt64}
    (h : ¬ Running.Allows ⟨b, .presidentChoice g hand⟩ (.discard actor index)) :
    (b.presidentDiscard g hand actor index).Rejects := by
  by_cases hactor : b.seating.seatOf? actor = some g.president
  · have hindex : 3 ≤ index.toNat := Nat.le_of_not_lt fun hi => h ⟨hactor, hi⟩
    rw [presidentDiscard, Seating.authorize_eq_ok.mpr ⟨hactor, rfl⟩, Attempt.ok_bind]
    exact (Attempt.rejects_orReject (hand.take_eq_none hindex)).bind _
  · exact (Seating.authorize_rejects hactor).bind _

/-- Only the chancellor enacts, one of the two cards, and not while a veto is asked for. -/
theorem chancellorEnact_rejects {g : Government} {agenda : Agenda} {veto : VetoStatus}
    {actor : String} {index : UInt64}
    (h : ¬ Running.Allows ⟨b, .chancellorChoice g agenda veto⟩ (.enact actor index)) :
    (b.chancellorEnact g agenda veto actor index).Rejects := by
  by_cases hactor : b.seating.seatOf? actor = some g.chancellor
  · rw [chancellorEnact, Seating.authorize_eq_ok.mpr ⟨hactor, rfl⟩, Attempt.ok_bind]
    by_cases hveto : veto = .requested
    · rw [if_pos hveto]
      exact Attempt.rejects_reject _
    · have hindex : 2 ≤ index.toNat := Nat.le_of_not_lt fun hi => h ⟨hactor, hveto, hi⟩
      rw [if_neg hveto]
      exact (Attempt.rejects_orReject (agenda.take_eq_none hindex)).bind _
  · exact (Seating.authorize_rejects hactor).bind _

/-- Only the chancellor asks for a veto, once, and not before it is unlocked. -/
theorem requestVeto_rejects {g : Government} {agenda : Agenda} {veto : VetoStatus}
    {actor : String}
    (h : ¬ Running.Allows ⟨b, .chancellorChoice g agenda veto⟩ (.requestVeto actor)) :
    (b.requestVeto g agenda veto actor).Rejects := by
  by_cases hactor : b.seating.seatOf? actor = some g.chancellor
  · unfold requestVeto
    rw [Seating.authorize_eq_ok.mpr ⟨hactor, rfl⟩, Attempt.ok_bind]
    cases veto with
    | requested | rejected => exact Attempt.rejects_reject _
    | notRequested => exact ⟨_, if_neg fun hunlocked => h ⟨hactor, rfl, hunlocked⟩⟩
  · exact (Seating.authorize_rejects hactor).bind _

/-- Only the president answers, and only if there is a request. -/
theorem answerVeto_rejects {g : Government} {agenda : Agenda} {veto : VetoStatus}
    {actor : String} {approved : Bool}
    (h : ¬ Running.Allows ⟨b, .chancellorChoice g agenda veto⟩ (.answerVeto actor approved)) :
    (b.answerVeto g agenda veto actor approved : Draws σ Step).Rejects := by
  by_cases hactor : b.seating.seatOf? actor = some g.president
  · rw [answerVeto, Seating.authorize_eq_ok.mpr ⟨hactor, rfl⟩, Draws.lift_ok_bind,
      if_pos fun hveto => h ⟨hactor, hveto⟩]
    exact Draws.rejects_lift (Attempt.rejects_reject _)
  · exact (Draws.rejects_lift (Seating.authorize_rejects hactor)).bind _

/-- Only the president uses a power, the one that is pending, on somebody it can be
aimed at. -/
theorem usePower_rejects {pending power : PendingPower} {president : Seat} {actor name : String}
    (h : ¬ Running.Allows ⟨b, .powerPending pending president⟩ (.usePower power actor name)) :
    (b.usePower pending president power actor name).Rejects := by
  rw [usePower]
  split
  · exact Attempt.rejects_reject _
  rename_i hpower
  obtain rfl : power = pending := not_not.mp hpower
  by_cases hactor : b.seating.seatOf? actor = some president
  · rw [Seating.authorize_eq_ok.mpr ⟨hactor, rfl⟩, Attempt.ok_bind]
    cases hname : b.seating.seatOf? name with
    | none => exact (Attempt.rejects_orReject hname).bind _
    | some s =>
      rw [Seating.target_eq_ok.mpr hname, Attempt.ok_bind]
      split
      · exact Attempt.rejects_reject _
      rename_i hother
      -- only a second investigation is left to be refused
      have hagain : ¬ (power = .investigateParty → b.investigated.contains s = false) :=
        fun hfresh => h ⟨rfl, hactor, s,
          mem_targets_iff.mpr ⟨Seating.mem_seats_of_seatOf? hname, hother, hfresh⟩, hname⟩
      rw [Classical.not_imp, Bool.not_eq_false] at hagain
      obtain ⟨rfl, hagain⟩ := hagain
      exact ⟨_, if_pos hagain⟩
  · exact (Seating.authorize_rejects hactor).bind _

end Board

/-- **What is not allowed is refused**, and nothing is drawn for it. -/
theorem Running.play_rejects {g : Running} {a : Action} (h : ¬ g.Allows a) :
    (g.play a : Draws σ Step).Rejects := by
  have hawaited : (Draws.of (.reject .notAwaited) : Draws σ Step).Rejects := fun s => ⟨_, rfl⟩
  have lift {x : Attempt Step} (hx : x.Rejects) : (Draws.of x : Draws σ Step).Rejects :=
    Draws.rejects_lift hx
  obtain ⟨b, phase⟩ := g
  cases phase with
  | nomination candidate =>
    cases a with
    | nominate actor nominee => exact lift (Board.nominate_rejects h)
    | _ => exact hawaited
  | voting government votes =>
    cases a with
    | vote voter ballot => exact Board.castVote_rejects h
    | _ => exact hawaited
  | presidentChoice government hand =>
    cases a with
    | discard actor index => exact lift (Board.presidentDiscard_rejects h)
    | _ => exact hawaited
  | chancellorChoice government agenda veto =>
    cases a with
    | enact actor index => exact lift (Board.chancellorEnact_rejects h)
    | requestVeto actor => exact lift (Board.requestVeto_rejects h)
    | answerVeto actor approved => exact Board.answerVeto_rejects h
    | _ => exact hawaited
  | powerPending power president =>
    cases a with
    | usePower power' actor name => exact lift (Board.usePower_rejects h)
    | _ => exact hawaited

end SecretHitler
