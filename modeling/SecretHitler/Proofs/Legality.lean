import SecretHitler.Proofs.Runs
/-!
# The legal actions are the accepted ones

The enumeration of `legalActions` and the guards of the transitions are two
descriptions of one thing. What links them is `Allows`: `play_eq_ok_iff` says
that it is what is accepted, and here it is what is listed, each action once.
Names are where the two differ in form: a guard looks up the seat of a name,
the enumeration the name of a seat, so a sound board is needed to turn one
into the other (`seatOf?_eq_some_iff_called`).
-/

namespace SecretHitler

/-- A map that always has a value is a map. -/
theorem Attempt.mapM_eq_ok {α β : Type} {f : α → Attempt β} {f' : α → β} {l : List α}
    (h : ∀ a ∈ l, f a = .ok (f' a)) : l.mapM f = .ok (l.map f') := by
  induction l with
  | nil => rfl
  | cons a rest ih =>
    have hrest := ih fun a' ha' => h a' (.tail _ ha')
    rw [List.mapM_cons, h a (.head _), Attempt.ok_bind, hrest, Attempt.ok_bind]
    rfl

namespace Seating

variable {t : Seating} {s s' : Seat} {name : String}

/-- The name on a seat, as long as it is taken. -/
def called (t : Seating) (s : Seat) : String := (t.nameOf? s).getD ""

theorem nameOf?_eq_called (h : s ∈ t.seats) : t.nameOf? s = some (t.called s) := by
  obtain ⟨name, hname⟩ := mem_seats_iff.mp h
  rw [called, hname]
  rfl

/-- The seat of a name is the taken seat that is called so. -/
theorem seatOf?_eq_some_iff_called (hd : t.Distinct) :
    t.seatOf? name = some s ↔ s ∈ t.seats ∧ name = t.called s := by
  rw [seatOf?_eq_some_iff hd]
  constructor
  · intro h
    have hs := mem_seats_iff.mpr ⟨name, h⟩
    exact ⟨hs, Option.some.inj (h.symm.trans (nameOf?_eq_called hs))⟩
  · rintro ⟨hs, rfl⟩
    exact nameOf?_eq_called hs

/-- Distinct names tell the seats apart. -/
theorem called_inj (hd : t.Distinct) (hs : s ∈ t.seats) (hs' : s' ∈ t.seats)
    (h : t.called s = t.called s') : s = s' := by
  have hseat := (seatOf?_eq_some_iff_called hd).mpr ⟨hs, rfl⟩
  have hseat' := (seatOf?_eq_some_iff_called hd).mpr ⟨hs', h⟩
  exact Option.some.inj (hseat.symm.trans hseat')

/-- Choices among seats are told apart by the names on them. -/
theorem nodup_map_called (hd : t.Distinct) {l : List Seat} (hl : l.Sublist t.seats)
    {f : String → Action} (hf : Function.Injective f) : (l.map fun s => f (t.called s)).Nodup := by
  refine List.Nodup.map_on (fun s hs s' hs' heq => ?_) (hl.nodup t.names.nodup_keys)
  exact called_inj hd (hl.subset hs) (hl.subset hs') (hf heq)

end Seating

theorem Board.nameOf_eq_ok {b : Board} {s : Seat} (h : s ∈ b.seating.seats) :
    b.nameOf s = .ok (b.seating.called s) :=
  Attempt.orFail_eq_ok.mpr (Seating.nameOf?_eq_called h)

/-- **What is listed**: every allowed action, once. -/
def Running.Lists (g : Running) (acts : List Action) : Prop :=
  acts.Nodup ∧ ∀ a, a ∈ acts ↔ g.Allows a

namespace Board

variable {b : Board} {g : Government}

/-- An owner's choices among seats, listed by name: each once, and each the
choice of the owner's name and of a name on one of the seats. -/
theorem exists_choices (hb : b.Sound) {owner : Seat} (howner : owner ∈ b.seating.seats)
    {l : List Seat} (hl : l.Sublist b.seating.seats) {f : String → String → Action}
    (hf : ∀ actor, Function.Injective (f actor)) :
    ∃ acts, (do
        let actor ← b.nameOf owner
        l.mapM fun s => return f actor (← b.nameOf s)) = .ok acts ∧
      acts.Nodup ∧ ∀ a, a ∈ acts ↔ ∃ actor name, a = f actor name ∧
        b.seating.seatOf? actor = some owner ∧ ∃ s ∈ l, b.seating.seatOf? name = some s := by
  refine ⟨l.map fun s => f (b.seating.called owner) (b.seating.called s), ?_, ?_, fun a => ?_⟩
  · rw [nameOf_eq_ok howner, Attempt.ok_bind]
    refine Attempt.mapM_eq_ok fun s hs => ?_
    rw [nameOf_eq_ok (hl.subset hs)]
    rfl
  · exact Seating.nodup_map_called hb.distinct hl (hf _)
  · simp only [List.mem_map, Seating.seatOf?_eq_some_iff_called hb.distinct]
    constructor
    · rintro ⟨s, hs, rfl⟩
      exact ⟨_, _, rfl, ⟨howner, rfl⟩, s, hs, hl.subset hs, rfl⟩
    · rintro ⟨_, _, rfl, ⟨_, rfl⟩, s, hs, _, rfl⟩
      exact ⟨s, hs, rfl⟩

/-- A candidate is offered everybody who is eligible. -/
theorem lists_nominations (hb : b.Sound) {candidate : Seat} (hc : candidate ∈ b.seating.seats) :
    ∃ acts, Running.legalActions ⟨b, .nomination candidate⟩ = .ok acts ∧
      Running.Lists ⟨b, .nomination candidate⟩ acts := by
  obtain ⟨acts, hacts, hnodup, hmem⟩ := exists_choices hb hc (l := b.eligible candidate)
    List.filter_sublist (f := .nominate) fun _ _ _ heq => (Action.nominate.inj heq).2
  refine ⟨acts, hacts, hnodup, fun a => ?_⟩
  rw [hmem]
  cases a with
  | nominate actor nominee =>
    constructor
    · rintro ⟨_, _, heq, hchoice⟩
      cases heq
      exact hchoice
    · intro hallows
      exact ⟨actor, nominee, rfl, hallows⟩
  | _ => simp [Running.Allows]

/-- Whoever has not voted is offered both ballots. -/
theorem lists_votes (hb : b.Sound) (votes : Votes) :
    ∃ acts, Running.legalActions ⟨b, .voting g votes⟩ = .ok acts ∧
      Running.Lists ⟨b, .voting g votes⟩ acts := by
  refine ⟨_, rfl, ?_, fun a => ?_⟩
  · have hnames : ((b.seating.names.entries.filter fun e => !votes.hasVoted e.1).map (·.2)).Nodup :=
      hb.distinct.sublist (List.filter_sublist.map _)
    refine List.nodup_flatMap.mpr ⟨fun e _ => by simp, ?_⟩
    refine (List.pairwise_map.mp hnames).imp fun {e e'} hne => ?_
    -- ballots of two voters differ in the voter
    have hvoter : ∀ {a : Action} {name : String},
        a ∈ [Action.vote name .yes, .vote name .no] → a.actor = name := by
      intro a name ha
      simp only [List.mem_cons, List.not_mem_nil, or_false] at ha
      rcases ha with rfl | rfl
      · rfl
      · rfl
    exact fun a ha ha' => hne ((hvoter ha).symm.trans (hvoter ha'))
  · simp only [List.mem_flatMap, List.mem_filter, List.mem_cons, List.not_mem_nil, or_false]
    constructor
    · rintro ⟨⟨s, name⟩, ⟨hmem, hfresh⟩, ha⟩
      have hseat := (Seating.seatOf?_eq_some_iff hb.distinct).mpr (Table.find?_eq_some_iff.mpr hmem)
      have hfresh : votes.hasVoted s = false := by simpa using hfresh
      rcases ha with rfl | rfl
      · exact ⟨s, hseat, hfresh⟩
      · exact ⟨s, hseat, hfresh⟩
    · intro h
      cases a with
      | vote voter ballot =>
        obtain ⟨s, hseat, hfresh⟩ := h
        have hmem := Table.find?_eq_some_iff.mp (Seating.nameOf?_of_seatOf? hseat)
        refine ⟨(s, voter), ⟨hmem, by simp [hfresh]⟩, ?_⟩
        cases ballot with
        | yes => exact .inl rfl
        | no => exact .inr rfl
      | _ => exact absurd h id

theorem lists_discards (hb : b.Sound) (hg : g.Seated b.seating) (hand : Hand) :
    ∃ acts, Running.legalActions ⟨b, .presidentChoice g hand⟩ = .ok acts ∧
      Running.Lists ⟨b, .presidentChoice g hand⟩ acts := by
  refine ⟨[.discard (b.seating.called g.president) 0, .discard (b.seating.called g.president) 1,
    .discard (b.seating.called g.president) 2], ?_, by simp, fun a => ?_⟩
  · simp only [Running.legalActions, nameOf_eq_ok hg.president, Attempt.ok_bind]
    rfl
  · cases a with
    | discard actor index =>
      have hindex : index.toNat < 3 ↔ index = 0 ∨ index = 1 ∨ index = 2 := by
        simp only [← UInt64.toNat_inj, UInt64.toNat_ofNat]
        omega
      simp only [Running.Allows, Seating.seatOf?_eq_some_iff_called hb.distinct, hg.president,
        true_and, hindex, List.mem_cons, Action.discard.injEq, List.not_mem_nil, or_false]
      tauto
    | _ => simp [Running.Allows]

theorem lists_veto_answers (hb : b.Sound) (hg : g.Seated b.seating) (agenda : Agenda) :
    ∃ acts, Running.legalActions ⟨b, .chancellorChoice g agenda .requested⟩ = .ok acts ∧
      Running.Lists ⟨b, .chancellorChoice g agenda .requested⟩ acts := by
  refine ⟨[.answerVeto (b.seating.called g.president) true,
    .answerVeto (b.seating.called g.president) false], ?_, by simp, fun a => ?_⟩
  · simp only [Running.legalActions, nameOf_eq_ok hg.president, Attempt.ok_bind]
    rfl
  · cases a with
    | answerVeto actor approved =>
      simp only [Running.Allows, Seating.seatOf?_eq_some_iff_called hb.distinct, hg.president,
        true_and, and_true, List.mem_cons, Action.answerVeto.injEq, List.not_mem_nil, or_false]
      cases approved with
      | true | false => simp
    | _ => simp [Running.Allows]

theorem lists_enactments (hb : b.Sound) (hg : g.Seated b.seating) (agenda : Agenda)
    {veto : VetoStatus} (hveto : veto ≠ .requested) :
    ∃ acts, Running.legalActions ⟨b, .chancellorChoice g agenda veto⟩ = .ok acts ∧
      Running.Lists ⟨b, .chancellorChoice g agenda veto⟩ acts := by
  have hactor {name : String} :
      b.seating.seatOf? name = some g.chancellor ↔ name = b.seating.called g.chancellor := by
    rw [Seating.seatOf?_eq_some_iff_called hb.distinct]
    exact and_iff_right hg.chancellor
  let mayAsk := veto == .notRequested && b.config.vetoUnlocked b.track.fascist
  refine ⟨[.enact (b.seating.called g.chancellor) 0, .enact (b.seating.called g.chancellor) 1] ++
    if mayAsk then [.requestVeto (b.seating.called g.chancellor)] else [], ?_, ?_, fun a => ?_⟩
  · cases veto with
    | requested => exact absurd rfl hveto
    | notRequested | rejected =>
      simp only [Running.legalActions, nameOf_eq_ok hg.chancellor, Attempt.ok_bind]
      rfl
  · split
    · simp
    · simp
  · cases a with
    | enact actor index =>
      have hindex : index.toNat < 2 ↔ index = 0 ∨ index = 1 := by
        simp only [← UInt64.toNat_inj, UInt64.toNat_ofNat]
        omega
      have hlist : Action.enact actor index ∉
          if mayAsk then [Action.requestVeto (b.seating.called g.chancellor)] else [] := by
        split
        · simp
        · simp
      simp only [Running.Allows, hactor, hindex, List.mem_append, hlist, List.mem_cons,
        Action.enact.injEq, List.not_mem_nil, or_false]
      tauto
    | requestVeto actor =>
      have hasks : mayAsk = true ↔
          veto = .notRequested ∧ b.config.vetoUnlocked b.track.fascist = true := by
        simp [mayAsk]
      simp only [Running.Allows, hactor, ← hasks]
      split
      · rename_i h
        simp [h]
      · rename_i h
        simp [h]
    | _ =>
      simp only [Running.Allows]
      split
      · simp [hveto]
      · simp [hveto]

/-- A president is offered everybody the power can be aimed at. -/
theorem lists_powers (hb : b.Sound) {pending : PendingPower} {president : Seat}
    (hp : president ∈ b.seating.seats) :
    ∃ acts, Running.legalActions ⟨b, .powerPending pending president⟩ = .ok acts ∧
      Running.Lists ⟨b, .powerPending pending president⟩ acts := by
  obtain ⟨acts, hacts, hnodup, hmem⟩ := exists_choices hb hp (l := b.targets pending president)
    List.filter_sublist (f := .usePower pending) fun _ _ _ heq => (Action.usePower.inj heq).2.2
  refine ⟨acts, hacts, hnodup, fun a => ?_⟩
  rw [hmem]
  cases a with
  | usePower power actor name =>
    constructor
    · rintro ⟨_, _, heq, hchoice⟩
      cases heq
      exact ⟨rfl, hchoice⟩
    · rintro ⟨rfl, hchoice⟩
      exact ⟨actor, name, rfl, hchoice⟩
  | _ => simp [Running.Allows]

end Board

/-- **A sound game lists what it allows**, and naming nobody fails. -/
theorem Running.Sound.exists_lists {g : Running} (hg : g.Sound) :
    ∃ acts, g.legalActions = .ok acts ∧ g.Lists acts := by
  obtain ⟨b, phase⟩ := g
  obtain ⟨hb, hphase, _⟩ := hg
  cases phase with
  | nomination candidate => exact Board.lists_nominations hb hphase
  | voting government votes => exact Board.lists_votes hb votes
  | presidentChoice government hand => exact Board.lists_discards hb hphase hand
  | chancellorChoice government agenda veto =>
    by_cases hveto : veto = .requested
    · subst hveto
      exact Board.lists_veto_answers hb hphase agenda
    · exact Board.lists_enactments hb hphase agenda hveto
  | powerPending pending president =>
    obtain ⟨chancellor, hseated⟩ := hphase
    exact Board.lists_powers hb hseated.president

/-- A lobby lists what it allows, but for the joining of new names. -/
theorem Lobby.mem_legalActions_iff {l : Lobby} {a : Action} :
    a ∈ l.legalActions ↔ l.Allows a ∧ ∀ name, a ≠ .join name := by
  cases a with
  | start actor =>
    simp only [legalActions, Allows, List.mem_append, List.mem_map]
    split
    · rename_i h
      simp [h]
    · rename_i h
      simp [h]
  | join name | leave name =>
    simp only [legalActions, Allows, List.mem_append, List.mem_map]
    split
    · simp
    · simp
  | _ =>
    simp only [legalActions, Allows, List.mem_append, List.mem_map]
    split
    · simp
    · simp

theorem Lobby.nodup_legalActions {l : Lobby} (h : l.players.Nodup) : l.legalActions.Nodup := by
  have hleave : (l.players.map Action.leave).Nodup := h.map fun _ _ heq => Action.leave.inj heq
  have hstart : (l.players.map Action.start).Nodup := h.map fun _ _ heq => Action.start.inj heq
  rw [legalActions]
  split
  · refine hleave.append hstart fun a ha ha' => ?_
    obtain ⟨_, _, rfl⟩ := List.mem_map.mp ha
    simp at ha'
  · simpa using hleave

/-- **The legal actions are the accepted ones.** In every game that a valid rule
set leads to they can be listed, none is listed twice, and an action other than
joining is carried out, on any luck, exactly if it is listed. When the game is
over nothing is listed and everything is refused. -/
theorem Game.Reachable.accepts_iff_legal {r : Rules} (hr : r.Valid) {g : Game}
    (h : Game.Reachable r g) :
    ∃ acts, g.legalActions = .ok acts ∧ acts.Nodup ∧
      (∀ a, (∀ name, a ≠ .join name) → ∀ {σ : Type} [RandomSource σ] (s : σ),
        (∃ step t, g.apply a s = (.ok step, t)) ↔ a ∈ acts) ∧
      (∀ v, g = .completed v → acts = [] ∧ ∀ a, ∀ {σ : Type} [RandomSource σ] (s : σ),
        g.apply a s = (.error (.rejected .gameCompleted), s)) := by
  have hg := h.sound hr
  have haccepts : ∀ a, ∀ {σ : Type} [RandomSource σ] (s : σ),
      (∃ step t, g.apply a s = (.ok step, t)) ↔ g.Allows a := by
    intro a σ _ s
    constructor
    · rintro ⟨step, t, hstep⟩
      by_contra hforbidden
      exact (Game.apply_rejects hforbidden).ne_ok hstep
    · intro hallows
      exact hg.apply_succeeds hr hallows s
  cases g with
  | lobby l =>
    refine ⟨l.legalActions, rfl, Lobby.nodup_legalActions hg.distinct, ?_, fun v heq => by cases heq⟩
    intro a hjoin σ _ s
    rw [haccepts, Lobby.mem_legalActions_iff]
    exact (and_iff_left hjoin).symm
  | running g =>
    obtain ⟨acts, hacts, hnodup, hlists⟩ := Running.Sound.exists_lists hg
    refine ⟨acts, hacts, hnodup, ?_, fun v heq => by cases heq⟩
    intro a _ σ _ s
    rw [haccepts, hlists]
    rfl
  | completed v =>
    refine ⟨[], rfl, .nil, ?_, fun _ _ => ⟨rfl, fun _ _ _ _ => rfl⟩⟩
    intro a _ σ _ s
    rw [haccepts]
    simp [Game.Allows]

/-- In the first turn of five players a nomination is carried out exactly if it
is listed. -/
theorem Game.Reachable.accepts_iff_legal_standard :
    Rules.standard.Valid ∧
      Game.Reachable .standard ((Game.lobby .ofFive).fed [.start "a"] (Script.ofWords [])) ∧
      ∃ acts, ((Game.lobby .ofFive).fed [.start "a"] (Script.ofWords [])).legalActions = .ok acts ∧
        ((∃ step t, ((Game.lobby .ofFive).fed [.start "a"] (Script.ofWords [])).apply
          (.nominate "a" "b") (Script.ofWords []) = (.ok step, t)) ↔ .nominate "a" "b" ∈ acts) := by
  have hreach := Lobby.reachable_ofFive.fed [.start "a"] (Script.ofWords [])
  obtain ⟨acts, hacts, _, haccepts, _⟩ :=
    Game.Reachable.accepts_iff_legal (r := .standard) (by decide) hreach
  exact ⟨by decide, hreach, acts, hacts, haccepts (.nominate "a" "b") nofun (Script.ofWords [])⟩

end SecretHitler
