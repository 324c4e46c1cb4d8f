import SecretHitler.Proofs.HiddenCards
import SecretHitler.Proofs.Matches
/-!
# What a partisan goes by

The partisan strategy is handed the whole game, with the roles of all and the order of the
deck. Its view keeps only what the player was told; every score is then made up of that
view, of what lies open on the table and of the decision that is awaited (`View.score_eq`).
So two games that look alike to a player are played alike by it, and what it picks is
wanted most (`Strategy.partisan_eq_of_knowledge`).
-/

namespace SecretHitler

/-- **Games that agree on what lies open**: on everything but the piles of the deck and the
roles. -/
structure Running.SameInTheOpen (g g' : Running) : Prop where
  config : g'.board.config = g.board.config
  seating : g'.board.seating = g.board.seating
  track : g'.board.track = g.board.track
  election : g'.board.election = g.board.election
  investigated : g'.board.investigated = g.board.investigated
  phase : g'.phase = g.phase

namespace View

variable {g g' : Running}

theorem scoreNominee_eq (h : g.SameInTheOpen g') (v : View) (nominee : String) :
    v.scoreNominee g'.board nominee = v.scoreNominee g.board nominee := by
  rw [scoreNominee, scoreNominee, h.config, h.track, h.seating]

/-- **A score looks at nothing hidden.** -/
theorem score_eq (h : g.SameInTheOpen g') (v : View) (a : Action) : v.score g' a = v.score g a := by
  obtain ⟨b, phase⟩ := g
  obtain ⟨b', phase'⟩ := g'
  obtain rfl : phase' = phase := h.phase
  have hseating : b'.seating = b.seating := h.seating
  have hnominee : ∀ nominee, v.scoreNominee b' nominee = v.scoreNominee b nominee :=
    scoreNominee_eq h v
  cases a with
  | nominate actor nominee =>
    cases phase' with
    | _ => simp only [score, hnominee]
  | usePower power actor target =>
    cases phase' with
    | _ => simp only [score, hseating]
  | _ =>
    -- by the decision alone
    cases phase' with
    | _ => rfl

theorem best_eq (h : g.SameInTheOpen g') (v : View) (options : List Action) :
    v.best g' options = v.best g options := by
  simp only [best, score_eq h]

end View

/-- **A partisan goes by what its seat may know.** Of two games under way that agree on what
lies open, and tell the player in a seat the same about the roles, the partisan strategy
picks the same action of those it is offered, leaves the source of randomness alike, and
no other action is wanted more. -/
theorem Strategy.partisan_eq_of_knowledge {σ : Type} [RandomSource σ] {g g' : Running}
    (hopen : g.SameInTheOpen g') {actor : String} {me : Seat} {k : Knowledge}
    (hme : g.board.seating.seatOf? actor = some me) (hk : g.board.knowledgeOf me = .ok k)
    (hk' : g'.board.knowledgeOf me = .ok k) {options : List Action} (hsome : options ≠ []) (s : σ) :
    ∃ a t, partisan (.running g) actor options s = (.ok a, t) ∧
      partisan (.running g') actor options s = (.ok a, t) ∧ a ∈ options ∧
      ∀ other ∈ options,
        (View.ofKnowledge k).score g other ≤ (View.ofKnowledge k).score g a := by
  have hme' : g'.board.seating.seatOf? actor = some me := by
    rw [hopen.seating]
    exact hme
  obtain ⟨a, ha, t, hchoice⟩ :=
    Draws.choose_eq_ok ((View.ofKnowledge k).best_ne_nil g hsome) s
  obtain ⟨hoption, hmost⟩ := List.mem_filter.mp ha
  refine ⟨a, t, ?_, ?_, hoption, fun other hother => ?_⟩
  · rw [partisan_eq_choose hme hk]
    exact hchoice
  · rw [partisan_eq_choose hme' hk', View.best_eq hopen]
    exact hchoice
  · exact of_decide_eq_true (List.all_eq_true.mp hmost other hother)

/-- The third of five players is a liberal in both of two coherent games that differ in the
order of the deck and in who the others are, and votes for the same government. -/
theorem Strategy.partisan_eq_of_knowledge_liberal :
    ∃ g g' : Running, (Game.new .standard).fed (Lobby.ofFive.players.map .join ++
        [.start "a", .nominate "a" "b"]) (Script.ofWords []) = .running g ∧
      g' = g.upsideDown.withRoles otherRoles ∧ g.violation = .ok none ∧ g'.violation = .ok none ∧
      g.SameInTheOpen g' ∧ g'.board.deck ≠ g.board.deck ∧ g'.board.roles ≠ g.board.roles ∧
      g.board.seating.seatOf? "c" = some ⟨3⟩ ∧
      g.board.knowledgeOf ⟨3⟩ = .ok ⟨⟨3⟩, .liberal, [], none⟩ ∧
      g'.board.knowledgeOf ⟨3⟩ = .ok ⟨⟨3⟩, .liberal, [], none⟩ ∧
      ∃ a t, Strategy.partisan (.running g) "c" [.vote "c" .yes, .vote "c" .no]
          (Script.ofWords []) = (.ok a, t) ∧
        Strategy.partisan (.running g') "c" [.vote "c" .yes, .vote "c" .no]
          (Script.ofWords []) = (.ok a, t) ∧
        a ∈ [.vote "c" .yes, .vote "c" .no] ∧
        ∀ other ∈ [.vote "c" .yes, .vote "c" .no],
          (View.ofKnowledge ⟨⟨3⟩, .liberal, [], none⟩).score g other ≤
            (View.ofKnowledge ⟨⟨3⟩, .liberal, [], none⟩).score g a := by
  have hfacts : ((Game.new .standard).fed (Lobby.ofFive.players.map .join ++
      [.start "a", .nominate "a" "b"]) (Script.ofWords [])).running?.map (fun g => decide
        ((g.violation = .ok none ∧ (g.upsideDown.withRoles otherRoles).violation = .ok none) ∧
        (g.upsideDown.withRoles otherRoles).board.deck ≠ g.board.deck ∧
        (g.upsideDown.withRoles otherRoles).board.roles ≠ g.board.roles ∧
        g.board.seating.seatOf? "c" = some ⟨3⟩ ∧
        g.board.knowledgeOf ⟨3⟩ = .ok ⟨⟨3⟩, .liberal, [], none⟩ ∧
        (g.upsideDown.withRoles otherRoles).board.knowledgeOf ⟨3⟩ =
          .ok ⟨⟨3⟩, .liberal, [], none⟩)) = some true := by
    decide +kernel
  obtain ⟨g, hrunning, hdecided⟩ := Option.map_eq_some_iff.mp hfacts
  obtain ⟨⟨hcoherent, hcoherent'⟩, hdeck, hroles, hme, hk, hk'⟩ := of_decide_eq_true hdecided
  have hopen : g.SameInTheOpen (g.upsideDown.withRoles otherRoles) :=
    ⟨rfl, rfl, rfl, rfl, rfl, rfl⟩
  exact ⟨g, _, Game.running?_eq_some_iff.mp hrunning, rfl, hcoherent, hcoherent', hopen, hdeck,
    hroles, hme, hk, hk', Strategy.partisan_eq_of_knowledge hopen hme hk hk' (by simp) _⟩

end SecretHitler
