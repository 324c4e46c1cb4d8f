import SecretHitler.Proofs.Deadlock
import SecretHitler.Proofs.History
import SecretHitler.Proofs.Victories
/-!
# Legislative sessions

From the draw of a hand to its last card: the president discards one, the talk about a
veto may go to and fro once, and the chancellor enacts one of what is left or all of it
is discarded. `Board.Course` lists how far a session can have come and what has been done
by then, and a move takes one course to the next (`Course.move`). What `Board.Session`
says of a session is read off its course: nothing but the discard pile changes before the
end, and in the end all three cards are accounted for.
-/

namespace SecretHitler

/-- Whether a legislative session is under way. -/
def Game.inSession : Game → Bool
  | running g => g.phase.isPolicyChoice
  | _ => false

/-- How an action leaves the talk about a veto, if it is a part of it and does not end it. -/
def Action.veto? : Action → Option VetoStatus
  | requestVeto _ => some .requested
  | answerVeto _ false => some .rejected
  | _ => none

/-- Whether a veto is asked for. -/
def Deed.asksVeto (d : Deed) : Bool := d.action.veto? == some .requested

theorem Deed.asksVeto_of_none {d : Deed} (h : d.action.veto? = none) : d.asksVeto = false := by
  rw [asksVeto, h]
  rfl

/-- What is taken out of a hand, and what is left in its order. -/
theorem Hand.toList_of_take {hand : Hand} {i : ℕ} {card : Policy} {agenda : Agenda}
    (h : hand.take i = some (card, agenda)) :
    hand.toList[i]? = some card ∧ hand.toList.eraseIdx i = agenda.toList := by
  match i, h with
  | 0, rfl | 1, rfl | 2, rfl => exact ⟨rfl, rfl⟩

/-- What is taken out of an agenda, and what is left. -/
theorem Agenda.toList_of_take {agenda : Agenda} {i : ℕ} {card other : Policy}
    (h : agenda.take i = some (card, other)) :
    agenda.toList[i]? = some card ∧ agenda.toList.eraseIdx i = [other] := by
  match i, h with
  | 0, rfl | 1, rfl => exact ⟨rfl, rfl⟩

namespace Board

/-- The board with one more card on the discard pile. -/
def discarding (b : Board) (card : Policy) : Board := { b with deck := b.deck.discard card }

/-- **What the members of a government may do in a session.** -/
def Entitles (b : Board) (g : Government) : Action → Prop
  | .discard actor _ => b.seating.seatOf? actor = some g.president
  | .enact actor _ => b.seating.seatOf? actor = some g.chancellor
  | .requestVeto actor =>
    b.seating.seatOf? actor = some g.chancellor ∧ b.config.vetoThreshold ≤ b.track.fascist
  | .answerVeto actor _ => b.seating.seatOf? actor = some g.president
  | _ => False

/-! ## The course of a session -/

section Course

variable (b : Board) (g : Government) (hand : Hand)

/-- The president discards a card and passes the others. -/
structure Passes (card : Policy) (agenda : Agenda) (d : Deed) : Prop where
  discards : ∃ actor index, d.action = .discard actor index ∧
    hand.take index.toNat = some (card, agenda)
  entitled : b.Entitles g d.action

/-- **The talk about a veto**: it is asked for, and refused. -/
inductive Talks : List Deed → VetoStatus → Prop
  | silent : Talks [] .notRequested
  | asked {request : Deed} {asker : String} :
      request.action = .requestVeto asker → b.Entitles g request.action →
      Talks [request] .requested
  | refused {request answer : Deed} {asker president : String} :
      request.action = .requestVeto asker → b.Entitles g request.action →
      answer.action = .answerVeto president false → b.Entitles g answer.action →
      Talks [request, answer] .rejected

/-- **The course of a session** that opens on a board: what has been done, and the game
that has come of it. -/
inductive Course : List Deed → Game → Prop
  | opened : Course [] (.running ⟨b, .presidentChoice g hand⟩)
  | goesOn {card : Policy} {agenda : Agenda} {first : Deed} {talk : List Deed}
      {veto : VetoStatus} :
      b.Passes g hand card agenda first → b.Talks g talk veto →
      Course (first :: talk) (.running ⟨b.discarding card, .chancellorChoice g agenda veto⟩)
  | enacted {card policy other : Policy} {agenda : Agenda} {first last : Deed} {talk : List Deed}
      {veto : VetoStatus} {chancellor : String} {index : UInt64} :
      b.Passes g hand card agenda first → b.Talks g talk veto →
      last.action = .enact chancellor index → b.Entitles g last.action →
      agenda.take index.toNat = some (policy, other) →
      ((b.discarding card).discarding other).Enacts g.president policy last.step →
      Course (first :: talk ++ [last]) last.step.game
  | vetoed {card : Policy} {agenda : Agenda} {first last : Deed} {talk : List Deed}
      {president : String} {earlier : List Event} {step : Step} :
      b.Passes g hand card agenda first → b.Talks g talk .requested →
      last.action = .answerVeto president true → b.Entitles g last.action →
      last.step = step.after earlier →
      Fails { b with deck := (b.deck.discard card).discardAll agenda.toList } step →
      Course (first :: talk ++ [last]) last.step.game

end Course

variable {b : Board} {g : Government} {hand : Hand} {card : Policy} {agenda : Agenda}
variable {step : Step} {past talk : List Deed} {veto : VetoStatus} {game : Game} {d : Deed}

theorem Enacts.reports {president : Seat} {p : Policy} (h : b.Enacts president p step) :
    ∃ liberal fascist, .policyEnacted p .government liberal fascist ∈ step.events := by
  cases h with
  | ended _ _ | goesOn _ _ _ _ | peeks _ _ _ _ _ | waits _ _ _ _ =>
    exact ⟨_, _, List.mem_cons_self⟩

/-- If the game goes on after an enactment, one policy is on the track and the deck is as
it was. -/
theorem Enacts.tallies {president : Seat} {p : Policy} (h : b.Enacts president p step) :
    step.Keeps fun g' => b.track.enact p = .ok g'.board.track ∧ g'.board.deck = b.deck := by
  cases h with
  | ended _ _ => exact trivial
  | goesOn hrise _ _ _ | peeks hrise _ _ _ _ | waits hrise _ _ _ => exact ⟨hrise, rfl⟩

/-- An enactment ends a session, -/
theorem Enacts.closes {president : Seat} {p : Policy} (h : b.Enacts president p step) :
    step.game.inSession = false := by
  cases h with
  | ended _ _ | goesOn _ _ _ _ | peeks _ _ _ _ _ | waits _ _ _ _ => rfl

/-- and so does a failed government. -/
theorem Fails.closes (h : b.Fails step) : step.game.inSession = false := by
  cases h with
  | counted _ _ _ => rfl
  | collapsed _ _ hchaos =>
    cases hchaos with
    | ended _ _ _ | goesOn _ _ _ _ => rfl

/-- A failed government that causes no chaos leaves policies and deck alone. -/
theorem Fails.calm (h : b.Fails step) (hcalm : ∀ p, .countryInChaos p ∉ step.events) :
    ∃ g', step.game = .running g' ∧ g'.board.track = b.track ∧ g'.board.deck = b.deck := by
  cases h with
  | counted _ _ _ => exact ⟨_, rfl, rfl, rfl⟩
  | collapsed _ _ hchaos =>
    cases hchaos with
    | ended _ _ _ | goesOn _ _ _ _ => exact absurd List.mem_cons_self (hcalm _)

/-- While a session is under way either all three cards are held, or two are. -/
theorem Course.of_inSession (h : b.Course g hand past game) (hsession : game.inSession) :
    (past = [] ∧ game = .running ⟨b, .presidentChoice g hand⟩) ∨
      ∃ card agenda first talk veto, past = first :: talk ∧ b.Passes g hand card agenda first ∧
        b.Talks g talk veto ∧
        game = .running ⟨b.discarding card, .chancellorChoice g agenda veto⟩ := by
  cases h with
  | opened => exact .inl ⟨rfl, rfl⟩
  | goesOn hfirst htalk => exact .inr ⟨_, _, _, _, _, rfl, hfirst, htalk, rfl⟩
  | enacted _ _ _ _ _ henacts =>
    rw [henacts.closes] at hsession
    cases hsession
  | vetoed _ _ _ _ hstep hfails =>
    have hended := hfails.closes
    rw [hstep] at hsession
    exact absurd hsession (Bool.eq_false_iff.mp hended)

/-- **A move in a session** takes it on, or ends it. -/
theorem Course.move {g₁ : Running} {a : Action} (h : b.Course g hand past (.running g₁))
    (hg : g₁.Sound) (hsession : Game.inSession (.running g₁)) (hmove : g₁.Moves a step) :
    b.Course g hand (past ++ [⟨.running g₁, a, step⟩]) step.game := by
  obtain ⟨rfl, hgame⟩ | ⟨card, agenda, first, talk, veto, rfl, hfirst, htalk, hgame⟩ :=
    h.of_inSession hsession
  · cases hgame
    cases hmove with
    | discard hactor htake => exact .goesOn ⟨⟨_, _, rfl, htake⟩, hactor⟩ .silent
  · cases hgame
    cases hmove with
    | enact hactor _ htake henacts => exact .enacted hfirst htalk rfl hactor htake henacts
    | requestVeto hactor hunlocked =>
      cases htalk with
      | silent => exact .goesOn hfirst (.asked rfl ⟨hactor, of_decide_eq_true hunlocked⟩)
    | refuseVeto hactor =>
      cases htalk with
      | asked hrequest hasker => exact .goesOn hfirst (.refused hrequest hasker rfl hactor)
    | approveVeto hactor hrep _ hfails =>
      cases hrep with
      | full _ => exact .vetoed hfirst htalk rfl hactor rfl hfails
      -- a sound deck has a full draw and is not shuffled
      | shuffled hshort _ => exact absurd hg.board.stock (Nat.not_le.mpr hshort)

theorem Talks.entitled (h : b.Talks g talk veto) : ∀ d ∈ talk, b.Entitles g d.action := by
  cases h with
  | silent => exact fun d hd => absurd hd List.not_mem_nil
  | asked _ hasker => exact List.forall_mem_singleton.mpr hasker
  | refused _ hasker _ hpresident =>
    exact List.forall_mem_cons.mpr ⟨hasker, List.forall_mem_singleton.mpr hpresident⟩

theorem Talks.count_le (h : b.Talks g talk veto) : talk.countP Deed.asksVeto ≤ 1 := by
  cases h with
  | silent => decide
  | asked hrequest _ => simp [Deed.asksVeto, hrequest, Action.veto?]
  | refused hrequest _ hanswer _ => simp [Deed.asksVeto, hrequest, hanswer, Action.veto?]

theorem Talks.length_le (h : b.Talks g talk veto) : talk.length ≤ 2 := by
  cases h with
  | silent => exact Nat.zero_le 2
  | asked _ _ => exact Nat.le_succ 1
  | refused _ _ _ _ => exact Nat.le_refl 2

theorem Course.entitled (h : b.Course g hand past game) : ∀ d ∈ past, b.Entitles g d.action := by
  cases h with
  | opened => exact fun d hd => absurd hd List.not_mem_nil
  | goesOn hfirst htalk => exact List.forall_mem_cons.mpr ⟨hfirst.entitled, htalk.entitled⟩
  | enacted hfirst htalk _ hlast _ _ | vetoed hfirst htalk _ hlast _ _ =>
    exact List.forall_mem_append.mpr ⟨List.forall_mem_cons.mpr ⟨hfirst.entitled, htalk.entitled⟩,
      List.forall_mem_singleton.mpr hlast⟩

/-- Nothing is said of a veto where a card is discarded. -/
theorem Passes.veto_eq (h : b.Passes g hand card agenda d) : d.action.veto? = none := by
  obtain ⟨actor, index, haction, -⟩ := h.discards
  rw [haction]
  rfl

theorem Course.count_le (h : b.Course g hand past game) : past.countP Deed.asksVeto ≤ 1 := by
  cases h with
  | opened => decide
  | goesOn hfirst htalk =>
    have htalked := htalk.count_le
    simpa [Deed.asksVeto_of_none hfirst.veto_eq] using htalked
  | @enacted _ _ _ _ _ last _ _ _ _ hfirst htalk haction _ _ _
  | @vetoed _ _ _ last _ _ _ _ hfirst htalk haction _ _ _ =>
    have htalked := htalk.count_le
    have hlast : last.action.veto? = none := by
      rw [haction]
      rfl
    simpa [Deed.asksVeto_of_none hfirst.veto_eq, Deed.asksVeto_of_none hlast] using htalked

theorem Course.length_le (h : b.Course g hand past game) : past.length ≤ 4 := by
  cases h with
  | opened => exact Nat.zero_le 4
  | goesOn _ htalk =>
    have hlength := htalk.length_le
    rw [List.length_cons]
    omega
  | enacted _ htalk _ _ _ _ | vetoed _ htalk _ _ _ _ =>
    have hlength := htalk.length_le
    rw [List.length_append, List.length_cons, List.length_singleton]
    omega

/-- The last thing that was said of a veto is how it stands. -/
theorem Course.eq_of_veto (h : b.Course g hand past game) (hlast : past.getLast? = some d)
    (hveto : d.action.veto? = some veto) :
    ∃ card agenda, game = .running ⟨b.discarding card, .chancellorChoice g agenda veto⟩ := by
  cases h with
  | opened => cases hlast
  | @goesOn _ _ first _ _ hfirst htalk =>
    cases htalk with
    | silent =>
      have hsame : first = d := Option.some.inj hlast
      rw [← hsame, hfirst.veto_eq] at hveto
      cases hveto
    | @asked request _ hrequest _ =>
      have hsame : request = d := Option.some.inj hlast
      rw [← hsame, hrequest] at hveto
      cases hveto
      exact ⟨_, _, rfl⟩
    | @refused _ answer _ _ _ _ hanswer _ =>
      have hsame : answer = d := Option.some.inj hlast
      rw [← hsame, hanswer] at hveto
      cases hveto
      exact ⟨_, _, rfl⟩
  | enacted _ _ haction _ _ _ | vetoed _ _ haction _ _ _ =>
    -- neither an enactment nor an approval leaves anything to be said
    rw [List.getLast?_concat] at hlast
    cases hlast
    rw [haction] at hveto
    cases hveto

/-! ## What a session comes to -/

/-- **How a session ends**: one of the cards is enacted and the others are discarded, or
there is a veto and all of them are. -/
inductive Concludes (b : Board) (hand : Hand) : List Deed → Game → Prop
  | enacts {first last : Deed} {talk : List Deed} {game : Game} {president chancellor : String}
      {i j : UInt64} {card policy other : Policy} :
      first.action = .discard president i → hand.toList[i.toNat]? = some card →
      last.action = .enact chancellor j → (hand.toList.eraseIdx i.toNat)[j.toNat]? = some policy →
      (hand.toList.eraseIdx i.toNat).eraseIdx j.toNat = [other] →
      (∃ liberal fascist, .policyEnacted policy .government liberal fascist ∈ last.step.events) →
      (∀ g', game = .running g' →
        (g'.board.track.count policy).toNat = (b.track.count policy).toNat + 1 ∧
        (∀ p, p ≠ policy → g'.board.track.count p = b.track.count p) ∧
        g'.board.deck = ⟨b.deck.drawPile, b.deck.discardPile ++ [card, other]⟩) →
      Concludes b hand (first :: talk ++ [last]) game
  | vetoes {first request last : Deed} {game : Game} {president chancellor answerer : String}
      {i : UInt64} {card : Policy} :
      first.action = .discard president i → hand.toList[i.toNat]? = some card →
      request.action = .requestVeto chancellor → last.action = .answerVeto answerer true →
      ((∀ p, .countryInChaos p ∉ last.step.events) → ∃ g', game = .running g' ∧
        g'.board.track = b.track ∧
        g'.board.deck =
          ⟨b.deck.drawPile, b.deck.discardPile ++ card :: hand.toList.eraseIdx i.toNat⟩) →
      Concludes b hand [first, request, last] game

theorem Course.concludes (h : b.Course g hand past game) (hended : game.inSession = false) :
    b.Concludes hand past game := by
  cases h with
  | opened | goesOn _ _ => cases hended
  | enacted hfirst _ hlast _ htake henacts =>
    obtain ⟨⟨president, i, hdiscard, hcard⟩, -⟩ := hfirst
    obtain ⟨hcard, hleft⟩ := Hand.toList_of_take hcard
    obtain ⟨hpolicy, hother⟩ := Agenda.toList_of_take htake
    rw [← hleft] at hpolicy hother
    refine .enacts hdiscard hcard hlast hpolicy hother henacts.reports fun g' hgame => ?_
    obtain ⟨hrise, hdeck⟩ := henacts.tallies.of_running hgame
    refine ⟨Track.count_of_enact hrise, fun p hp => Track.count_of_enact_of_ne hrise hp, ?_⟩
    rw [hdeck]
    exact congrArg _ (List.append_assoc ..)
  | vetoed hfirst htalk hlast _ hstep hfails =>
    obtain ⟨⟨president, i, hdiscard, hcard⟩, -⟩ := hfirst
    obtain ⟨hcard, hleft⟩ := Hand.toList_of_take hcard
    cases htalk with
    | asked hrequest _ =>
      refine .vetoes hdiscard hcard hrequest hlast fun hcalm => ?_
      rw [hstep] at hcalm ⊢
      obtain ⟨g', hgame, htrack, hdeck⟩ :=
        hfails.calm fun p hp => hcalm p (List.mem_append_right _ hp)
      refine ⟨g', hgame, htrack, ?_⟩
      rw [hdeck, hleft]
      exact congrArg _ (List.append_assoc ..)

/-- **A session on a board**, by what has been done in it and what has come of it. -/
structure Session (b : Board) (g : Government) (hand : Hand) (past : List Deed) (game : Game) :
    Prop where
  /-- Until its end nothing but the discard pile has changed. -/
  lasts : ∀ g', game = .running g' → game.inSession → g'.phase.sitting = some g ∧
    ∃ discards, g'.board = { b with deck := ⟨b.deck.drawPile, discards⟩ }
  /-- Until then somebody can go on, -/
  goesOn : game.inSession → ∃ a, ∀ {σ : Type} [RandomSource σ] (s : σ), game.Accepts a s
  /-- but not for long. -/
  brief : past.length ≤ 4
  ends : game.inSession = false → b.Concludes hand past game
  entitled : ∀ d ∈ past, b.Entitles g d.action
  /-- A veto is asked for at most once. -/
  request : past.countP Deed.asksVeto ≤ 1
  /-- A request waits on the president, -/
  asked : ∀ d asker, past.getLast? = some d → d.action = .requestVeto asker →
    ∀ {σ : Type} [RandomSource σ] (s : σ) (a : Action), game.Accepts a s ↔
      ∃ actor approved, a = .answerVeto actor approved ∧
        b.seating.seatOf? actor = some g.president
  /-- and a refusal leaves the chancellor two cards to choose from. -/
  refused : ∀ d president, past.getLast? = some d → d.action = .answerVeto president false →
    ∀ {σ : Type} [RandomSource σ] (s : σ) (a : Action), game.Accepts a s ↔
      ∃ actor index, a = .enact actor index ∧ b.seating.seatOf? actor = some g.chancellor ∧
        index.toNat < 2

/-- Nothing but the discard pile changes before the end. -/
theorem Course.lasts (h : b.Course g hand past game) (hsession : game.inSession) {g' : Running}
    (hgame : game = .running g') : g'.phase.sitting = some g ∧
      ∃ discards, g'.board = { b with deck := ⟨b.deck.drawPile, discards⟩ } := by
  obtain ⟨-, rfl⟩ | ⟨card, agenda, first, talk, veto, -, -, -, rfl⟩ := h.of_inSession hsession
  · cases hgame
    exact ⟨rfl, b.deck.discardPile, rfl⟩
  · cases hgame
    exact ⟨rfl, b.deck.discardPile ++ [card], rfl⟩

/-- A request for a veto allows nothing but an answer. -/
theorem allows_requested_iff {a : Action} :
    Running.Allows ⟨b, .chancellorChoice g agenda .requested⟩ a ↔
      ∃ actor approved, a = .answerVeto actor approved ∧
        b.seating.seatOf? actor = some g.president := by
  cases a <;> simp [Running.Allows]

/-- A refusal allows nothing but an enactment. -/
theorem allows_rejected_iff {a : Action} :
    Running.Allows ⟨b, .chancellorChoice g agenda .rejected⟩ a ↔
      ∃ actor index, a = .enact actor index ∧ b.seating.seatOf? actor = some g.chancellor ∧
        index.toNat < 2 := by
  cases a <;> simp [Running.Allows]

end Board

/-- While cards are chosen somebody can go on. -/
theorem Running.Sound.exists_allows {g : Running} (hg : g.Sound)
    (hsession : Game.inSession (.running g)) : ∃ a, g.Allows a := by
  by_contra hnothing
  have hstuck : g.Stuck := hg.stuck_iff.mpr (not_exists.mp hnothing)
  obtain ⟨b, phase⟩ := g
  cases phase with
  | presidentChoice _ _ | chancellorChoice _ _ _ => exact hstuck
  | nomination _ | voting _ _ | powerPending _ _ => cases hsession

variable {r : Rules} {b : Board} {g : Government} {hand : Hand} {past : List Deed} {game : Game}

/-- **What is done in a session is a course of it.** -/
theorem Game.History.course (hr : r.Valid)
    (hreach : Game.Reachable r (.running ⟨b, .presidentChoice g hand⟩))
    (h : Game.History (.running ⟨b, .presidentChoice g hand⟩) past game)
    (hsession : ∀ d ∈ past, d.before.inSession) : b.Course g hand past game := by
  refine h.cases_on_last
    (P := fun past game => (∀ d ∈ past, d.before.inSession) → b.Course g hand past game)
    (fun _ => .opened) (fun past l a step _ _ _ hsession => ?_)
    (fun past g₁ a step hpast ih hmove hsession => ?_) hsession
  · have hlobby : Game.inSession (.lobby l) := hsession _ List.mem_concat_self
    cases hlobby
  · have hsound : g₁.Sound := (hpast.reachable hreach).sound hr
    have hbefore := ih fun d hd => hsession d (List.mem_append_left _ hd)
    exact hbefore.move hsound (hsession _ List.mem_concat_self) hmove

/-- **A legislative session moves the three drawn cards and nothing else.** Under a valid
rule set, from any reachable game in which a president holds a hand and after whatever has
been accepted since, up to the end of the session: until then the draw pile, the policies,
the players and the government are as they were. In the end the chancellor has enacted one
of the cards and the other two are on the discard pile, the president's first, or a veto was
approved and, unless chaos broke out, all three are and no policy was enacted. Only the
members of the government act. At most one veto is asked for, once it is unlocked; then the
president has to answer, and after a refusal the chancellor has to enact. -/
theorem Rules.Valid.session_moves_hand (hr : r.Valid)
    (hreach : Game.Reachable r (.running ⟨b, .presidentChoice g hand⟩))
    (hpast : Game.History (.running ⟨b, .presidentChoice g hand⟩) past game)
    (hsession : ∀ d ∈ past, d.before.inSession) : b.Session g hand past game := by
  have hcourse := hpast.course hr hreach hsession
  have hsound : game.Sound r := (hpast.reachable hreach).sound hr
  refine ⟨fun g' hgame hlasts => hcourse.lasts hlasts hgame, fun hlasts => ?_, hcourse.length_le,
    hcourse.concludes, hcourse.entitled, hcourse.count_le,
    fun d asker hlast haction σ _ s a => ?_, fun d president hlast haction σ _ s a => ?_⟩
  · cases game with
    | running g' =>
      obtain ⟨a, ha⟩ := Running.Sound.exists_allows hsound hlasts
      exact ⟨a, fun s => (hsound.accepts_iff hr).mpr ha⟩
    | lobby _ | completed _ => cases hlasts
  · have hveto : d.action.veto? = some .requested := by
      rw [haction]
      rfl
    obtain ⟨card, agenda, rfl⟩ := hcourse.eq_of_veto hlast hveto
    rw [hsound.accepts_iff hr]
    exact Board.allows_requested_iff
  · have hveto : d.action.veto? = some .rejected := by
      rw [haction]
      rfl
    obtain ⟨card, agenda, rfl⟩ := hcourse.eq_of_veto hlast hveto
    rw [hsound.accepts_iff hr]
    exact Board.allows_rejected_iff

/-- The eventful game when its last hand has been drawn. -/
def eventfulDraw : Game := (Game.new .eventful).fed (eventfulGame.take 51) (Script.ofWords [])

/-- In the last session of the eventful game the president discards, the chancellor asks
for a veto and the president agrees. -/
theorem Rules.Valid.session_moves_hand_eventful :
    Rules.eventful.Valid ∧ ∃ (b : Board) (g : Government) (hand : Hand) (past : List Deed)
        (game : Game),
      Game.Reachable .eventful (.running ⟨b, .presidentChoice g hand⟩) ∧
      Game.History (.running ⟨b, .presidentChoice g hand⟩) past game ∧
      (∀ d ∈ past, d.before.inSession) ∧
      past.map (·.action) = [.discard "b" 0, .requestVeto "e", .answerVeto "b" true] ∧
      game.inSession = false ∧ b.Session g hand past game := by
  have hr : Rules.eventful.Valid := by decide
  have hreach : Game.Reachable .eventful eventfulDraw := Game.Reachable.new.fed _ _
  have hpast := Game.History.deeds eventfulDraw (eventfulGame.drop 51) (Script.ofWords [])
  have hdrawn : eventfulDraw.running?.any (fun g₀ => g₀.phase.cards.length = 3) = true := by
    decide +kernel
  have hfacts : (∀ d ∈ eventfulDraw.deeds (eventfulGame.drop 51) (Script.ofWords []),
        d.before.inSession) ∧
      (eventfulDraw.deeds (eventfulGame.drop 51) (Script.ofWords [])).map (·.action) =
        [.discard "b" 0, .requestVeto "e", .answerVeto "b" true] ∧
      (eventfulDraw.fed (eventfulGame.drop 51) (Script.ofWords [])).inSession = false := by
    decide +kernel
  obtain ⟨⟨b, phase⟩, hgame, hcards⟩ := (Option.any_eq_true ..).mp hdrawn
  obtain ⟨g, hand, rfl⟩ : ∃ g hand, phase = .presidentChoice g hand := by
    cases phase with
    | presidentChoice g hand => exact ⟨g, hand, rfl⟩
    | _ => cases of_decide_eq_true hcards
  have hdraw : eventfulDraw = .running ⟨b, .presidentChoice g hand⟩ :=
    Game.running?_eq_some_iff.mp hgame
  rw [hdraw] at hreach hpast hfacts
  obtain ⟨hsession, hactions, hended⟩ := hfacts
  exact ⟨hr, b, g, hand, _, _, hreach, hpast, hsession, hactions, hended,
    hr.session_moves_hand hreach hpast hsession⟩

end SecretHitler
