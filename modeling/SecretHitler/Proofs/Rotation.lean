import SecretHitler.Proofs.History
import Mathlib.Data.List.Chain
/-!
# The turn goes round

Who is president next is a matter of seats: the turn goes to the next higher seat that
is taken, and from the highest back to the lowest. A special election is nobody's turn,
and a player who is killed may have been the last to have it. Still no turn is lost and
nobody has two (`Game.History.rotates`): between two turns of one player everybody who
lives through them has one. `Moves.turnsFrom` says what a move does to the turn; the
argument about a whole round measures how far a seat lies above another, going round
the table (`Seat.above`), and each turn comes to the nearest seat still ahead.
-/

namespace SecretHitler

/-- **A turn to be president**: whose it is, and who is alive when it comes. -/
structure Turn where
  candidate : Seat
  seated : List Seat
deriving DecidableEq

/-- **The turn passes**: nobody has come back to life, and it falls to the lowest seat
above that is taken, or to the lowest of all where there is none. -/
structure Turn.Passes (t t' : Turn) : Prop where
  alive : t'.seated ⊆ t.seated
  seated : t'.candidate ∈ t'.seated
  next :
    (rank t.candidate < rank t'.candidate ∧
      ∀ s ∈ t'.seated, rank t.candidate < rank s → rank t'.candidate ≤ rank s) ∨
    ((∀ s ∈ t'.seated, rank s ≤ rank t.candidate) ∧ ∀ s ∈ t'.seated, rank t'.candidate ≤ rank s)

/-- Whose turn an event reports. A special election is nobody's turn. -/
def Event.turn? : Event → Option Seat
  | electionStarted candidate false => some candidate
  | _ => none

/-- Who is alive in a game. -/
def Game.seated : Game → List Seat
  | running g => g.board.seating.seats
  | _ => []

/-- The turns that a step reports. -/
def Step.turns (s : Step) : List Turn := (s.events.filterMap Event.turn?).map (⟨·, s.game.seated⟩)

/-- **The turns of a history**, in order. -/
def Deed.turns (past : List Deed) : List Turn := past.flatMap (·.step.turns)

/-! ## One step -/

/-- **What a step does to the turn**: it leaves it where it was, or passes it on. -/
inductive Step.TurnsFrom (ticker : Seat) (t : Seating) (s : Step) : Prop
  | rests : s.turns = [] →
      s.Keeps (fun g => g.board.election.ticker = ticker ∧ g.board.seating = t) →
      TurnsFrom ticker t s
  | passes {g : Running} : s.game = .running g →
      s.turns = [⟨g.board.election.ticker, g.board.seating.seats⟩] →
      g.board.seating.seats ⊆ t.seats →
      g.board.seating.nextAfter ticker = .ok g.board.election.ticker → TurnsFrom ticker t s

/-- Events that are nobody's turn change nothing of what a step does to it. -/
theorem Step.TurnsFrom.after {ticker : Seat} {t : Seating} {s : Step} {events : List Event}
    (h : s.TurnsFrom ticker t) (hnone : events.filterMap Event.turn? = []) :
    (s.after events).TurnsFrom ticker t := by
  have hturns : (s.after events).turns = s.turns := by
    rw [turns, Step.after, List.filterMap_append, hnone, List.nil_append]
    rfl
  cases h with
  | rests hrests hkeeps => exact .rests (hturns.trans hrests) hkeeps
  | passes hgame hpasses hseats hnext => exact .passes hgame (hturns.trans hpasses) hseats hnext

namespace Seating

variable {t : Seating} {s next : Seat}

/-- **The next in turn** sits lowest above, or lowest of all where nobody sits above. -/
theorem nextAfter_eq_ok (h : t.nextAfter s = .ok next) :
    (rank s < rank next ∧ ∀ s' ∈ t.seats, rank s < rank s' → rank next ≤ rank s') ∨
      ((∀ s' ∈ t.seats, rank s' ≤ rank s) ∧ ∀ s' ∈ t.seats, rank next ≤ rank s') := by
  have hsorted : t.seats.Pairwise fun a b => rank a < rank b := t.names.sorted_keys
  rw [nextAfter] at h
  split at h
  · rename_i n hfind
    cases h
    obtain ⟨habove, lower, higher, hseats, hlower⟩ := List.find?_eq_some_iff_append.mp hfind
    refine .inl ⟨of_decide_eq_true habove, fun s' hs' hless => ?_⟩
    rw [hseats] at hs' hsorted
    -- whoever comes before it in the list is not above
    rcases List.mem_append.mp hs' with hs' | hs'
    · exact absurd hless (by simpa using hlower s' hs')
    · rcases List.mem_cons.mp hs' with rfl | hs'
      · exact Nat.le_refl _
      · have hrises := (List.pairwise_append.mp hsorted).2.1
        exact Nat.le_of_lt ((List.pairwise_cons.mp hrises).1 s' hs')
  · rename_i hfind
    have hhead := Attempt.orFail_eq_ok.mp h
    refine .inr ⟨fun s' hs' => ?_, fun s' hs' => ?_⟩
    · simpa using List.find?_eq_none.mp hfind s' hs'
    · obtain ⟨others, hseats⟩ := List.head?_eq_some_iff.mp hhead
      rw [hseats] at hs' hsorted
      rcases List.mem_cons.mp hs' with rfl | hs'
      · exact Nat.le_refl _
      · exact Nat.le_of_lt ((List.pairwise_cons.mp hsorted).1 s' hs')

end Seating

namespace Board

variable {b : Board} {step : Step}

theorem turn?_reshuffleEvents (d : Deck) (reshuffled : Bool) :
    (reshuffleEvents d reshuffled).filterMap Event.turn? = [] := by
  cases reshuffled with
  | false | true => rfl

theorem turn?_chaosEvents (drawn : Drawn Policy) (track : Track) :
    (chaosEvents drawn track).filterMap Event.turn? = [] := by
  rw [chaosEvents, List.filterMap_append, List.filterMap_cons_none rfl, turn?_reshuffleEvents]
  rfl

theorem turnsFrom_opened {next : Seat} (h : b.seating.nextAfter b.election.ticker = .ok next) :
    (b.opened next).TurnsFrom b.election.ticker b.seating :=
  .passes rfl rfl (List.Subset.refl _) h

theorem turnsFrom_gameOver (v : Victory) (ticker : Seat) (t : Seating) :
    (Step.gameOver v).TurnsFrom ticker t :=
  .rests rfl trivial

/-- After chaos the turn passes on, if the game does. -/
theorem Collapses.turnsFrom (h : b.Collapses step) :
    step.TurnsFrom b.election.ticker b.seating := by
  cases h with
  | ended _ _ _ => exact (turnsFrom_gameOver _ _ _).after (turn?_chaosEvents _ _)
  | @goesOn drawn track _ _ _ _ hnext =>
    exact (turnsFrom_opened (b := b.collapsed drawn.deck track) hnext).after (turn?_chaosEvents _ _)

theorem Fails.turnsFrom (h : b.Fails step) : step.TurnsFrom b.election.ticker b.seating := by
  cases h with
  | @counted failed _ _ _ hnext =>
    exact turnsFrom_opened (b := { b with election := { b.election with tracker := failed } }) hnext
  | collapsed _ _ hchaos => exact hchaos.turnsFrom

/-- After an enactment too, unless a power is waited for. -/
theorem Enacts.turnsFrom {president : Seat} {p : Policy} (h : b.Enacts president p step) :
    step.TurnsFrom b.election.ticker b.seating := by
  cases h with
  | ended _ _ => exact (turnsFrom_gameOver _ _ _).after rfl
  | @goesOn track _ _ _ _ hnext =>
    exact (turnsFrom_opened (b := b.governed track) hnext).after rfl
  | @peeks track _ _ _ _ _ _ hnext =>
    exact (turnsFrom_opened (b := b.governed track) hnext).after rfl
  | waits _ _ _ _ => exact .rests rfl ⟨rfl, rfl⟩

theorem Resolves.turnsFrom {g : Government} {votes : Votes} (h : b.Resolves g votes step) :
    step.TurnsFrom b.election.ticker b.seating := by
  cases h with
  | hitlerElected _ _ => exact (turnsFrom_gameOver _ _ _).after rfl
  | @elected drawn _ _ _ =>
    refine .rests ?_ ⟨rfl, rfl⟩
    rw [Step.turns, List.filterMap_cons_none rfl, List.filterMap_cons_none rfl,
      turn?_reshuffleEvents]
    rfl
  | rejected _ _ hfails => exact hfails.turnsFrom.after rfl

end Board

/-- **Every move leaves the turn where it was or passes it on**, among those who are
left. -/
theorem Running.Moves.turnsFrom {g : Running} {a : Action} {step : Step} (h : g.Moves a step) :
    step.TurnsFrom g.board.election.ticker g.board.seating := by
  cases h with
  | decide _ _ _ hresolves => exact hresolves.turnsFrom.after rfl
  | enact _ _ _ henacts => exact henacts.turnsFrom
  | approveVeto _ _ _ hfails =>
    refine hfails.turnsFrom.after ?_
    rw [List.filterMap_cons_none rfl, Board.turn?_reshuffleEvents]
  | @investigate b _ target _ _ _ _ _ _ _ _ _ hnext =>
    exact (Board.turnsFrom_opened
      (b := { b with investigated := b.investigated.insert target () }) hnext).after rfl
  | killHitler _ _ _ _ => exact (Board.turnsFrom_gameOver _ _ _).after rfl
  | @kill b _ target next _ _ _ roles _ _ _ _ _ _ _ hnext =>
    -- the one who had the turn may be the one who is killed
    refine .passes rfl rfl (fun s hs => ?_) hnext
    exact (Seating.mem_seats_without.mp hs).1
  | _ => exact .rests rfl ⟨rfl, rfl⟩

/-! ## All turns of a history -/

/-- The last turn of a game under way is the one it stands at. -/
def Game.StandsAt (turns : List Turn) : Game → Prop
  | lobby _ => turns = []
  | running g => ∃ last ∈ turns.getLast?, last.candidate = g.board.election.ticker ∧
      g.board.seating.seats ⊆ last.seated
  | completed _ => True

theorem Deed.turns_concat (past : List Deed) (d : Deed) :
    turns (past ++ [d]) = turns past ++ d.step.turns := by
  rw [turns, turns, List.flatMap_append, List.flatMap_singleton]

namespace Game

variable {r : Rules} {past : List Deed} {g : Game}

/-- **Every turn of a history passes from the one before.** -/
theorem History.turns_pass (h : History (.new r) past g) :
    (Deed.turns past).IsChain Turn.Passes ∧ g.StandsAt (Deed.turns past) := by
  refine h.cases_on_last
    (P := fun past g => (Deed.turns past).IsChain Turn.Passes ∧ g.StandsAt (Deed.turns past))
    ?_ (fun past l a step _ ih hgathers => ?_) fun past g a step _ ih hmove => ?_
  · exact ⟨.nil, rfl⟩
  · have hnone : Deed.turns past = [] := ih.2
    rw [Deed.turns_concat, hnone, List.nil_append]
    cases hgathers with
    | join | leave => exact ⟨.nil, rfl⟩
    | @start _ _ seating _ _ first =>
      exact ⟨.singleton _, ⟨first, seating.seats⟩, rfl, rfl, List.Subset.refl _⟩
  · obtain ⟨hchain, last, hlast, hticker, hseats⟩ := ih
    rw [Deed.turns_concat]
    cases hmove.turnsFrom with
    | rests hnone hkeeps =>
      rw [hnone, List.append_nil]
      refine ⟨hchain, ?_⟩
      obtain ⟨g', hgame, hticker', hseating'⟩ | ⟨v, hgame⟩ := hkeeps.cases
      · rw [hgame]
        exact ⟨last, hlast, hticker.trans hticker'.symm, hseating' ▸ hseats⟩
      · rw [hgame]
        trivial
    | @passes g' hgame hturn hseats' hnext =>
      rw [hturn, hgame]
      refine ⟨hchain.append (.singleton _) fun t ht t' ht' => ?_,
        ⟨g'.board.election.ticker, g'.board.seating.seats⟩, List.getLast?_concat, rfl,
        List.Subset.refl _⟩
      obtain rfl : last = t := Option.some.inj (hlast.symm.trans ht)
      obtain rfl := Option.some.inj ht'
      refine ⟨fun s hs => hseats (hseats' hs), Seating.mem_seats_of_nextAfter hnext, ?_⟩
      rw [hticker]
      exact Seating.nextAfter_eq_ok hnext

end Game

/-! ## A round -/

/-- How far a seat lies above another, going round the table. -/
def Seat.above (home s : Seat) : ℕ :=
  if rank home ≤ rank s then rank s - rank home else rank s + UInt32.size - rank home

theorem Seat.rank_lt (s : Seat) : rank s < UInt32.size := s.number.toNat_lt

theorem Seat.above_self (s : Seat) : s.above s = 0 := by
  rw [above, if_pos (Nat.le_refl _), Nat.sub_self]

/-- Everybody else sits above a seat, going round the table, -/
theorem Seat.above_pos {home s : Seat} (h : s ≠ home) : 0 < home.above s := by
  have hne : rank s ≠ rank home := fun heq => h (Ranked.rank_inj heq)
  have := home.rank_lt
  rw [above]
  split <;> omega

/-- and no two at the same distance. -/
theorem Seat.above_inj {home s s' : Seat} (h : home.above s = home.above s') : s = s' := by
  have := home.rank_lt
  have := s.rank_lt
  have := s'.rank_lt
  refine Ranked.rank_inj ?_
  rw [above, above] at h
  split at h <;> split at h <;> omega

namespace Turn

variable {t t' last : Turn} {between : List Turn} {home player : Seat}

/-- **A turn comes to the nearest seat still ahead**, as long as it does not come home. -/
theorem Passes.nearest (h : t.Passes t') (hhome : home ∈ t'.seated) (haway : t'.candidate ≠ home) :
    home.above t.candidate < home.above t'.candidate ∧
      ∀ s ∈ t'.seated, home.above t.candidate < home.above s →
        home.above t'.candidate ≤ home.above s := by
  have hne : rank t'.candidate ≠ rank home := fun heq => haway (Ranked.rank_inj heq)
  have := home.rank_lt
  have hsmall := t'.candidate.rank_lt
  have hsmall' := t.candidate.rank_lt
  simp only [Seat.above]
  rcases h.next with ⟨hup, hleast⟩ | ⟨htop, hleast⟩
  · have hhome' := hleast home hhome
    refine ⟨by split <;> split <;> omega, fun s hs => ?_⟩
    have := hleast s hs
    have := s.rank_lt
    split <;> split <;> split <;> omega
  · have hhome' := hleast home hhome
    have htop' := htop home hhome
    refine ⟨by split <;> split <;> omega, fun s hs => ?_⟩
    have := hleast s hs
    have := htop s hs
    split <;> split <;> split <;> omega

/-- When the turn comes home nobody is left ahead. -/
theorem Passes.none_ahead (h : t.Passes t') (hhome : t'.candidate = home) {s : Seat}
    (hs : s ∈ t'.seated) : home.above s ≤ home.above t.candidate := by
  subst hhome
  have hsmall := s.rank_lt
  have hsmall' := t.candidate.rank_lt
  simp only [Seat.above]
  rcases h.next with ⟨hup, hleast⟩ | ⟨htop, hleast⟩
  · have := hleast s hs
    rw [if_neg (Nat.not_le.mpr hup)]
    split <;> omega
  · have := htop s hs
    rw [if_pos (hleast s hs), if_pos (htop _ h.seated)]
    omega

/-- Who is alive at the end of a chain of turns was alive all the time. -/
theorem seated_of_chain (h : (between ++ [last]).IsChain Passes) {s : Seat} (hs : s ∈ last.seated) :
    ∀ turn ∈ between, s ∈ turn.seated := by
  induction between with
  | nil => exact nofun
  | cons u rest ih =>
    rw [List.cons_append] at h
    have hrest := ih h.tail
    intro turn hturn
    rcases List.mem_cons.mp hturn with rfl | hturn
    · cases rest with
      | nil => exact (List.isChain_cons_cons.mp h).1.alive hs
      | cons v _ => exact (List.isChain_cons_cons.mp h).1.alive (hrest v (.head _))
    · exact hrest turn hturn

/-- Whoever has the last of several turns is alive to have it. -/
theorem candidate_mem_of_chain (h : (t :: (between ++ [last])).IsChain Passes) :
    last.candidate ∈ last.seated := by
  rw [← List.cons_append] at h
  have hpasses := (List.isChain_append.mp h).2.2 _
    (List.getLast?_eq_some_getLast (List.cons_ne_nil t between)) last rfl
  exact hpasses.seated

/-- **Until the turn comes home**, whoever is still ahead and lives to see it has one
turn, and whoever was passed has none. -/
theorem count_between (h : (t :: (between ++ [last])).IsChain Passes)
    (hlast : last.candidate = home) (haway : ∀ turn ∈ between, turn.candidate ≠ home)
    (halive : ∀ turn ∈ between ++ [last], player ∈ turn.seated) :
    (between.map candidate).count player =
      if home.above t.candidate < home.above player then 1 else 0 := by
  induction between generalizing t with
  | nil =>
    have hpasses := (List.isChain_cons_cons.mp h).1
    rw [if_neg (Nat.not_lt.mpr (hpasses.none_ahead hlast (halive last (.head _))))]
    rfl
  | cons u rest ih =>
    have hlastSeated : last.candidate ∈ last.seated := candidate_mem_of_chain h
    have hhome : home ∈ u.seated := by
      rw [← hlast]
      exact seated_of_chain h.tail hlastSeated u (.head _)
    rw [List.cons_append] at h halive
    obtain ⟨hpasses, hchain⟩ := List.isChain_cons_cons.mp h
    obtain ⟨hahead, hnearest⟩ := hpasses.nearest hhome (haway u (.head _))
    have hplayer := hnearest player (halive u (.head _))
    have hrest := ih hchain (fun turn hturn => haway turn (.tail _ hturn)) fun turn hturn =>
      halive turn (.tail _ hturn)
    by_cases hsame : u.candidate = player
    · subst hsame
      rw [List.map_cons, List.count_cons_self, hrest, if_neg (Nat.lt_irrefl _), if_pos hahead]
    · have hdiffer : home.above u.candidate ≠ home.above player := fun heq =>
        hsame (Seat.above_inj heq)
      rw [List.map_cons, List.count_cons_of_ne hsame, hrest]
      split <;> split <;> omega

end Turn

namespace Game

/-- **The turn goes round fairly.** In every history of a game each turn but the first
falls to the lowest seat taken above the one before, or to the lowest of all, whatever
special elections, killings, chaos and vetoes come in between. So between two turns of a
player that are not parted by a third, everybody else who is alive at all turns from the
one to the other has exactly one. -/
theorem History.rotates {r : Rules} {past : List Deed} {g : Game} (h : History (.new r) past g) :
    (Deed.turns past).IsChain Turn.Passes ∧
      ∀ (before between after : List Turn) (first last : Turn),
        Deed.turns past = before ++ first :: (between ++ last :: after) →
        last.candidate = first.candidate →
        (∀ turn ∈ between, turn.candidate ≠ first.candidate) →
        ∀ player, player ≠ first.candidate →
          (∀ turn ∈ first :: (between ++ [last]), player ∈ turn.seated) →
          (between.map Turn.candidate).count player = 1 := by
  have hchain := h.turns_pass.1
  refine ⟨hchain, fun before between after first last hturns hhome haway player hother halive => ?_⟩
  have hround : (first :: (between ++ [last])).IsChain Turn.Passes := by
    refine hchain.infix ⟨before, after, ?_⟩
    simp [hturns]
  have hcount := Turn.count_between hround hhome haway fun turn hturn => halive turn (.tail _ hturn)
  rw [hcount, Seat.above_self, if_pos (Seat.above_pos hother)]

/-- Between two turns of the first player of the eventful game each of the three others
who live has one: a killing after the first turn and a special election after the second
change nothing of it. -/
theorem History.rotates_eventful :
    ∃ g, History (.new .eventful) eventfulPast g ∧
      ∃ (first last : Turn) (between after : List Turn),
        Deed.turns eventfulPast = first :: (between ++ last :: after) ∧
        first.candidate = ⟨1⟩ ∧ last.candidate = ⟨1⟩ ∧ last.seated = [⟨1⟩, ⟨2⟩, ⟨3⟩, ⟨5⟩] ∧
        ∀ player ∈ [⟨2⟩, ⟨3⟩, ⟨5⟩], (between.map Turn.candidate).count player = 1 := by
  obtain ⟨g, hpast⟩ := history_eventfulPast
  let left : List Seat := [⟨1⟩, ⟨2⟩, ⟨3⟩, ⟨5⟩]
  have hturns : Deed.turns eventfulPast = [] ++ ⟨⟨1⟩, [⟨1⟩, ⟨2⟩, ⟨3⟩, ⟨4⟩, ⟨5⟩]⟩ ::
      ([⟨⟨2⟩, left⟩, ⟨⟨3⟩, left⟩, ⟨⟨5⟩, left⟩] ++ ⟨⟨1⟩, left⟩ :: [⟨⟨2⟩, left⟩, ⟨⟨3⟩, left⟩]) := by
    decide +kernel
  refine ⟨.running g, hpast, _, _, _, _, hturns, rfl, rfl, rfl, fun player hplayer => ?_⟩
  have hothers : ∀ player ∈ ([⟨2⟩, ⟨3⟩, ⟨5⟩] : List Seat), player ≠ ⟨1⟩ ∧
      ∀ turn ∈ [(⟨⟨1⟩, [⟨1⟩, ⟨2⟩, ⟨3⟩, ⟨4⟩, ⟨5⟩]⟩ : Turn), ⟨⟨2⟩, left⟩, ⟨⟨3⟩, left⟩, ⟨⟨5⟩, left⟩,
        ⟨⟨1⟩, left⟩], player ∈ turn.seated := by decide
  obtain ⟨hother, halive⟩ := hothers player hplayer
  exact hpast.rotates.2 _ _ _ _ _ hturns rfl (by decide) player hother halive

end Game

end SecretHitler
