import SecretHitler.Proofs.Refusals
import SecretHitler.Proofs.Runs
/-!
# Refusals leave no trace

What is refused is refused before anything is drawn (`Game.apply_refusesFirst`), in every
game, sound or not. Three transitions could fail to do so, because behind a refusal of
theirs stands a shuffle: a start is refused before the roles are dealt, a ballot before
the vote is decided, and an answer to a veto before the agenda is laid down. So whatever
a run refused can be struck from it (`Game.answers_unrefused`): the other actions are
answered as they were, and the game and the source of randomness end up where they did.
-/

namespace SecretHitler

/-- Whether an attempt ended in a refusal. -/
def Attempt.isRefused {α : Type} : Attempt α → Bool
  | .error (.rejected _) => true
  | _ => false

theorem Attempt.isRefused_iff {α : Type} {x : Attempt α} : x.isRefused = true ↔ x.Rejects := by
  constructor
  · intro h
    match x, h with
    | .error (.rejected cause), _ => exact rejects_reject cause
  · rintro ⟨cause, rfl⟩
    rfl

namespace Draws

variable {σ α β : Type}

/-- **A computation that is refused, if it is, before it draws.** -/
def RefusesFirst (x : Draws σ α) : Prop := ∀ s, (x s).1.Rejects → (x s).2 = s

theorem NeverRejects.refusesFirst {x : Draws σ α} (h : x.NeverRejects) : x.RefusesFirst :=
  fun s hs => absurd hs (h s)

namespace RefusesFirst

theorem lift (x : Attempt α) : RefusesFirst (liftM x : Draws σ α) := fun _ _ => rfl

/-- A refusal may come after a part that draws nothing. -/
theorem lift_bind {x : Attempt α} {f : α → Draws σ β} (hf : ∀ a, (f a).RefusesFirst) :
    RefusesFirst ((liftM x : Draws σ α) >>= f) := by
  intro s hs
  rcases x with halt | a
  · rfl
  · exact hf a s hs

/-- And what comes after it may draw as it likes, if it is never refused itself. -/
theorem bind {x : Draws σ α} {f : α → Draws σ β} (hx : x.RefusesFirst)
    (hf : ∀ a, (f a).NeverRejects) : RefusesFirst (x >>= f) := by
  intro s hs
  rw [bind_apply] at hs ⊢
  rcases h : x s with ⟨halt | a, t⟩
  · rw [h] at hs
    obtain ⟨cause, hcause⟩ := hs
    have hrejects : (x s).1.Rejects := ⟨cause, by rw [h]; exact congrArg _ (Except.error.inj hcause)⟩
    have hsource : (x s).2 = s := hx s hrejects
    rwa [h] at hsource
  · rw [h] at hs
    exact absurd hs (hf a t)

end RefusesFirst

end Draws

variable {σ : Type} [RandomSource σ]

/-! ## The transitions behind which something is drawn -/

namespace Board

/-- A ballot is refused before the vote is decided. -/
theorem castVote_refusesFirst (b : Board) (g : Government) (votes : Votes) (voter : String)
    (ballot : Ballot) : (b.castVote g votes voter ballot : Draws σ Step).RefusesFirst := by
  refine .lift_bind fun seat => .lift_bind fun votes' => Draws.NeverRejects.refusesFirst ?_
  split
  · exact .bind (b.resolveVote_neverRejects g votes') fun _ => .pure _
  · exact .pure _

/-- An answer to a veto is refused before the agenda is laid down. -/
theorem answerVeto_refusesFirst (b : Board) (g : Government) (agenda : Agenda) (veto : VetoStatus)
    (actor : String) (approved : Bool) :
    (b.answerVeto g agenda veto actor approved : Draws σ Step).RefusesFirst := by
  refine .lift_bind fun president => ?_
  split
  · exact .lift _
  · refine Draws.NeverRejects.refusesFirst ?_
    split
    · exact b.approveVeto_neverRejects g agenda
    · exact .pure _

end Board

theorem Running.play_refusesFirst (g : Running) (a : Action) :
    (g.play a : Draws σ Step).RefusesFirst := by
  obtain ⟨b, phase⟩ := g
  cases phase with
  | voting government votes =>
    cases a with
    | vote voter ballot => exact b.castVote_refusesFirst government votes voter ballot
    | _ => exact .lift _
  | chancellorChoice government agenda veto =>
    cases a with
    | answerVeto actor approved =>
      exact b.answerVeto_refusesFirst government agenda veto actor approved
    | _ => exact .lift _
  | nomination _ | presidentChoice _ _ | powerPending _ _ =>
    -- no action draws anything here
    cases a with
    | _ => exact .lift _

theorem Lobby.play_refusesFirst (l : Lobby) (a : Action) :
    (l.play a : Draws σ Step).RefusesFirst := by
  cases a with
  | start actor =>
    obtain ⟨deal, hdeal, hstart⟩ := l.exists_start_eq (σ := σ) actor
    show (l.start actor).RefusesFirst
    rw [hstart]
    exact .bind (.lift _) hdeal
  | _ => exact .lift _

namespace Game

variable (g : Game) (a : Action) (actions : List Action) (s : σ)

/-- **Nothing is drawn for what is refused**, in any game. -/
theorem apply_refusesFirst : (g.apply a : Draws σ Step).RefusesFirst := by
  have hplay : (g.play a : Draws σ Step).RefusesFirst := by
    cases g with
    | lobby l => exact l.play_refusesFirst a
    | running g => exact g.play_refusesFirst a
    | completed v => exact .lift _
  refine hplay.bind fun step => .bind (.lift step.game.not_rejects_violation) fun found => ?_
  cases found with
  | none => exact .pure _
  | some v => exact .lift (Attempt.not_rejects_fail _)

/-! ## Runs -/

/-- The source of randomness after actions, fed to a game one after another. -/
def sourceAfter (g : Game) : List Action → σ → σ
  | [], s => s
  | a :: rest, s => (g.next (g.apply a s).1).sourceAfter rest (g.apply a s).2

/-- The actions of a run that are not refused. -/
def unrefused (g : Game) (actions : List Action) (s : σ) : List Action :=
  ((actions.zip (g.answers actions s)).filter (!·.2.isRefused)).map (·.1)

variable {g a s}

/-- A refused action is struck from a run, and nothing else changes. -/
theorem unrefused_cons_of_refused (h : (g.apply a s).1.isRefused = true) (rest : List Action) :
    g.unrefused (a :: rest) s = g.unrefused rest s ∧ g.next (g.apply a s).1 = g ∧
      (g.apply a s).2 = s := by
  have hrejects : (g.apply a s).1.Rejects := Attempt.isRefused_iff.mp h
  have hsource : (g.apply a s).2 = s := g.apply_refusesFirst a s hrejects
  have hgame : g.next (g.apply a s).1 = g := by
    obtain ⟨cause, hcause⟩ := hrejects
    rw [hcause]
    rfl
  refine ⟨?_, hgame, hsource⟩
  rw [unrefused, answers, List.zip_cons_cons, List.filter_cons_of_neg (by simp [h]), hgame, hsource]
  rfl

theorem unrefused_cons (h : (g.apply a s).1.isRefused = false) (rest : List Action) :
    g.unrefused (a :: rest) s =
      a :: (g.next (g.apply a s).1).unrefused rest (g.apply a s).2 := by
  rw [unrefused, answers, List.zip_cons_cons, List.filter_cons_of_pos (by simp [h]), List.map_cons]
  rfl

variable (g s)

/-- **Refusals leave no trace.** Struck from a run of any game, the refused actions leave
behind the same answers to all others, with the games and the events in them, the same
game and the same source of randomness. -/
theorem answers_unrefused :
    g.answers (g.unrefused actions s) s = (g.answers actions s).filter (!·.isRefused) ∧
      g.fed (g.unrefused actions s) s = g.fed actions s ∧
      g.sourceAfter (g.unrefused actions s) s = g.sourceAfter actions s := by
  induction actions generalizing g s with
  | nil => exact ⟨rfl, rfl, rfl⟩
  | cons a rest ih =>
    cases hrefused : (g.apply a s).1.isRefused with
    | true =>
      obtain ⟨hstruck, hgame, hsource⟩ := unrefused_cons_of_refused hrefused rest
      rw [hstruck, answers, List.filter_cons_of_neg (by simp [hrefused]), fed, sourceAfter, hgame,
        hsource]
      exact ih g s
    | false =>
      obtain ⟨hanswers, hfed, hsource⟩ := ih (g.next (g.apply a s).1) (g.apply a s).2
      rw [unrefused_cons hrefused, answers, answers, List.filter_cons_of_pos (by simp [hrefused]),
        hanswers, fed, fed, hfed, sourceAfter, sourceAfter, hsource]
      exact ⟨rfl, rfl, rfl⟩

end Game

end SecretHitler
