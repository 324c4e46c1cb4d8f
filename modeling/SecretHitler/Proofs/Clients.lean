import Mathlib.Data.Nat.Notation
import Mathlib.Logic.Function.Basic
import SecretHitler.Proofs.Outcome
import SecretHitler.Store.Update
/-!
# Clients of a store

Any number of clients that share a store, each with a source of its own. A call
looks its game up, works on the copy that it found, and writes under the lock if
nobody was faster; between these steps others may do anything. Each step holds the
lock for as long as it touches the store, so it is one atomic step here, and a run
is any interleaving of such steps (`Run`). A step that would halt in a fault is not
taken: a client whose work breaks makes no further step.

A call that nobody disturbs is `tryApply`, and one that is disturbed in its first run
is `updateAmid` (`exists_run_of_tryApply`, `exists_run_of_updateAmid`). Whether a call ever ends is
not a matter of this file: a client may be overtaken for ever.
-/

namespace SecretHitler

namespace Store

variable {σ : Type}

/-- A call: an action for a game, how often it has run and its last outcome. -/
structure Call where
  id : GameId
  action : Action
  runs : ℕ
  outcome : Option Answer

namespace Call

/-- A call that has not run yet. -/
def new (id : GameId) (a : Action) : Call := ⟨id, a, 0, none⟩

/-- The call after one more run; the outcome of an earlier run is forgotten. -/
def ran (call : Call) (answer : Answer) : Call :=
  { call with runs := call.runs + 1, outcome := some answer }

/-- The result of a call that ends now. -/
def result (call : Call) (s : Store) (existed : Bool) : Answer :=
  Updated.result ⟨s, existed, call.runs, call.outcome⟩

end Call

/-- How far a client is with its call. -/
inductive Stage (σ : Type)
  | idle
  /-- The game is looked up next. -/
  | reading (call : Call)
  /-- The action is applied next, to the copy of the game that was found. -/
  | working (call : Call) (seen : Versioned)
  /-- The next state is written next; it was worked out on this luck. -/
  | writing (call : Call) (seen : Versioned) (luck : σ) (next : Game)
  /-- The result is handed out next. -/
  | returning (id : GameId) (a : Action) (result : Answer)

/-- A client. -/
structure Client (σ : Type) where
  luck : σ
  stage : Stage σ

/-- A store and its clients. -/
structure System (σ : Type) where
  store : Store
  clients : ℕ → Client σ

namespace System

/-- The empty store, and clients that have called nobody yet. -/
def start (luck : ℕ → σ) : System σ := ⟨.empty, fun c => ⟨luck c, .idle⟩⟩

/-- The system after a step of one client. -/
def put (w : System σ) (c : ℕ) (s : Store) (client : Client σ) : System σ :=
  ⟨s, Function.update w.clients c client⟩

@[simp] theorem put_store (w : System σ) (c : ℕ) (s : Store) (client : Client σ) :
    (w.put c s client).store = s := rfl

@[simp] theorem put_clients_self (w : System σ) (c : ℕ) (s : Store) (client : Client σ) :
    (w.put c s client).clients c = client := Function.update_self ..

@[simp] theorem put_put (w : System σ) (c : ℕ) (s s' : Store) (client client' : Client σ) :
    (w.put c s client).put c s' client' = w.put c s' client' :=
  congrArg (System.mk s') (Function.update_idem ..)

theorem put_clients_of_ne (w : System σ) {c c' : ℕ} (s : Store) (client : Client σ)
    (h : c' ≠ c) : (w.put c s client).clients c' = w.clients c' := Function.update_of_ne h ..

end System

/-- What there is to tell of a step. A call is asked, settled and answered; it is
settled when its result is certain, and written if it is accepted. -/
inductive Entry (σ : Type)
  | created (id : GameId) (g : Game)
  | removed (id : GameId) (found : Option Game)
  | got (id : GameId) (found : Option Game)
  | asked (c : ℕ) (id : GameId) (a : Action)
  | settled (c : ℕ) (id : GameId) (a : Action) (luck : σ) (result : Answer)
  | answered (c : ℕ) (id : GameId) (a : Action) (result : Answer)
  /-- Some client goes on with its call. -/
  | goesOn

/-- A finish that nobody disturbed is done. -/
theorem finish_of_read {s s' : Store} {id : GameId} {seen : Versioned} {next : Game}
    (h : s.read id = some seen) (hnext : s.renew id seen next = .ok s') :
    s.finish id seen next = .ok (s', .done true) := by
  rw [renew] at hnext
  rw [finish]
  split
  · rename_i hsame
    rw [if_pos hsame] at hnext
    cases hnext
    rfl
  · rename_i hnew
    rw [if_neg hnew] at hnext
    simp only [h, if_pos, hnext, Attempt.ok_bind, Attempt.pure_eq_ok]

variable [RandomSource σ]

/-- **The steps of a system.** -/
inductive System.Does (w : System σ) : Entry σ → System σ → Prop
  | create {g : Game} {id : GameId} {s : Store} :
      w.store.create g = .ok (id, s) → Does w (.created id g) { w with store := s }
  | remove (id : GameId) :
      Does w (.removed id (w.store.get? id)) { w with store := w.store.remove id }
  | get (id : GameId) : Does w (.got id (w.store.get? id)) w
  | ask {c : ℕ} {luck : σ} (id : GameId) (a : Action) :
      w.clients c = ⟨luck, .idle⟩ →
      Does w (.asked c id a) (w.put c w.store ⟨luck, .reading (.new id a)⟩)
  | read {c : ℕ} {luck : σ} {call : Call} {seen : Versioned} :
      w.clients c = ⟨luck, .reading call⟩ → w.store.read call.id = some seen →
      Does w .goesOn (w.put c w.store ⟨luck, .working call seen⟩)
  | miss {c : ℕ} {luck : σ} {call : Call} :
      w.clients c = ⟨luck, .reading call⟩ → w.store.read call.id = none →
      Does w (.settled c call.id call.action luck (call.result w.store false))
        (w.put c w.store
          ⟨luck, .returning call.id call.action (call.result w.store false)⟩)
  | work {c : ℕ} {luck luck' : σ} {call : Call} {seen : Versioned} {next : Game}
      {answer : Answer} :
      w.clients c = ⟨luck, .working call seen⟩ →
      attempt call.action seen.game luck = (.ok (next, answer), luck') →
      Does w .goesOn (w.put c w.store ⟨luck', .writing (call.ran answer) seen luck next⟩)
  | finish {c : ℕ} {luck luck' : σ} {call : Call} {seen : Versioned} {next : Game} {s : Store}
      {existed : Bool} :
      w.clients c = ⟨luck', .writing call seen luck next⟩ →
      w.store.finish call.id seen next = .ok (s, .done existed) →
      Does w (.settled c call.id call.action luck (call.result s existed))
        (w.put c s ⟨luck', .returning call.id call.action (call.result s existed)⟩)
  | retry {c : ℕ} {luck luck' : σ} {call : Call} {seen : Versioned} {next : Game} {s : Store} :
      w.clients c = ⟨luck', .writing call seen luck next⟩ →
      w.store.finish call.id seen next = .ok (s, .overtaken) →
      Does w .goesOn (w.put c s ⟨luck', .reading call⟩)
  | answer {c : ℕ} {luck : σ} {id : GameId} {a : Action} {result : Answer} :
      w.clients c = ⟨luck, .returning id a result⟩ →
      Does w (.answered c id a result) (w.put c w.store ⟨luck, .idle⟩)

/-- A step that was taken, and the store after it. -/
structure Moment (σ : Type) where
  entry : Entry σ
  store : Store

/-- **Runs**: any steps in any order. The last moment comes first. -/
inductive Run (start : System σ) : List (Moment σ) → System σ → Prop
  | start : Run start [] start
  | step {history : List (Moment σ)} {w w' : System σ} {e : Entry σ} :
      Run start history w → w.Does e w' → Run start (⟨e, w'.store⟩ :: history) w'

namespace Run

/-- One run after another. -/
theorem trans {w w₁ w₂ : System σ} {first later : List (Moment σ)} (h : Run w first w₁)
    (hlater : Run w₁ later w₂) : Run w (later ++ first) w₂ := by
  induction hlater with
  | start => exact h
  | step _ hdoes ih => exact ih.step hdoes

end Run

/-- A call that nobody disturbs from here on ends as the update does. -/
theorem exists_run_of_update {w : System σ} {c : ℕ} {luck luck' : σ} {call : Call}
    {u : Updated Answer} (hreading : w.clients c = ⟨luck, .reading call⟩)
    (h : w.store.update call.id (attempt call.action) luck = (.ok u, luck')) :
    ∃ earlier, Run w
      (⟨.answered c call.id call.action
          (Updated.result { u with answer := u.answer <|> call.outcome }), u.store⟩ :: earlier)
      (w.put c u.store ⟨luck', .idle⟩) := by
  rw [update] at h
  cases hread : w.store.read call.id with
  | none =>
    rw [hread] at h
    cases h
    have hmissed := Run.start.step (.miss hreading hread)
    have hanswered := hmissed.step (.answer (System.put_clients_self ..))
    simp only [System.put_put, System.put_store] at hanswered
    exact ⟨_, hanswered⟩
  | some seen =>
    rw [hread] at h
    obtain ⟨⟨next, answer⟩, luck₁, hattempt, hwrite⟩ := Draws.bind_eq_ok.mp h
    obtain ⟨s', hnext, hret⟩ := Draws.lift_bind_eq_ok.mp hwrite
    cases hret
    have hfound := Run.start.step (.read hreading hread)
    have hworked := hfound.step (.work (System.put_clients_self ..) hattempt)
    have hsettled := hworked.step
      (.finish (System.put_clients_self ..) (finish_of_read hread hnext))
    have hanswered := hsettled.step (.answer (System.put_clients_self ..))
    simp only [System.put_put, System.put_store] at hanswered
    exact ⟨_, hanswered⟩

/-- **A call that nobody disturbs is `tryApply`.** -/
theorem exists_run_of_tryApply {w : System σ} {c : ℕ} {luck luck' : σ} {id : GameId} {a : Action}
    {s : Store} {answer : Answer} (hidle : w.clients c = ⟨luck, .idle⟩)
    (h : w.store.tryApply id a luck = (.ok (s, answer), luck')) :
    ∃ earlier, Run w (⟨.answered c id a answer, s⟩ :: earlier) (w.put c s ⟨luck', .idle⟩) := by
  obtain ⟨u, _, hupdate, hret⟩ := Draws.bind_eq_ok.mp h
  cases hret
  have hasked := Run.start.step (.ask id a hidle)
  have hreading : (w.put c w.store ⟨luck, .reading (.new id a)⟩).clients c =
      ⟨luck, .reading (.new id a)⟩ := System.put_clients_self ..
  obtain ⟨earlier, hrun⟩ := exists_run_of_update hreading hupdate
  rw [System.put_put] at hrun
  -- a call that has not run yet has no outcome to fall back on
  obtain ⟨s, existed, runs, _ | answer⟩ := u
  · exact ⟨_, hasked.trans hrun⟩
  · exact ⟨_, hasked.trans hrun⟩

/-- **A call that others disturb in its first run is `updateAmid`**: it found its
game in the store `s`, and what they did has led to the store of now. -/
theorem exists_run_of_updateAmid {w : System σ} {c : ℕ} {luck luck' : σ} {id : GameId} {a : Action}
    {s : Store} {seen : Versioned} {u : Updated Answer} {said : Option Unit}
    (hworking : w.clients c = ⟨luck, .working (.new id a) seen⟩) (hread : s.read id = some seen)
    (h : s.updateAmid id (fun _ => pure (w.store, ())) (attempt a) luck = (.ok (u, said), luck')) :
    ∃ earlier, Run w (⟨.answered c id a u.result, u.store⟩ :: earlier)
      (w.put c u.store ⟨luck', .idle⟩) := by
  simp only [updateAmid, hread, pure_bind] at h
  obtain ⟨⟨next, answer⟩, luck₁, hattempt, hend⟩ := Draws.bind_eq_ok.mp h
  have hworked := Run.start.step (.work hworking hattempt)
  obtain ⟨⟨s', ending⟩, hfinish, hend⟩ := Draws.lift_bind_eq_ok.mp hend
  cases ending with
  | done existed =>
    cases hend
    have hsettled := hworked.step (.finish (System.put_clients_self ..) hfinish)
    have hanswered := hsettled.step (.answer (System.put_clients_self ..))
    simp only [System.put_put, System.put_store] at hanswered
    exact ⟨_, hanswered⟩
  | overtaken =>
    obtain ⟨again, luck₂, hupdate, hret⟩ := Draws.bind_eq_ok.mp hend
    cases hret
    have hretried := hworked.step (.retry (System.put_clients_self ..) hfinish)
    rw [System.put_put] at hretried
    have hreading : (w.put c s' ⟨luck₁, .reading ((Call.new id a).ran answer)⟩).clients c =
        ⟨luck₁, .reading ((Call.new id a).ran answer)⟩ := System.put_clients_self ..
    obtain ⟨earlier, hrun⟩ := exists_run_of_update hreading hupdate
    rw [System.put_put] at hrun
    exact ⟨_, hretried.trans hrun⟩

end Store

end SecretHitler
