import SecretHitler.Proofs.Answers
import SecretHitler.Proofs.Clients
import SecretHitler.Randomness.Script
import SecretHitler.Table.Lookup
/-!
# The store is linearizable

Whatever the clients of a store do at the same time, every step can be told in a
world where nobody shares anything (`Explained`): an accepted action was applied to
the game as it stood at that very moment, a refused one to a game that stood there
during the call, and a client that is told that there is no game asked while there
was none. So a game that is kept is what the accepted actions make of it, each of
them once, in the order in which they were settled (`Kept`).

Three facts carry this. A number is never handed out twice, and the version of a
kept game only rises, so a client that finds its version unchanged finds its game
unchanged (`Trails`). An update that writes nothing looks at no version; it is right
because an accepted action always changes the game. And the rules never say that
there is no game.
-/

namespace SecretHitler

/-- What a game becomes by actions, each on its own luck. -/
def Game.replay {σ : Type} [RandomSource σ] (g : Game) (l : List (Action × σ)) : Attempt Game :=
  l.foldlM (fun g p => Step.game <$> (g.apply p.1 p.2).1) g

namespace Store

variable {σ : Type}

/-! ## Histories -/

/-- The store after a history that began with the empty one. -/
def current : List (Moment σ) → Store
  | [] => .empty
  | m :: _ => m.store

@[simp] theorem current_cons (m : Moment σ) (past : List (Moment σ)) :
    current (m :: past) = m.store := rfl

namespace Entry

/-- The client whose call is asked, settled or answered. -/
def client? : Entry σ → Option ℕ
  | asked c _ _ | settled c _ _ _ _ | answered c _ _ _ => some c
  | _ => none

/-- The game that begins under a number. -/
@[simp] def creation? (id : GameId) : Entry σ → Option Game
  | created id' g => if id' = id then some g else none
  | _ => none

/-- The action that is accepted for the game under a number, and its luck. -/
@[simp] def commit? (id : GameId) : Entry σ → Option (Action × σ)
  | settled _ id' a luck (.ok _) => if id' = id then some (a, luck) else none
  | _ => none

end Entry

/-- The games that began under a number, first to last. -/
def creations (id : GameId) (history : List (Moment σ)) : List Game :=
  history.reverse.filterMap (·.entry.creation? id)

/-- The actions accepted for the game under a number, first to last. -/
def commits (id : GameId) (history : List (Moment σ)) : List (Action × σ) :=
  history.reverse.filterMap (·.entry.commit? id)

/-- What is picked out of a list that is read backwards. -/
theorem filterMap_reverse_cons {α β : Type} (f : α → Option β) (a : α) (l : List α) :
    (a :: l).reverse.filterMap f = l.reverse.filterMap f ++ (f a).toList := by
  rw [List.reverse_cons, List.filterMap_append]
  cases h : f a <;> simp [h]

@[simp] theorem creations_cons (id : GameId) (m : Moment σ) (past : List (Moment σ)) :
    creations id (m :: past) = creations id past ++ (m.entry.creation? id).toList :=
  filterMap_reverse_cons ..

@[simp] theorem commits_cons (id : GameId) (m : Moment σ) (past : List (Moment σ)) :
    commits id (m :: past) = commits id past ++ (m.entry.commit? id).toList :=
  filterMap_reverse_cons ..

/-- **A call that is open**: asked and not settled, and the stores that there have
been since, the last one first. -/
inductive Open (c : ℕ) (id : GameId) (a : Action) : List (Moment σ) → List Store → Prop
  | asked {s : Store} {earlier : List (Moment σ)} :
      Open c id a (⟨.asked c id a, s⟩ :: earlier) [s]
  | goesOn {m : Moment σ} {past : List (Moment σ)} {during : List Store} :
      Open c id a past during → m.entry.client? ≠ some c →
      Open c id a (m :: past) (m.store :: during)

/-- The store of now is one of those since a call was asked. -/
theorem Open.current_mem {c : ℕ} {id : GameId} {a : Action} {past : List (Moment σ)}
    {during : List Store} (h : Open c id a past during) : current past ∈ during := by
  cases h with
  | asked | goesOn => exact List.mem_cons_self

/-- **A call that is settled** and not answered. -/
inductive Settled (c : ℕ) (id : GameId) (a : Action) (result : Answer) : List (Moment σ) → Prop
  | settled {luck : σ} {s : Store} {earlier : List (Moment σ)} :
      Settled c id a result (⟨.settled c id a luck result, s⟩ :: earlier)
  | goesOn {m : Moment σ} {past : List (Moment σ)} :
      Settled c id a result past → m.entry.client? ≠ some c → Settled c id a result (m :: past)

/-! ## The store, step by step -/

section Steps

variable {s s' : Store} {id id' : GameId}

theorem read_remove (s : Store) (id id' : GameId) :
    (s.remove id).read id' = if id = id' then none else s.read id' := by
  simp only [read, remove, Table.find?_erase, Ranked.rank_eq_iff]

/-- **What is written**: the next version of one game. -/
theorem write_eq_ok {seen : Versioned} {next : Game} (h : s.write id seen next = .ok s') :
    (seen.version + 1).toNat = seen.version.toNat + 1 ∧ s'.nextId = s.nextId ∧
      ∀ id', s'.read id' = if id = id' then some ⟨seen.version + 1, next⟩ else s.read id' := by
  rw [write] at h
  split at h
  · rename_i hroom
    cases h
    refine ⟨?_, rfl, fun id' => ?_⟩
    · rw [UInt64.toNat_add, UInt64.toNat_one]
      exact Nat.mod_eq_of_lt hroom
    · simp only [read, Table.find?_insert, Ranked.rank_eq_iff]
  · cases h

/-- A number that has been handed out. -/
def Issued (s : Store) (id : GameId) : Prop := id.number.toNat < s.nextId.toNat

/-- **What is created**: version zero of one game, under the next number. -/
theorem create_eq_ok {g : Game} (h : s.create g = .ok (id, s')) :
    id.number = s.nextId ∧ s'.nextId.toNat = s.nextId.toNat + 1 ∧
      ∀ id', s'.read id' = if id = id' then some ⟨0, g⟩ else s.read id' := by
  rw [create] at h
  split at h
  · rename_i hroom
    cases h
    refine ⟨rfl, ?_, fun id' => ?_⟩
    · rw [UInt64.toNat_add, UInt64.toNat_one]
      exact Nat.mod_eq_of_lt hroom
    · simp only [read, Table.find?_insert, Ranked.rank_eq_iff]
  · cases h

/-- **What a last step comes to.** -/
theorem finish_eq_ok {seen : Versioned} {next : Game} {ending : Ending}
    (h : s.finish id seen next = .ok (s', ending)) :
    (next = seen.game ∧ s' = s ∧ ending = .done true) ∨
    (next ≠ seen.game ∧ s.read id = none ∧ s' = s ∧ ending = .done false) ∨
    ∃ v, next ≠ seen.game ∧ s.read id = some v ∧
      (v.version = seen.version ∧ s.write id seen next = .ok s' ∧ ending = .done true ∨
        v.version ≠ seen.version ∧ s' = s ∧ ending = .overtaken) := by
  rw [finish] at h
  split at h
  · rename_i hsame
    cases h
    exact .inl ⟨hsame, rfl, rfl⟩
  rename_i hnew
  cases hread : s.read id with
  | none =>
    rw [hread] at h
    cases h
    exact .inr (.inl ⟨hnew, rfl, rfl, rfl⟩)
  | some v =>
    rw [hread] at h
    refine .inr (.inr ⟨v, hnew, rfl, ?_⟩)
    by_cases hversion : v.version = seen.version
    · obtain ⟨_, hwrite, hret⟩ := Attempt.bind_eq_ok.mp ((if_pos hversion).symm.trans h)
      cases hret
      exact .inl ⟨hversion, hwrite, rfl⟩
    · cases (if_neg hversion).symm.trans h
      exact .inr ⟨hversion, rfl, rfl⟩

/-- **What can become of a store**: a number stays handed out, and a game that is
still kept under it is the one of before or of a later version. -/
structure Evolves (s s' : Store) : Prop where
  nextId : s.nextId.toNat ≤ s'.nextId.toNat
  read : ∀ id v', s.Issued id → s'.read id = some v' →
    ∃ v, s.read id = some v ∧ (v' = v ∨ v.version < v'.version)

theorem Evolves.refl (s : Store) : s.Evolves s := ⟨Nat.le_refl _, fun _ v _ h => ⟨v, h, .inl rfl⟩⟩

/-- **A copy that trails its store**: its number was handed out, and the game there
now, if any, is the same one or of a later version. -/
def Trails (s : Store) (id : GameId) (seen : Versioned) : Prop :=
  s.Issued id ∧ ∀ v, s.read id = some v → v = seen ∨ seen.version < v.version

/-- A copy goes on trailing, whatever becomes of the store. -/
theorem Trails.evolve {seen : Versioned} (h : s.Trails id seen) (hs : s.Evolves s') :
    s'.Trails id seen := by
  obtain ⟨hissued, hseen⟩ := h
  refine ⟨Nat.lt_of_lt_of_le hissued hs.nextId, fun v' hv' => ?_⟩
  obtain ⟨v, hv, rfl | hlater⟩ := hs.read id v' hissued hv'
  · exact hseen v' hv
  · obtain rfl | hbefore := hseen v hv
    · exact .inr hlater
    · exact .inr (UInt64.lt_trans hbefore hlater)

end Steps

/-- A copy of a game that was found since a call was asked. -/
def Found (c : ℕ) (call : Call) (history : List (Moment σ)) (seen : Versioned) : Prop :=
  (∃ during, Open c call.id call.action history during ∧
    ∃ s ∈ during, s.read call.id = some seen) ∧ (current history).Trails call.id seen

/-- What others do leaves a copy that was found. -/
theorem Found.cons {c : ℕ} {call : Call} {past : List (Moment σ)} {m : Moment σ}
    {seen : Versioned} (h : Found c call past seen) (hc : m.entry.client? ≠ some c)
    (hs : (current past).Evolves m.store) : Found c call (m :: past) seen := by
  obtain ⟨⟨during, hopen, s, hmem, hread⟩, htrails⟩ := h
  exact ⟨⟨_, hopen.goesOn hc, s, .tail _ hmem, hread⟩, htrails.evolve hs⟩

/-! ## Moments that their past explains -/

variable [RandomSource σ]

/-- **A moment that its past explains**, as if nobody shared the store. -/
inductive Explained (past : List (Moment σ)) : Moment σ → Prop
  | created {id : GameId} {g : Game} {s : Store} :
      (current past).create g = .ok (id, s) → Explained past ⟨.created id g, s⟩
  | removed (id : GameId) :
      Explained past ⟨.removed id ((current past).get? id), (current past).remove id⟩
  | got (id : GameId) : Explained past ⟨.got id ((current past).get? id), current past⟩
  | asked (c : ℕ) (id : GameId) (a : Action) : Explained past ⟨.asked c id a, current past⟩
  /-- An accepted action was applied to the game as it stood, and is written. -/
  | accepted {c : ℕ} {id : GameId} {a : Action} {luck luck' : σ} {during : List Store}
      {v : Versioned} {step : Step} {s : Store} :
      Open c id a past during → (current past).read id = some v →
      v.game.apply a luck = (.ok step, luck') → (current past).write id v step.game = .ok s →
      Explained past ⟨.settled c id a luck (.ok step), s⟩
  /-- A refused one was applied to the game as it stood at some time since it was
  asked, and leaves the store alone. -/
  | refused {c : ℕ} {id : GameId} {a : Action} {luck luck' : σ} {during : List Store} {s : Store}
      {v : Versioned} {cause : Rejection} :
      Open c id a past during → s ∈ during → s.read id = some v →
      v.game.apply a luck = (.error (.rejected cause), luck') → cause ≠ .noSuchGame →
      Explained past ⟨.settled c id a luck (.error cause), current past⟩
  /-- Who is told that there is no game asked while there was none. -/
  | missing {c : ℕ} {id : GameId} {a : Action} {luck : σ} {during : List Store} {s : Store} :
      Open c id a past during → s ∈ during → s.read id = none →
      Explained past ⟨.settled c id a luck (.error .noSuchGame), current past⟩
  /-- What is answered is what was settled. -/
  | answered {c : ℕ} {id : GameId} {a : Action} {result : Answer} :
      Settled c id a result past → Explained past ⟨.answered c id a result, current past⟩
  | goesOn : Explained past ⟨.goesOn, current past⟩

/-- Numbers stay handed out, and versions only rise. -/
theorem Explained.evolves {past : List (Moment σ)} {m : Moment σ} (h : Explained past m) :
    (current past).Evolves m.store := by
  cases h with
  | created hcreate =>
    obtain ⟨hid, hnext, hread⟩ := create_eq_ok hcreate
    refine ⟨hnext ▸ Nat.le_succ _, fun id' v hissued hv => ?_⟩
    rw [hread] at hv
    split at hv
    · rename_i heq
      rw [Issued, ← heq, hid] at hissued
      exact absurd hissued (Nat.lt_irrefl _)
    · exact ⟨v, hv, .inl rfl⟩
  | removed id =>
    refine ⟨Nat.le_refl _, fun id' v _ hv => ?_⟩
    rw [read_remove] at hv
    split at hv
    · cases hv
    · exact ⟨v, hv, .inl rfl⟩
  | @accepted _ id _ _ _ _ v step s _ hread _ hwrite =>
    obtain ⟨hversion, hnext, hreads⟩ := write_eq_ok hwrite
    refine ⟨Nat.le_of_eq (congrArg _ hnext.symm), fun id' v' _ hv' => ?_⟩
    rw [hreads] at hv'
    split at hv'
    · rename_i heq
      cases hv'
      refine ⟨v, heq ▸ hread, .inr (UInt64.lt_iff_toNat_lt.mpr ?_)⟩
      rw [hversion]
      exact Nat.lt_succ_self _
    · exact ⟨v', hv', .inl rfl⟩
  | got | asked | refused | missing | answered | goesOn => exact .refl _

/-! ## What the store keeps -/

/-- **What the store keeps after a history**: the games under numbers that were
handed out, each of them what the accepted actions made of it. -/
structure Kept (history : List (Moment σ)) : Prop where
  issued : ∀ id v, (current history).read id = some v → (current history).Issued id
  fresh : ∀ id, ¬ (current history).Issued id →
    creations id history = [] ∧ commits id history = []
  state : ∀ id v, (current history).read id = some v → ∃ g, creations id history = [g] ∧
    g.replay (commits id history) = .ok v.game ∧ v.version.toNat = (commits id history).length

theorem kept_nil : Kept ([] : List (Moment σ)) := by
  refine ⟨fun id v h => ?_, fun _ _ => ⟨rfl, rfl⟩, fun id v h => ?_⟩ <;> cases h

/-- An accepted action is one more. -/
theorem replay_append {g g' : Game} {l : List (Action × σ)} {a : Action} {luck luck' : σ}
    {step : Step} (h : g.replay l = .ok g') (happly : g'.apply a luck = (.ok step, luck')) :
    g.replay (l ++ [(a, luck)]) = .ok step.game := by
  rw [Game.replay] at h ⊢
  rw [List.foldlM_append, h, Attempt.ok_bind, List.foldlM_cons, happly]
  rfl

namespace Kept

variable {past : List (Moment σ)} {m : Moment σ}

/-- A moment that leaves the store alone, and tells of no game and no commit. -/
theorem quiet (h : Kept past) (hstore : m.store = current past)
    (hcreation : ∀ id, m.entry.creation? id = none) (hcommit : ∀ id, m.entry.commit? id = none) :
    Kept (m :: past) := by
  obtain ⟨hissued, hfresh, hstate⟩ := h
  constructor <;> simp only [current_cons, hstore, creations_cons, commits_cons, hcreation, hcommit,
    Option.toList_none, List.append_nil]
  · exact hissued
  · exact hfresh
  · exact hstate

/-- A game begins under a number that nobody has. -/
theorem created {id : GameId} {g : Game} {s : Store} (h : Kept past)
    (hcreate : (current past).create g = .ok (id, s)) : Kept (⟨.created id g, s⟩ :: past) := by
  obtain ⟨hid, hnext, hread⟩ := create_eq_ok hcreate
  have hnew : ¬ (current past).Issued id := fun hissued => by
    rw [Issued, hid] at hissued
    exact Nat.lt_irrefl _ hissued
  refine ⟨fun id' v hv => ?_, fun id' hfresh => ?_, fun id' v hv => ?_⟩
  · rw [current_cons, hread] at hv
    rw [current_cons, Issued, hnext]
    split at hv
    · rename_i heq
      rw [← heq, hid]
      exact Nat.lt_succ_self _
    · exact Nat.lt_succ_of_lt (h.issued id' v hv)
  · rw [current_cons, Issued, hnext] at hfresh
    have hne : id ≠ id' := fun heq => hfresh (by rw [← heq, hid]; exact Nat.lt_succ_self _)
    have hold := h.fresh id' fun hissued => hfresh (Nat.lt_succ_of_lt hissued)
    simp [hold, hne]
  · rw [current_cons, hread] at hv
    split at hv
    · rename_i heq
      subst heq
      cases hv
      have hold := h.fresh id hnew
      refine ⟨g, ?_, ?_, ?_⟩ <;> simp [hold, Game.replay]
    · rename_i hne
      simpa [hne] using h.state id' v hv

/-- A game that is gone needs no account. -/
theorem removed (h : Kept past) (id : GameId) :
    Kept (⟨.removed id ((current past).get? id), (current past).remove id⟩ :: past) := by
  have hread {id' : GameId} {v : Versioned} (hv : ((current past).remove id).read id' = some v) :
      (current past).read id' = some v := by
    rw [read_remove] at hv
    split at hv
    · cases hv
    · exact hv
  refine ⟨fun id' v hv => h.issued id' v (hread hv), fun id' hfresh => ?_, fun id' v hv => ?_⟩
  · simpa using h.fresh id' hfresh
  · simpa using h.state id' v (hread hv)

/-- A write is one more accepted action, and one more version. -/
theorem accepted {c : ℕ} {id : GameId} {a : Action} {luck luck' : σ} {v : Versioned} {step : Step}
    {s : Store} (h : Kept past) (hv : (current past).read id = some v)
    (happly : v.game.apply a luck = (.ok step, luck'))
    (hwrite : (current past).write id v step.game = .ok s) :
    Kept (⟨.settled c id a luck (.ok step), s⟩ :: past) := by
  obtain ⟨hnumber, hnext, hreads⟩ := write_eq_ok hwrite
  have hissued (id' : GameId) : s.Issued id' ↔ (current past).Issued id' := by
    rw [Issued, Issued, hnext]
  refine ⟨fun id' v' hv' => ?_, fun id' hfresh => ?_, fun id' v' hv' => ?_⟩
  · rw [current_cons, hreads] at hv'
    rw [current_cons, hissued]
    split at hv'
    · rename_i heq
      exact heq ▸ h.issued id v hv
    · exact h.issued id' v' hv'
  · rw [current_cons, hissued] at hfresh
    have hne : id ≠ id' := fun heq => hfresh (heq ▸ h.issued id v hv)
    have hold := h.fresh id' hfresh
    simpa [hne] using hold
  · rw [current_cons, hreads] at hv'
    split at hv'
    · rename_i heq
      subst heq
      cases hv'
      obtain ⟨g, hcreations, hreplay, hversion⟩ := h.state id v hv
      refine ⟨g, ?_, ?_, ?_⟩
      · simpa using hcreations
      · simpa using replay_append hreplay happly
      · simp [hnumber, hversion]
    · rename_i hne
      simpa [hne] using h.state id' v' hv'

end Kept

/-- **One more explained moment** keeps the store as it should be. -/
theorem Explained.kept {past : List (Moment σ)} {m : Moment σ} (h : Explained past m)
    (hpast : Kept past) : Kept (m :: past) := by
  cases h with
  | created hcreate => exact hpast.created hcreate
  | removed id => exact hpast.removed id
  | accepted _ hread happly hwrite => exact hpast.accepted hread happly hwrite
  | got | asked | refused | missing | answered | goesOn =>
    exact hpast.quiet rfl (fun _ => rfl) fun _ => rfl

/-! ## Where the clients stand -/

/-- **Where a client stands**: what the history tells of its call. -/
def Stands (c : ℕ) (history : List (Moment σ)) : Stage σ → Prop
  | .idle => True
  | .reading call => ∃ during, Open c call.id call.action history during
  | .working call seen => Found c call history seen
  | .writing call seen luck next => Found c call history seen ∧ ∃ answer luck',
      call.outcome = some answer ∧
        attempt call.action seen.game luck = (.ok (next, answer), luck')
  | .returning id a result => Settled c id a result history

section Clients

variable {past : List (Moment σ)} {m : Moment σ} {c : ℕ}

/-- **What others do leaves a client where it stands.** -/
theorem Stands.cons {stage : Stage σ} (h : Stands c past stage) (hc : m.entry.client? ≠ some c)
    (hs : (current past).Evolves m.store) : Stands c (m :: past) stage := by
  cases stage with
  | idle => exact trivial
  | reading call =>
    obtain ⟨during, hopen⟩ := h
    exact ⟨_, hopen.goesOn hc⟩
  | working call seen => exact Found.cons h hc hs
  | writing call seen luck next => exact ⟨h.1.cons hc hs, h.2⟩
  | returning id a result => exact Settled.goesOn h hc

/-- An attempt is accepted and changes the game, or refused and leaves it. -/
theorem attempt_eq_ok {a : Action} {g next : Game} {answer : Answer} {luck luck' : σ}
    (h : attempt a g luck = (.ok (next, answer), luck')) :
    (∃ step, g.apply a luck = (.ok step, luck') ∧ next = step.game ∧ next ≠ g ∧
      answer = .ok step) ∨
    ∃ cause, g.apply a luck = (.error (.rejected cause), luck') ∧ next = g ∧
      cause ≠ .noSuchGame ∧ answer = .error cause := by
  rw [attempt] at h
  split at h
  · rename_i step _ happly
    cases h
    exact .inl ⟨step, happly, rfl, Game.apply_changes happly, rfl⟩
  · rename_i cause _ happly
    cases h
    refine .inr ⟨cause, happly, rfl, ?_, rfl⟩
    rintro rfl
    exact Game.apply_findsGame g a luck (congrArg Prod.fst happly)
  · cases h

/-- **A finished call is explained**: refused if there is nothing to write, told that
the game is gone if it is, and else accepted, for then the version still stands and
so does the game. -/
theorem explained_of_finish {call : Call} {seen : Versioned} {luck : σ} {next : Game} {s : Store}
    {existed : Bool} (h : Stands c past (.writing call seen luck next))
    (hfinish : (current past).finish call.id seen next = .ok (s, .done existed)) :
    Explained past ⟨.settled c call.id call.action luck (call.result s existed), s⟩ := by
  obtain ⟨⟨⟨during, hopen, s', hmem, hread⟩, htrails⟩, answer, luck', houtcome, hattempt⟩ := h
  have hresult (s : Store) : call.result s true = answer := by
    simp [Call.result, Updated.result, houtcome]
  obtain ⟨hsame, rfl, hend⟩ | ⟨-, hgone, rfl, hend⟩ |
    ⟨v, hnew, hv, ⟨hversion, hwrite, hend⟩ | ⟨-, -, hend⟩⟩ := finish_eq_ok hfinish
  · cases hend
    rw [hresult]
    obtain ⟨step, _, _, hchanged, _⟩ | ⟨cause, happly, _, hcause, rfl⟩ := attempt_eq_ok hattempt
    · exact absurd hsame hchanged
    · exact .refused hopen hmem hread happly hcause
  · cases hend
    exact .missing hopen hopen.current_mem hgone
  · cases hend
    rw [hresult]
    obtain rfl : v = seen :=
      (htrails.2 v hv).resolve_right fun hlater => UInt64.lt_irrefl _ (hversion ▸ hlater)
    obtain ⟨step, happly, rfl, _, rfl⟩ | ⟨_, _, hunchanged, _⟩ := attempt_eq_ok hattempt
    · exact .accepted hopen hv happly hwrite
    · exact absurd hunchanged hnew
  · cases hend

/-- An overtaken call leaves the store alone. -/
theorem eq_of_overtaken {s s' : Store} {id : GameId} {seen : Versioned} {next : Game}
    (h : s.finish id seen next = .ok (s', .overtaken)) : s' = s := by
  obtain ⟨_, _, hend⟩ | ⟨_, _, _, hend⟩ | ⟨_, _, _, ⟨_, _, hend⟩ | ⟨_, hsame, _⟩⟩ := finish_eq_ok h
  · cases hend
  · cases hend
  · cases hend
  · exact hsame

variable {w w' : System σ} {e : Entry σ}

/-- What the history tells of a client that is seen at a stage. -/
theorem stands_of_eq {luck : σ} {stage : Stage σ}
    (hstands : ∀ c, Stands c past (w.clients c).stage) (h : w.clients c = ⟨luck, stage⟩) :
    Stands c past stage := by
  have hc := hstands c
  rw [h] at hc
  exact hc

/-- **Every step is explained by what came before**, if that tells where the clients
stand. -/
theorem explained_of_does (hstore : w.store = current past)
    (hstands : ∀ c, Stands c past (w.clients c).stage) (h : w.Does e w') :
    Explained past ⟨e, w'.store⟩ := by
  obtain ⟨store, clients⟩ := w
  obtain rfl : store = current past := hstore
  cases h with
  | create hcreate => exact .created hcreate
  | remove id => exact .removed id
  | get id => exact .got id
  | ask id a _ => exact .asked _ id a
  | read _ _ | work _ _ => exact .goesOn
  | miss hc hread =>
    obtain ⟨during, hopen⟩ := stands_of_eq hstands hc
    exact .missing hopen hopen.current_mem hread
  | finish hc hfinish => exact explained_of_finish (stands_of_eq hstands hc) hfinish
  | retry hc hfinish =>
    cases eq_of_overtaken hfinish
    exact .goesOn
  | answer hc => exact .answered (stands_of_eq hstands hc)

/-- A step of one client leaves the others where they stand. -/
theorem stands_put {s : Store} {client : Client σ}
    (hstands : ∀ c, Stands c past (w.clients c).stage) (hs : (current past).Evolves m.store)
    (hm : ∀ c', m.entry.client? = some c' → c' = c) (hc : Stands c (m :: past) client.stage) :
    ∀ c', Stands c' (m :: past) ((w.put c s client).clients c').stage := by
  intro c'
  by_cases h : c' = c
  · subst h
    rw [System.put_clients_self]
    exact hc
  · rw [System.put_clients_of_ne _ _ _ h]
    exact (hstands c').cons (fun heq => h (hm c' heq)) hs

/-- **Every step leaves the clients where the history tells.** -/
theorem stands_of_does (hstore : w.store = current past) (hkept : Kept past)
    (hstands : ∀ c, Stands c past (w.clients c).stage) (h : w.Does e w') :
    ∀ c, Stands c (⟨e, w'.store⟩ :: past) (w'.clients c).stage := by
  have hs : (current past).Evolves w'.store := (explained_of_does hstore hstands h).evolves
  cases h with
  | create | remove | get => exact fun c => (hstands c).cons nofun hs
  | ask id a _ => exact stands_put hstands hs (fun _ h => (Option.some.inj h).symm) ⟨_, .asked⟩
  | read hc hread =>
    obtain ⟨during, hopen⟩ := stands_of_eq hstands hc
    have hissued : w.store.Issued _ := hstore ▸ hkept.issued _ _ (hstore ▸ hread)
    exact stands_put hstands hs nofun ⟨⟨_, hopen.goesOn nofun, w.store, .head _, hread⟩, hissued,
      fun v hv => .inl (Option.some.inj (hv.symm.trans hread))⟩
  | miss hc _ =>
    exact stands_put hstands hs (fun _ h => (Option.some.inj h).symm) .settled
  | work hc hattempt =>
    exact stands_put hstands hs nofun ⟨Found.cons (stands_of_eq hstands hc) nofun hs, _, _, rfl, hattempt⟩
  | finish hc _ => exact stands_put hstands hs (fun _ h => (Option.some.inj h).symm) .settled
  | retry hc _ =>
    obtain ⟨⟨⟨during, hopen, -⟩, -⟩, -⟩ := stands_of_eq hstands hc
    exact stands_put hstands hs nofun ⟨_, hopen.goesOn nofun⟩
  | answer hc => exact stands_put hstands hs (fun _ h => (Option.some.inj h).symm) trivial

end Clients

/-! ## Runs -/

/-- **A linearizable history**: every moment is explained by its past; and whenever
a game is kept, it has begun once, it is what the actions accepted for it make of
it, and its version is their number. -/
structure Linearizable (history : List (Moment σ)) : Prop where
  explained : ∀ later m past, history = later ++ m :: past → Explained past m
  state : ∀ later past, history = later ++ past → ∀ id v, (current past).read id = some v →
    ∃ g, creations id past = [g] ∧ g.replay (commits id past) = .ok v.game ∧
      v.version.toNat = (commits id past).length

/-- **A history whose moments are explained keeps the store as it should be.** -/
theorem kept_of_explained {history : List (Moment σ)}
    (h : ∀ later m past, history = later ++ m :: past → Explained past m) : Kept history := by
  induction history with
  | nil => exact kept_nil
  | cons m past ih =>
    exact (h [] m past rfl).kept (ih fun later m' past' heq => h (m :: later) m' past' (heq ▸ rfl))

theorem linearizable_of_explained {history : List (Moment σ)}
    (h : ∀ later m past, history = later ++ m :: past → Explained past m) :
    Linearizable history := by
  refine ⟨h, fun later past heq => (kept_of_explained fun later' m past' hpast => ?_).state⟩
  exact h (later ++ later') m past' (by rw [heq, hpast, List.append_assoc])

/-- What holds of a run: its history is explained, and tells where it has led. -/
theorem Run.explained {luck : ℕ → σ} {history : List (Moment σ)} {w : System σ}
    (h : Run (.start luck) history w) :
    w.store = current history ∧ (∀ c, Stands c history (w.clients c).stage) ∧
      ∀ later m past, history = later ++ m :: past → Explained past m := by
  induction h with
  | start =>
    refine ⟨rfl, fun c => trivial, fun later m past heq => ?_⟩
    cases later <;> cases heq
  | @step history w w' e _ hdoes ih =>
    obtain ⟨hstore, hstands, hexplained⟩ := ih
    refine ⟨rfl, stands_of_does hstore (kept_of_explained hexplained) hstands hdoes,
      fun later m past heq => ?_⟩
    cases later with
    | nil =>
      cases heq
      exact explained_of_does hstore hstands hdoes
    | cons m' later => exact hexplained later m past (List.cons.inj heq).2

/-- **Every run of any number of clients is linearizable.** -/
theorem Run.linearizable {luck : ℕ → σ} {history : List (Moment σ)} {w : System σ}
    (h : Run (.start luck) history w) : w.store = current history ∧ Linearizable history :=
  ⟨h.explained.1, linearizable_of_explained h.explained.2.2⟩

/-- Two clients find the same empty lobby. The one that is slower is overtaken and
joins behind the other. -/
theorem Run.linearizable_contended : ∃ (history : List (Moment Script)) (w : System Script),
    Run (.start fun _ => .ofWords []) history w ∧
      w.store.read ⟨0⟩ = some ⟨2, .lobby ⟨["a", "b"], .standard⟩⟩ ∧
      commits ⟨0⟩ history = [(.join "a", .ofWords []), (.join "b", .ofWords [])] ∧
      w.store = current history ∧ Linearizable history := by
  have hbegun : Run (System.start fun _ => Script.ofWords []) [] _ := .start
  have hcreated := hbegun.step (.create (g := .new .standard) rfl)
  have hasked := (hcreated.step (.ask (c := 0) ⟨0⟩ (.join "a") rfl)).step
    (.ask (c := 1) ⟨0⟩ (.join "b") rfl)
  have hread := (hasked.step (.read (c := 0) rfl rfl)).step (.read (c := 1) rfl rfl)
  have hworked := (hread.step (.work (c := 0) rfl rfl)).step (.work (c := 1) rfl rfl)
  have hwritten := hworked.step (.finish (c := 0) rfl rfl)
  have hretried := hwritten.step (.retry (c := 1) rfl rfl)
  have hagain := ((hretried.step (.read (c := 1) rfl rfl)).step (.work (c := 1) rfl rfl)).step
    (.finish (c := 1) rfl rfl)
  have hanswered := (hagain.step (.answer (c := 0) rfl)).step (.answer (c := 1) rfl)
  exact ⟨_, _, hanswered, rfl, rfl, hanswered.linearizable⟩

end Store

end SecretHitler
