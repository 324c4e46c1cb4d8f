import SecretHitler.Proofs.Linearizability
import SecretHitler.Proofs.RoundTrip
/-!
# Numbers outlive the store

A store that is saved and loaded again has the games it had, under their numbers, and
goes on counting where it was. So a number is handed out once in all of the lifetime
of a store, restarts included, and also if its game has been removed meanwhile
(`Lifetime.numbers_fresh`).

The invariant is that a store is ahead of its games: every number that a game is kept
under is below the next one. A loaded store is ahead whatever its snapshot names as
next, because it counts on from the highest game too.
-/

namespace SecretHitler

namespace Table

variable {κ α β : Type} [Ranked κ]

/-- What is found is what was there, changed. -/
theorem find?_mapValues (t : Table κ α) (f : α → β) (k : κ) :
    (t.mapValues f).find? k = (t.find? k).map f := by
  simp only [find?, mapValues, List.find?_map, Option.map_map]
  rfl

theorem keys_mapValues (t : Table κ α) (f : α → β) : (t.mapValues f).keys = t.keys := by
  simp only [keys, mapValues, List.map_map]
  rfl

end Table

namespace Store

variable {σ : Type} [RandomSource σ] {s s' start : Store} {id : GameId} {ids : List GameId}
  {saved : Snapshot}

/-- **A store is ahead of its games**: every number that is kept has been handed out. -/
def Ahead (s : Store) : Prop := ∀ id v, s.read id = some v → s.Issued id

theorem ahead_empty : Ahead .empty := nofun

/-- The next number has not been handed out. -/
theorem not_issued_next (hid : id.number = s.nextId) : ¬ s.Issued id := by
  rw [Issued, hid]
  exact Nat.lt_irrefl _

theorem Ahead.read_next (h : s.Ahead) (hid : id.number = s.nextId) : s.read id = none :=
  Option.eq_none_iff_forall_ne_some.mpr fun v hread => not_issued_next hid (h id v hread)

/-! ## Saving and loading -/

/-- The number that follows on a game, or the one so far if that is higher. -/
theorem toNat_max_succ (next : UInt64) (hroom : id.number.toNat + 1 < UInt64.size) :
    (max next (id.number + 1)).toNat = max next.toNat (id.number.toNat + 1) := by
  rw [UInt64.toNat_max, UInt64.toNat_add, UInt64.toNat_one, Nat.mod_eq_of_lt hroom]

/-- **The least number above every game** of a snapshot and not below the one it names. -/
theorem freshId_eq_ok (h : ∀ id ∈ saved.games.keys, id.number.toNat + 1 < UInt64.size) :
    ∃ next, freshId saved = .ok next ∧ saved.nextId.toNat ≤ next.toNat ∧
      (∀ id ∈ saved.games.keys, id.number.toNat < next.toNat) ∧
      (next = saved.nextId ∨ ∃ id ∈ saved.games.keys, next.toNat = id.number.toNat + 1) := by
  rw [freshId]
  generalize saved.games.keys = ids at h ⊢
  generalize saved.nextId = start
  induction ids generalizing start with
  | nil => exact ⟨start, rfl, Nat.le_refl _, nofun, .inl rfl⟩
  | cons id rest ih =>
    have hroom := h id (.head _)
    have hmax := toNat_max_succ start hroom
    obtain ⟨next, hok, hle, habove, hleast⟩ :=
      ih (fun id hid => h id (.tail _ hid)) (max start (id.number + 1))
    refine ⟨next, ?_, by omega, fun id' hid' => ?_, ?_⟩
    · rw [List.foldlM_cons, if_pos hroom]
      exact hok
    · rcases List.mem_cons.mp hid' with rfl | hid'
      · omega
      · exact habove id' hid'
    · rcases hleast with rfl | ⟨id', hid', hnext⟩
      · by_cases hstart : id.number.toNat + 1 ≤ start.toNat
        · exact .inl (UInt64.toNat_inj.mp (by omega))
        · exact .inr ⟨id, .head _, by omega⟩
      · exact .inr ⟨id', .tail _ hid', hnext⟩

/-- **What is loaded**: the games of the snapshot, at version zero, and a number that is
above them all and no higher than that takes. -/
theorem load_eq_ok (h : ∀ id ∈ saved.games.keys, id.number.toNat + 1 < UInt64.size) :
    ∃ s, load saved = .ok s ∧ (∀ id, s.read id = (saved.games.find? id).map (⟨0, ·⟩)) ∧
      saved.nextId.toNat ≤ s.nextId.toNat ∧ (∀ id ∈ saved.games.keys, s.Issued id) ∧
      (s.nextId = saved.nextId ∨
        ∃ id ∈ saved.games.keys, s.nextId.toNat = id.number.toNat + 1) := by
  obtain ⟨next, hfresh, hnext⟩ := freshId_eq_ok h
  refine ⟨⟨next, saved.games.mapValues fun g => ⟨0, g⟩⟩, ?_, fun id => ?_, hnext⟩
  · rw [load, hfresh]
    rfl
  · exact Table.find?_mapValues ..

/-- The store that comes back from `s` has its games, at version zero, and its next number. -/
structure Restores (s s' : Store) : Prop where
  nextId : s'.nextId = s.nextId
  read (id : GameId) : s'.read id = (s.get? id).map (⟨0, ·⟩)

theorem decodeText_save (s : Store) : decodeText (encode s.save) = some s.save :=
  decode_arrange .asWritten s.save

/-- **A store that is ahead comes back as it was.** -/
theorem Ahead.exists_load (h : s.Ahead) : ∃ s', load s.save = .ok s' ∧ s.Restores s' := by
  have hissued (id : GameId) (hid : id ∈ s.save.games.keys) : s.Issued id := by
    rw [save, Table.keys_mapValues, Table.mem_keys_iff] at hid
    obtain ⟨v, hv⟩ := hid
    exact h id v hv
  have hroom (id : GameId) (hid : id ∈ s.save.games.keys) : id.number.toNat + 1 < UInt64.size :=
    Nat.lt_of_le_of_lt (hissued id hid) s.nextId.toNat_lt
  obtain ⟨s', hload, hread, hle, -, hnext⟩ := load_eq_ok hroom
  refine ⟨s', hload, ?_, fun id => ?_⟩
  · rcases hnext with hnext | ⟨id, hid, hnext⟩
    · exact hnext
    · -- no game stands above the next number, so there is nothing to catch up with
      have := hissued id hid
      rw [Issued] at this
      exact UInt64.toNat_inj.mp (Nat.le_antisymm (by omega) hle)
  · rw [hread, save, Table.find?_mapValues, get?, Store.read, Option.map_map]

/-! ## One call -/

/-- **A call to a store**, undisturbed: what becomes of the store, and the number that is
handed out if a game begins. A restart loads what was saved. -/
inductive Serves (σ : Type) [RandomSource σ] (s : Store) : Option GameId → Store → Prop
  | create {id : GameId} {s' : Store} (g : Game) (h : s.create g = .ok (id, s')) :
    Serves σ s (some id) s'
  | update {α : Type} {luck luck' : σ} {u : Updated α} (id : GameId) (t : Transition σ α)
    (h : s.update id t luck = (.ok u, luck')) : Serves σ s none u.store
  | tryApply {luck luck' : σ} {s' : Store} {answer : Answer} (id : GameId) (a : Action)
    (h : s.tryApply id a luck = (.ok (s', answer), luck')) : Serves σ s none s'
  | remove (id : GameId) : Serves σ s none (s.remove id)
  | restart {saved : Snapshot} {s' : Store} (hread : decodeText (encode s.save) = some saved)
    (hload : load saved = .ok s') : Serves σ s none s'

omit [RandomSource σ] in
/-- An update leaves the store, or writes to a game that is there. -/
theorem update_cases {α : Type} {t : Transition σ α} {luck luck' : σ} {u : Updated α}
    (h : s.update id t luck = (.ok u, luck')) :
    u.store = s ∨ ∃ seen next, s.read id = some seen ∧ s.write id seen next = .ok u.store := by
  rw [update] at h
  cases hread : s.read id with
  | none =>
    rw [hread] at h
    cases h
    exact .inl rfl
  | some seen =>
    rw [hread] at h
    obtain ⟨⟨next, answer⟩, _, -, hwrite⟩ := Draws.bind_eq_ok.mp h
    obtain ⟨s', hrenew, hret⟩ := Draws.lift_bind_eq_ok.mp hwrite
    cases hret
    rw [renew] at hrenew
    split at hrenew
    · cases hrenew
      exact .inl rfl
    · exact .inr ⟨seen, next, rfl, hrenew⟩

/-- To write to a game takes no number. -/
theorem Ahead.write (h : s.Ahead) {seen : Versioned} {next : Game} (hseen : s.read id = some seen)
    (hwrite : s.write id seen next = .ok s') : s'.Ahead := by
  obtain ⟨-, hnext, hread⟩ := write_eq_ok hwrite
  intro id' v hv
  rw [hread] at hv
  rw [Issued, hnext]
  split at hv
  · rename_i hid
    exact h id' seen (hid ▸ hseen)
  · exact h id' v hv

/-- **What a call does to the numbers**: a new game takes the next one, nothing else
moves it, and the store stays ahead. -/
theorem Serves.spec {id? : Option GameId} (h : s.Serves σ id? s') (hs : s.Ahead) :
    s'.Ahead ∧ s'.nextId.toNat = s.nextId.toNat + id?.toList.length ∧
      ∀ id ∈ id?, id.number = s.nextId := by
  have hnone : ∀ id ∈ (none : Option GameId), id.number = s.nextId := by simp
  have hupdated {α : Type} {u : Updated α} {luck luck' : σ} {id : GameId} {t : Transition σ α}
      (h : s.update id t luck = (.ok u, luck')) : u.store.Ahead ∧ u.store.nextId = s.nextId := by
    obtain heq | ⟨seen, next, hseen, hwrite⟩ := update_cases h
    · rw [heq]
      exact ⟨hs, rfl⟩
    · exact ⟨hs.write hseen hwrite, (write_eq_ok hwrite).2.1⟩
  cases h with
  | create g hcreate =>
    obtain ⟨hid, hnext, hread⟩ := create_eq_ok hcreate
    refine ⟨fun id' v hv => ?_, hnext, fun _ heq => Option.some.inj heq ▸ hid⟩
    rw [hread] at hv
    rw [Issued, hnext]
    split at hv
    · rename_i heq
      rw [← heq, hid]
      exact Nat.lt_succ_self _
    · exact Nat.lt_succ_of_lt (hs id' v hv)
  | update id t hupdate =>
    obtain ⟨hahead, hnext⟩ := hupdated hupdate
    exact ⟨hahead, congrArg _ hnext, hnone⟩
  | tryApply id a happly =>
    obtain ⟨u, _, hupdate, hret⟩ := Draws.bind_eq_ok.mp happly
    cases hret
    obtain ⟨hahead, hnext⟩ := hupdated hupdate
    exact ⟨hahead, congrArg _ hnext, hnone⟩
  | remove id =>
    refine ⟨fun id' v hv => ?_, rfl, hnone⟩
    rw [read_remove] at hv
    split at hv
    · cases hv
    · exact hs id' v hv
  | restart hread hload =>
    obtain ⟨s₁, hload₁, hrestores⟩ := hs.exists_load
    rw [decodeText_save, Option.some.injEq] at hread
    rw [← hread, hload₁, Except.ok.injEq] at hload
    subst hload
    refine ⟨fun id v hv => ?_, congrArg _ hrestores.nextId, hnone⟩
    rw [hrestores.read, Option.map_eq_some_iff] at hv
    obtain ⟨g, hg, -⟩ := hv
    rw [get?, Option.map_eq_some_iff] at hg
    obtain ⟨v, hv, -⟩ := hg
    rw [Issued, hrestores.nextId]
    exact hs id v hv

/-! ## A lifetime -/

/-- **The stores that calls lead to**, one after the other, and all numbers that were
handed out on the way, the latest first. -/
inductive Lifetime (σ : Type) [RandomSource σ] (start : Store) : List GameId → Store → Prop
  | start : Lifetime σ start [] start
  | call {ids : List GameId} {s s' : Store} {id? : Option GameId} (h : Lifetime σ start ids s)
    (hcall : s.Serves σ id? s') : Lifetime σ start (id?.toList ++ ids) s'

/-- What stays true in the lifetime of a store: it counts its games one by one. -/
structure Counts (start : Store) (ids : List GameId) (s : Store) : Prop where
  ahead : s.Ahead
  nextId : s.nextId.toNat = start.nextId.toNat + ids.length
  issued : ∀ id ∈ ids, s.Issued id
  nodup : ids.Nodup

/-- **A call keeps count**, and a number that it hands out is new. -/
theorem Counts.call {id? : Option GameId} (h : Counts start ids s) (hcall : s.Serves σ id? s') :
    Counts start (id?.toList ++ ids) s' := by
  obtain ⟨hahead, hnext, hid⟩ := hcall.spec h.ahead
  have hlater (id : GameId) (hissued : s.Issued id) : s'.Issued id := by
    rw [Issued] at hissued ⊢
    omega
  cases id? with
  | none =>
    exact ⟨hahead, hnext.trans h.nextId, fun id hmem => hlater id (h.issued id hmem), h.nodup⟩
  | some id =>
    have hnew : id.number = s.nextId := hid id rfl
    have hfresh : id ∉ ids := fun hmem => not_issued_next hnew (h.issued id hmem)
    have hlength : s'.nextId.toNat = s.nextId.toNat + 1 := hnext
    refine ⟨hahead, ?_, fun id' hmem => ?_, List.nodup_cons.mpr ⟨hfresh, h.nodup⟩⟩
    · rw [hlength, h.nextId]
      rfl
    · rcases List.mem_cons.mp hmem with rfl | hmem
      · rw [Issued, hnew, hlength]
        exact Nat.lt_succ_self _
      · exact hlater id' (h.issued id' hmem)

/-- So a store that is ahead counts for all of its lifetime. -/
theorem Lifetime.counts (h : Lifetime σ start ids s) (hstart : start.Ahead) :
    Counts start ids s := by
  induction h with
  | start => exact ⟨hstart, rfl, nofun, .nil⟩
  | call _ hcall ih => exact ih.call hcall

/-- A store that counts can begin a game while its numbers last. -/
theorem exists_create (hroom : s.nextId.toNat + 1 < UInt64.size) (g : Game) :
    ∃ s', s.create g = .ok (⟨s.nextId⟩, s') := ⟨_, if_pos hroom⟩

/-- A new game takes a number of its own, and no other game notices. -/
theorem Counts.create {g : Game} (h : Counts start ids s) (hcreate : s.create g = .ok (id, s')) :
    id ∉ ids ∧ s.read id = none ∧ ∀ other, s.read other ≠ none → s'.read other = s.read other := by
  obtain ⟨hid, -, hread⟩ := create_eq_ok hcreate
  have hnone := h.ahead.read_next hid
  refine ⟨fun hmem => not_issued_next hid (h.issued id hmem), hnone, fun other hother => ?_⟩
  rw [hread, if_neg]
  rintro rfl
  exact hother hnone

/-- **Numbers are never handed out twice.** A store that began empty comes back from what
it saved with its games and its next number; all numbers it has handed out differ, be
their games removed or not, and there is another one for every game as long as they
last. A store loaded from any snapshot, consistent or not, hands out none under which
the snapshot has a game, or any other game is kept. -/
theorem Lifetime.numbers_fresh (σ : Type) [RandomSource σ] :
    (∀ ids s, Lifetime σ .empty ids s →
      ids.Nodup ∧
      (∃ saved s', decodeText (encode s.save) = some saved ∧ load saved = .ok s' ∧ s.Restores s') ∧
      (ids.length + 1 < UInt64.size → ∀ g, ∃ id s', s.create g = .ok (id, s') ∧ id ∉ ids)) ∧
    ∀ saved : Snapshot, (∀ id ∈ saved.games.keys, id.number.toNat + 1 < UInt64.size) →
      ∃ loaded, load saved = .ok loaded ∧
        (∀ id, loaded.read id = (saved.games.find? id).map (⟨0, ·⟩)) ∧
        ∀ ids s, Lifetime σ loaded ids s → ids.Nodup ∧
          ∀ g id s', s.create g = .ok (id, s') →
            id ∉ ids ∧ id ∉ saved.games.keys ∧ s.read id = none ∧
              ∀ other, s.read other ≠ none → s'.read other = s.read other := by
  refine ⟨fun ids s hlife => ?_, fun saved hkeys => ?_⟩
  · have hcounts := hlife.counts ahead_empty
    obtain ⟨s', hload, hrestores⟩ := hcounts.ahead.exists_load
    refine ⟨hcounts.nodup, ⟨_, s', decodeText_save s, hload, hrestores⟩, fun hroom g => ?_⟩
    have hnext : s.nextId.toNat = 0 + ids.length := hcounts.nextId
    obtain ⟨s', hcreate⟩ := exists_create (s := s) (by omega) g
    exact ⟨_, s', hcreate, (hcounts.create hcreate).1⟩
  · obtain ⟨loaded, hload, hread, -, hissued, -⟩ := load_eq_ok hkeys
    have hahead : loaded.Ahead := fun id v hv => by
      rw [hread, Option.map_eq_some_iff] at hv
      obtain ⟨g, hg, -⟩ := hv
      exact hissued id (Table.mem_keys_iff.mpr ⟨g, hg⟩)
    refine ⟨loaded, hload, hread, fun ids s hlife => ?_⟩
    have hcounts := hlife.counts hahead
    refine ⟨hcounts.nodup, fun g id s' hcreate => ?_⟩
    obtain ⟨hids, hnone, hothers⟩ := hcounts.create hcreate
    refine ⟨hids, fun hmem => ?_, hnone, hothers⟩
    have hnext : s.nextId.toNat = loaded.nextId.toNat + ids.length := hcounts.nextId
    have hlt := hissued id hmem
    rw [Issued, (create_eq_ok hcreate).1] at hlt
    omega

/-- The number of a removed game is gone after a restart, and a snapshot that would start
from zero again counts on from its game. -/
theorem Lifetime.numbers_fresh_removed :
    (∃ s, Lifetime Script .empty [⟨2⟩, ⟨1⟩, ⟨0⟩] s ∧ s.read ⟨1⟩ = none ∧
      ∃ id s', s.create (.new .standard) = .ok (id, s') ∧ id ∉ [⟨2⟩, ⟨1⟩, (⟨0⟩ : GameId)]) ∧
    ∃ loaded, load ⟨0, Table.empty.insert ⟨5⟩ (.new .standard)⟩ = .ok loaded ∧
      loaded.create (.new .standard) = .ok (⟨6⟩, ⟨7, loaded.games.insert ⟨6⟩ ⟨0, .new .standard⟩⟩) ∧
      loaded.read ⟨6⟩ = none := by
  have hbegun : Lifetime Script .empty [] .empty := .start
  have htwo := (hbegun.call (.create (.new .standard) rfl)).call (.create (.new .standard) rfl)
  have hrestarted := (htwo.call (.remove ⟨1⟩)).call (.restart (decodeText_save _) rfl)
  have hthree := hrestarted.call (.create (.new .standard) rfl)
  constructor
  · obtain ⟨-, -, hnext⟩ := (numbers_fresh Script).1 _ _ hthree
    exact ⟨_, hthree, rfl, hnext (by decide) (.new .standard)⟩
  · obtain ⟨loaded, hload, -, hlife⟩ := (numbers_fresh Script).2
      ⟨0, Table.empty.insert ⟨5⟩ (.new .standard)⟩ (by decide)
    obtain ⟨-, hfresh⟩ := hlife _ _ .start
    cases hload
    obtain ⟨-, -, hnone, -⟩ := hfresh (.new .standard) _ _ rfl
    exact ⟨_, rfl, rfl, hnone⟩

end Store

end SecretHitler
