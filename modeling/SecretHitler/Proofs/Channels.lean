import Mathlib.Data.List.Basic
import Mathlib.Data.List.Induction
import SecretHitler.Store.Bindings
/-!
# Channels and games, one to one

A binding is kept twice, by channel and by game, and each call changes both maps or none.
So they stay inverse to one another over any calls (`OneToOne.call`), and it is enough to
follow one side: what a channel is bound to is what its latest binding was to, if nothing
has freed it since (`lookup_ofCalls`).
-/

namespace SecretHitler

namespace Bindings

/-- Something asked of the bindings. -/
inductive Call
  | bind (channel : String) (game : GameId)
  | unbind (channel : String)
deriving DecidableEq

/-- The bindings after a call. -/
def call (b : Bindings) : Call → Bindings
  | .bind channel game => (b.tryBind channel game).1
  | .unbind channel => (b.unbind channel).1

/-- The bindings that come of calls when nothing was bound before. -/
def ofCalls (calls : List Call) : Bindings := calls.foldl call empty

/-- The channel in which a game is played. -/
def channelOf (b : Bindings) (game : GameId) : Option String := b.byGame[game]?

/-- **The two sides agree**: a channel has a game exactly when the game has the channel. -/
def OneToOne (b : Bindings) : Prop :=
  ∀ channel game, b.lookup channel = some game ↔ b.channelOf game = some channel

/-- The bindings with one more. -/
def link (b : Bindings) (channel : String) (game : GameId) : Bindings :=
  ⟨b.byChannel.insert channel game, b.byGame.insert game channel⟩

/-- The bindings with one less. -/
def unlink (b : Bindings) (channel : String) (game : GameId) : Bindings :=
  ⟨b.byChannel.erase channel, b.byGame.erase game⟩

variable {b : Bindings} {channel channel' : String} {game game' : GameId}

/-- A new binding shows from the side of its channel, -/
theorem lookup_link : (b.link channel game).lookup channel' =
    if channel = channel' then some game else b.lookup channel' := by
  simp only [lookup, link, Std.HashMap.getElem?_insert, beq_iff_eq]

/-- and from the side of its game. -/
theorem channelOf_link : (b.link channel game).channelOf game' =
    if game = game' then some channel else b.channelOf game' := by
  simp only [channelOf, link, Std.HashMap.getElem?_insert, beq_iff_eq]

/-- What is unbound is gone from the side of its channel, -/
theorem lookup_unlink : (b.unlink channel game).lookup channel' =
    if channel = channel' then none else b.lookup channel' := by
  simp only [lookup, unlink, Std.HashMap.getElem?_erase, beq_iff_eq]

/-- and from the side of its game. -/
theorem channelOf_unlink : (b.unlink channel game).channelOf game' =
    if game = game' then none else b.channelOf game' := by
  simp only [channelOf, unlink, Std.HashMap.getElem?_erase, beq_iff_eq]

/-- **A channel and a game are bound if both are free.** -/
theorem tryBind_eq : b.tryBind channel game =
    if b.lookup channel = none ∧ b.channelOf game = none then (b.link channel game, true)
    else (b, false) := by
  rw [tryBind, Std.HashMap.contains_eq_isSome_getElem?, Std.HashMap.contains_eq_isSome_getElem?]
  -- either side may be taken
  cases hchannel : b.byChannel[channel]? with
  | some taken => simp [lookup, hchannel]
  | none =>
    cases hgame : b.byGame[game]? with
    | some taken => simp [channelOf, hgame]
    | none => simp [lookup, channelOf, link, hchannel, hgame]

/-- The flag tells whether both were free. -/
theorem tryBind_iff :
    (b.tryBind channel game).2 = true ↔ b.lookup channel = none ∧ b.channelOf game = none := by
  rw [tryBind_eq]
  split
  · rename_i hfree
    exact iff_of_true rfl hfree
  · rename_i htaken
    exact iff_of_false Bool.false_ne_true htaken

/-- A refused binding leaves both maps. -/
theorem tryBind_of_refused (h : (b.tryBind channel game).2 = false) :
    b.tryBind channel game = (b, false) := by
  rw [tryBind_eq] at h ⊢
  split at h
  · cases h
  · rename_i htaken
    rw [if_neg htaken]

theorem tryBind_of_free (hchannel : b.lookup channel = none) (hgame : b.channelOf game = none) :
    b.tryBind channel game = (b.link channel game, true) := by
  rw [tryBind_eq, if_pos ⟨hchannel, hgame⟩]

/-- Unbinding a channel frees the game that it has. -/
theorem unbind_of_bound (h : b.lookup channel = some game) :
    b.unbind channel = (b.unlink channel game, some game) := by
  rw [unbind, h]
  rfl

/-- A channel without a game is left alone. -/
theorem unbind_of_free (h : b.lookup channel = none) : b.unbind channel = (b, none) := by
  rw [unbind, h]

/-! ## Both sides -/

theorem oneToOne_empty : empty.OneToOne := by
  intro channel game
  simp [lookup, channelOf, empty]

/-- Two that are free may be bound without breaking another binding. -/
theorem OneToOne.link (h : b.OneToOne) (hchannel : b.lookup channel = none)
    (hgame : b.channelOf game = none) : (b.link channel game).OneToOne := by
  intro channel' game'
  rw [lookup_link, channelOf_link]
  by_cases hc : channel = channel'
  · subst hc
    -- its game is the new one, for it had none
    have hnone : b.channelOf game' ≠ some channel := fun hbound => by
      rw [← h, hchannel] at hbound
      cases hbound
    by_cases hg : game = game'
    · simp [hg]
    · simp [hg, hnone]
  · by_cases hg : game = game'
    · subst hg
      have hnone : b.lookup channel' ≠ some game := fun hbound => by
        rw [h, hgame] at hbound
        cases hbound
      simp [hc, hnone]
    · rw [if_neg hc, if_neg hg]
      exact h channel' game'

/-- A binding that is taken out on both sides leaves the others. -/
theorem OneToOne.unlink (h : b.OneToOne) (hbound : b.lookup channel = some game) :
    (b.unlink channel game).OneToOne := by
  intro channel' game'
  rw [lookup_unlink, channelOf_unlink]
  by_cases hc : channel = channel'
  · subst hc
    by_cases hg : game = game'
    · simp [hg]
    · have hother : b.channelOf game' ≠ some channel := fun hbound' => by
        rw [← h, hbound] at hbound'
        exact hg (Option.some.inj hbound')
      simp [hg, hother]
  · by_cases hg : game = game'
    · subst hg
      have hother : b.lookup channel' ≠ some game := fun hbound' => by
        rw [h, (h channel game).mp hbound] at hbound'
        exact hc (Option.some.inj hbound')
      simp [hc, hother]
    · rw [if_neg hc, if_neg hg]
      exact h channel' game'

/-- **A call keeps the two sides together.** -/
theorem OneToOne.call (h : b.OneToOne) (c : Call) : (b.call c).OneToOne := by
  cases c with
  | bind channel game =>
    rw [Bindings.call, tryBind_eq]
    split
    · rename_i hfree
      exact h.link hfree.1 hfree.2
    · exact h
  | unbind channel =>
    cases hlookup : b.lookup channel with
    | none => rwa [Bindings.call, unbind_of_free hlookup]
    | some game =>
      rw [Bindings.call, unbind_of_bound hlookup]
      exact h.unlink hlookup

theorem ofCalls_append (calls : List Call) (c : Call) :
    ofCalls (calls ++ [c]) = (ofCalls calls).call c := List.foldl_append

/-- **Whatever is called, the two sides agree.** -/
theorem oneToOne_ofCalls (calls : List Call) : (ofCalls calls).OneToOne := by
  induction calls using List.reverseRecOn with
  | nil => exact oneToOne_empty
  | append_singleton calls c ih =>
    rw [ofCalls_append]
    exact ih.call c

/-! ## The latest binding -/

/-- **A call that decides about a channel**: it binds it, and is not refused, or it frees
it. -/
def Decides (b : Bindings) (channel : String) : Call → Prop
  | .bind channel' game => channel' = channel ∧ (b.tryBind channel' game).2 = true
  | .unbind channel' => channel' = channel

/-- **The latest binding of a channel**: it was not refused, and no call since then has
decided about the channel. -/
def Latest (calls : List Call) (channel : String) (game : GameId) : Prop :=
  ∃ earlier later, calls = earlier ++ .bind channel game :: later ∧
    ((ofCalls earlier).tryBind channel game).2 = true ∧
    ∀ between c rest, later = between ++ c :: rest →
      ¬ (ofCalls (earlier ++ .bind channel game :: between)).Decides channel c

/-- **What a call does to a channel**: it binds the channel, or if it does not decide about
the channel it leaves it. -/
theorem lookup_call {c : Call} : (b.call c).lookup channel = some game ↔
    (c = .bind channel game ∧ (b.tryBind channel game).2 = true) ∨
      (¬ b.Decides channel c ∧ b.lookup channel = some game) := by
  cases c with
  | bind channel' game' =>
    cases hbinds : (b.tryBind channel' game').2 with
    | false =>
      have hkept : b.call (.bind channel' game') = b := by rw [call, tryBind_of_refused hbinds]
      have hrefused : ¬ b.Decides channel (.bind channel' game') := fun h => by
        rw [h.2] at hbinds
        cases hbinds
      rw [hkept, and_iff_right hrefused, or_iff_right]
      rintro ⟨hsame, hbound⟩
      cases hsame
      rw [hbinds] at hbound
      cases hbound
    | true =>
      obtain ⟨hchannel, hgame⟩ := tryBind_iff.mp hbinds
      rw [call, tryBind_of_free hchannel hgame, lookup_link]
      by_cases hc : channel' = channel
      · subst hc
        have hdecides : b.Decides channel' (.bind channel' game') := ⟨rfl, hbinds⟩
        rw [if_pos rfl, Option.some.injEq, Call.bind.injEq, or_iff_left fun h => h.1 hdecides]
        constructor
        · rintro rfl
          exact ⟨⟨rfl, rfl⟩, hbinds⟩
        · exact fun h => h.1.2
      · rw [if_neg hc, or_iff_right fun h => hc (Call.bind.inj h.1).1,
          and_iff_right fun h => hc h.1]
  | unbind channel' =>
    rw [or_iff_right fun h => Call.noConfusion h.1]
    cases hlookup : b.lookup channel' with
    | none =>
      rw [call, unbind_of_free hlookup]
      refine (and_iff_right_of_imp fun hbound hdecides => ?_).symm
      cases hdecides
      rw [hlookup] at hbound
      cases hbound
    | some bound =>
      rw [call, unbind_of_bound hlookup, lookup_unlink]
      by_cases hc : channel' = channel
      · rw [if_pos hc]
        exact iff_of_false nofun fun h => h.1 hc
      · rw [if_neg hc, and_iff_right]
        exact hc

/-- The latest binding is the last call, or it has been before and the last call does not
decide about the channel. -/
theorem latest_append {calls : List Call} {c : Call} : Latest (calls ++ [c]) channel game ↔
    (c = .bind channel game ∧ ((ofCalls calls).tryBind channel game).2 = true) ∨
      (¬ (ofCalls calls).Decides channel c ∧ Latest calls channel game) := by
  constructor
  · rintro ⟨earlier, later, hcalls, hbinds, hlater⟩
    obtain rfl | ⟨later, last, rfl⟩ := List.eq_nil_or_concat' later
    · obtain ⟨rfl, hlast⟩ := List.append_inj' hcalls rfl
      exact .inl ⟨List.singleton_injective hlast, hbinds⟩
    · rw [← List.cons_append, ← List.append_assoc] at hcalls
      obtain ⟨rfl, hlast⟩ := List.append_inj' hcalls rfl
      obtain rfl := List.singleton_injective hlast
      refine .inr ⟨hlater later c [] rfl, earlier, later, rfl, hbinds,
        fun between d rest hcut => ?_⟩
      exact hlater between d (rest ++ [c]) (by rw [hcut, List.append_assoc]; rfl)
  · rintro (⟨rfl, hbinds⟩ | ⟨hleft, earlier, later, rfl, hbinds, hlater⟩)
    · exact ⟨calls, [], rfl, hbinds, fun between d rest hcut => by simp at hcut⟩
    · refine ⟨earlier, later ++ [c], by simp, hbinds, fun between d rest hcut => ?_⟩
      obtain rfl | ⟨rest, last, rfl⟩ := List.eq_nil_or_concat' rest
      · obtain ⟨rfl, hlast⟩ := List.append_inj' hcut rfl
        exact List.singleton_injective hlast ▸ hleft
      · rw [← List.cons_append, ← List.append_assoc] at hcut
        exact hlater between d rest (List.append_inj' hcut rfl).1

/-- **A channel is bound to what its latest binding was to.** -/
theorem lookup_ofCalls (calls : List Call) :
    (ofCalls calls).lookup channel = some game ↔ Latest calls channel game := by
  induction calls using List.reverseRecOn with
  | nil =>
    refine iff_of_false (by simp [ofCalls, empty, lookup]) ?_
    rintro ⟨earlier, later, hcalls, -⟩
    simp at hcalls
  | append_singleton calls c ih => rw [ofCalls_append, lookup_call, latest_append, ih]

/-! ## What bindings promise -/

/-- **Bindings that are one to one**: the two sides are inverse to one another; a channel
and a game are bound exactly if both are free, and a refusal changes nothing; and a
channel that is freed yields its game, after which both may be bound again, to whatever is
free, and all others are bound as before. -/
structure Exact (b : Bindings) : Prop where
  oneToOne : b.OneToOne
  binds (channel : String) (game : GameId) :
    (b.tryBind channel game).2 = true ↔ b.lookup channel = none ∧ b.channelOf game = none
  refuses (channel : String) (game : GameId) :
    (b.tryBind channel game).2 = false → (b.tryBind channel game).1 = b
  frees (channel : String) (game : GameId) : b.lookup channel = some game →
    ∃ b', b.unbind channel = (b', some game) ∧
      (∀ game', b'.channelOf game' = none → (b'.tryBind channel game').2 = true) ∧
      (∀ channel', b'.lookup channel' = none → (b'.tryBind channel' game).2 = true) ∧
      (b'.tryBind channel game).2 = true ∧
      (∀ channel', channel' ≠ channel → b'.lookup channel' = b.lookup channel') ∧
      ∀ game', game' ≠ game → b'.channelOf game' = b.channelOf game'
  keeps (channel : String) : b.lookup channel = none → b.unbind channel = (b, none)

/-- Where both sides agree every call does what it is for. -/
theorem OneToOne.exact (h : b.OneToOne) : b.Exact := by
  refine ⟨h, fun _ _ => tryBind_iff, fun channel game hrefused => ?_, fun channel game hbound => ?_,
    fun _ => unbind_of_free⟩
  · rw [tryBind_of_refused hrefused]
  · have hchannel : (b.unlink channel game).lookup channel = none := by
      rw [lookup_unlink, if_pos rfl]
    have hgame : (b.unlink channel game).channelOf game = none := by
      rw [channelOf_unlink, if_pos rfl]
    refine ⟨b.unlink channel game, unbind_of_bound hbound,
      fun _ hfree => tryBind_iff.mpr ⟨hchannel, hfree⟩,
      fun _ hfree => tryBind_iff.mpr ⟨hfree, hgame⟩, tryBind_iff.mpr ⟨hchannel, hgame⟩,
      fun channel' hother => ?_, fun game' hother => ?_⟩
    · rw [lookup_unlink, if_neg hother.symm]
    · rw [channelOf_unlink, if_neg hother.symm]

/-- **Bindings stay one to one, and a channel keeps its latest.** Whatever has been asked of
bindings that began empty, they are exact, and a channel is bound to a game exactly when
its latest binding that was not refused was to that game and nothing has freed the channel
since. -/
theorem ofCalls_exact (calls : List Call) :
    (ofCalls calls).Exact ∧
      ∀ channel game, (ofCalls calls).lookup channel = some game ↔ Latest calls channel game :=
  ⟨(oneToOne_ofCalls calls).exact, fun _ _ => lookup_ofCalls calls⟩

end Bindings

end SecretHitler
