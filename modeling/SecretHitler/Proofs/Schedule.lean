import SecretHitler.Proofs.Deadlock
/-!
# What a power schedule spares

Each space of the fascist track hands out its power once at most, so the
players killed and investigated are no more than the spaces passed
(`OnSchedule`). A schedule that leaves three players alive, and somebody to
investigate whenever it asks for it, never gets a game stuck (`Spares`).
-/

namespace SecretHitler

/-- How many of the first spaces of the fascist track hold a power. -/
def Configuration.scheduled (c : Configuration) (power : Power) (spaces : ℕ) : ℕ :=
  (List.range spaces).countP fun i => c.powerAt (.ofNat (i + 1)) == some power

/-- **A schedule that spares a table of `n` players**: short of the fascist goal
all but three may be killed at most, and where a space asks for an
investigation somebody is left for it. -/
structure Configuration.Spares (c : Configuration) (n : ℕ) : Prop where
  alive : c.scheduled .execution (c.fascistGoal.toNat - 1) + 3 ≤ n
  unknown : ∀ k < c.fascistGoal.toNat, c.powerAt (.ofNat k) = some .investigateParty →
    c.scheduled .investigateParty k + c.scheduled .execution k < n

instance (c : Configuration) (n : ℕ) : Decidable (c.Spares n) :=
  decidable_of_iff
    (c.scheduled .execution (c.fascistGoal.toNat - 1) + 3 ≤ n ∧
      ∀ k < c.fascistGoal.toNat, c.powerAt (.ofNat k) = some .investigateParty →
        c.scheduled .investigateParty k + c.scheduled .execution k < n)
    ⟨fun h => ⟨h.1, h.2⟩, fun h => ⟨h.alive, h.unknown⟩⟩

/-- **The standard rules spare every table.** -/
theorem Rules.standard_spares {n : ℕ} {c : Configuration}
    (h : Rules.standard.configurationFor n = some c) : c.Spares n := by
  have hall : ∀ n ∈ Rules.standard.tableSizes, ∀ c ∈ Rules.standard.configurationFor n,
      c.Spares n := by decide +kernel
  obtain ⟨hmin, hmax, _⟩ := Rules.configurationFor_eq_some h
  refine hall n ?_ c h
  simp only [Rules.tableSizes, List.mem_range'_1]
  omega

namespace Configuration

variable {c : Configuration} {power : Power} {i j : ℕ}

theorem scheduled_mono (c : Configuration) (power : Power) (h : i ≤ j) :
    c.scheduled power i ≤ c.scheduled power j :=
  (List.range_sublist.mpr h).countP_le

/-- A space that holds a power is one more. -/
theorem scheduled_succ (h : c.powerAt (.ofNat (i + 1)) = some power) :
    c.scheduled power (i + 1) = c.scheduled power i + 1 := by
  rw [scheduled, List.range_succ, List.countP_append, List.countP_singleton, h]
  simp [scheduled]

end Configuration

/-- How often a pending power is still to be used. -/
def Phase.owes : Phase → PendingPower → ℕ
  | .powerPending pending _, power => if pending = power then 1 else 0
  | _, _ => 0

/-- **No space is used twice**: of a table of `n` players no more have been
killed or investigated than the spaces passed allow, a pending power counted
in. -/
structure Board.OnSchedule (n : ℕ) (owed : PendingPower → ℕ) (b : Board) : Prop where
  killed : n + owed .execution ≤
    b.living + b.config.scheduled .execution b.track.fascist.toNat
  investigated : b.investigated.size + owed .investigateParty ≤
    b.config.scheduled .investigateParty b.track.fascist.toNat

/-- A game on schedule; a pending power is the one behind the last space. -/
structure Running.OnSchedule (n : ℕ) (g : Running) : Prop where
  board : g.board.OnSchedule n g.phase.owes
  pending : ∀ pending president, g.phase = .powerPending pending president →
    ∃ power, g.board.config.powerAt g.board.track.fascist = some power ∧
      power.pending = some pending

namespace Board

variable {n : ℕ} {b : Board} {p : Policy} {track : Track} {step : Step} {owed : PendingPower → ℕ}

/-- Nothing is owed in a turn that opens. -/
theorem OnSchedule.opened (h : b.OnSchedule n fun _ => 0) (next : Seat) :
    (b.opened next).Keeps (Running.OnSchedule n) :=
  Step.keeps_running.mpr ⟨⟨h.killed, h.investigated⟩, nofun⟩

theorem fascist_le_of_enact (h : b.track.enact p = .ok track) :
    b.track.fascist.toNat ≤ track.fascist.toNat := by
  cases p with
  | liberal =>
    have hsame : track.count .fascist = b.track.count .fascist :=
      Track.count_of_enact_of_ne h (by decide)
    exact Nat.le_of_eq (congrArg UInt32.toNat hsame.symm)
  | fascist =>
    have hrise : track.fascist.toNat = b.track.fascist.toNat + 1 := Track.count_of_enact h
    omega

/-- An enacted policy passes a space at most. -/
theorem OnSchedule.enact (h : b.OnSchedule n owed) (hrise : b.track.enact p = .ok track) :
    OnSchedule n owed { b with track := track } := by
  have hmono (power : Power) := b.config.scheduled_mono power (fascist_le_of_enact hrise)
  refine ⟨Nat.le_trans h.killed ?_, Nat.le_trans h.investigated (hmono _)⟩
  exact Nat.add_le_add_left (hmono _) _

/-- A space that is passed and holds a power owes it. -/
theorem OnSchedule.unlock {power : Power} {pending : PendingPower}
    (h : b.OnSchedule n fun _ => 0) (hrise : b.track.enact .fascist = .ok track)
    (hpower : b.config.powerAt track.fascist = some power) (hpending : power.pending = some pending) :
    OnSchedule n (fun other => if pending = other then 1 else 0) { b with track := track } := by
  have hspace : track.fascist.toNat = b.track.fascist.toNat + 1 := Track.count_of_enact hrise
  have hheld : b.config.powerAt (.ofNat (b.track.fascist.toNat + 1)) = some power := by
    rw [← hspace, UInt32.ofNat_toNat]
    exact hpower
  -- the space just reached is the one that adds to its power's count
  have hpassed := Configuration.scheduled_succ hheld
  have hmono (other : Power) : b.config.scheduled other b.track.fascist.toNat ≤
      b.config.scheduled other (b.track.fascist.toNat + 1) :=
    b.config.scheduled_mono other (Nat.le_succ _)
  have hkilled := h.killed
  have hinvestigated := h.investigated
  have hexecution := hmono .execution
  have hparty := hmono .investigateParty
  refine ⟨?_, ?_⟩
  · show _ ≤ b.living + b.config.scheduled .execution track.fascist.toNat
    rw [hspace]
    cases power with
    | execution =>
      cases hpending
      simp only [if_true]
      omega
    | policyPeek => cases hpending
    | investigateParty | specialElection =>
      cases hpending
      simp only [reduceCtorEq, if_false]
      omega
  · show _ ≤ b.config.scheduled .investigateParty track.fascist.toNat
    rw [hspace]
    cases power with
    | investigateParty =>
      cases hpending
      simp only [if_true]
      omega
    | policyPeek => cases hpending
    | execution | specialElection =>
      cases hpending
      simp only [reduceCtorEq, if_false]
      omega

theorem Collapses.onSchedule (h : b.Collapses step) (hb : b.OnSchedule n fun _ => 0) :
    step.Keeps (Running.OnSchedule n) := by
  cases h with
  | ended _ _ _ => simp
  | @goesOn drawn track next _ hrise _ _ =>
    have hrisen := hb.enact hrise
    have hcollapsed : OnSchedule n (fun _ => 0) (b.collapsed drawn.deck track) :=
      ⟨hrisen.killed, hrisen.investigated⟩
    exact hcollapsed.opened next

theorem Fails.onSchedule (h : b.Fails step) (hb : b.OnSchedule n fun _ => 0) :
    step.Keeps (Running.OnSchedule n) := by
  cases h with
  | @counted failed next _ _ _ =>
    have hcounted : OnSchedule n (fun _ => 0)
        { b with election := { b.election with tracker := failed } } :=
      ⟨hb.killed, hb.investigated⟩
    exact hcounted.opened next
  | collapsed _ _ hchaos => exact hchaos.onSchedule ⟨hb.killed, hb.investigated⟩

theorem Enacts.onSchedule {president : Seat} (h : b.Enacts president p step)
    (hb : b.OnSchedule n fun _ => 0) : step.Keeps (Running.OnSchedule n) := by
  have governed {track : Track} (hrise : b.track.enact p = .ok track) :
      OnSchedule n (fun _ => 0) (b.governed track) :=
    ⟨(hb.enact hrise).killed, (hb.enact hrise).investigated⟩
  cases h with
  | ended _ _ => simp
  | goesOn hrise _ _ _ => exact (governed hrise).opened _
  | peeks hrise _ _ _ _ => exact (governed hrise).opened _
  | @waits track power pending hrise _ hunlocked hpending =>
    cases p with
    | liberal => cases hunlocked
    | fascist =>
      have howed := hb.unlock hrise hunlocked hpending
      refine Step.keeps_running.mpr ⟨⟨howed.killed, howed.investigated⟩, fun _ _ heq => ?_⟩
      cases heq
      exact ⟨power, hunlocked, hpending⟩

theorem Resolves.onSchedule {g : Government} {votes : Votes} (h : b.Resolves g votes step)
    (hb : b.OnSchedule n fun _ => 0) : step.Keeps (Running.OnSchedule n) := by
  cases h with
  | hitlerElected _ _ => simp
  | elected _ _ _ => exact Step.keeps_running.mpr ⟨⟨hb.killed, hb.investigated⟩, nofun⟩
  | rejected _ _ hfails => exact hfails.onSchedule hb

end Board

/-- **Every move keeps the schedule.** -/
theorem Running.Moves.onSchedule {n : ℕ} {g : Running} {a : Action} {step : Step}
    (h : g.Moves a step) (hg : g.OnSchedule n) : step.Keeps (Running.OnSchedule n) := by
  obtain ⟨⟨hkilled, hinvestigated⟩, _⟩ := hg
  cases h with
  | nominate _ _ _ | vote _ _ _ | discard _ _ | requestVeto _ _ | refuseVeto _ =>
    exact Step.keeps_running.mpr ⟨⟨hkilled, hinvestigated⟩, nofun⟩
  | decide _ _ _ hresolves => exact hresolves.onSchedule ⟨hkilled, hinvestigated⟩
  | enact _ _ _ henacts => exact henacts.onSchedule ⟨hkilled, hinvestigated⟩
  | approveVeto _ _ _ hfails => exact hfails.onSchedule ⟨hkilled, hinvestigated⟩
  | investigate _ _ _ _ _ _ =>
    refine Step.keeps_running.mpr ⟨⟨hkilled, ?_⟩, nofun⟩
    exact Nat.le_trans (Table.size_insert_le ..) hinvestigated
  | callElection _ _ _ => exact Step.keeps_running.mpr ⟨⟨hkilled, hinvestigated⟩, nofun⟩
  | killHitler _ _ _ _ => simp
  | @kill b president target next _ _ _ _ _ hname _ _ _ _ _ _ =>
    refine Step.keeps_running.mpr ⟨⟨?_, hinvestigated⟩, nofun⟩
    have hsize := Seating.size_without (Seating.mem_seats_of_seatOf? hname)
    simp only [Phase.owes, Board.living, if_true] at hkilled ⊢
    omega

theorem Running.Fresh.onSchedule {n : ℕ} {c : Configuration} {g : Running} (h : g.Fresh c n) :
    g.OnSchedule n := by
  obtain ⟨first, _, hphase⟩ := h.nomination
  refine ⟨⟨?_, ?_⟩, fun pending president heq => ?_⟩
  · rw [hphase, h.living]
    exact Nat.le_add_right ..
  · rw [h.uninvestigated, hphase]
    exact Nat.zero_le _
  · rw [hphase] at heq
    cases heq

/-- The players other than a president who has investigated them all. -/
theorem Board.living_le_of_investigated {b : Board} {president : Seat}
    (h : ∀ s ∈ b.seating.seats, s ≠ president → b.investigated.contains s = true) :
    b.living ≤ b.investigated.size + 1 := by
  have hsub : b.seating.seats ⊆ president :: b.investigated.keys := fun s hs => by
    by_cases hs' : s = president
    · simp [hs']
    · exact .tail _ (Table.contains_iff.mp (h s hs hs'))
  rw [← Table.length_keys]
  exact Seating.length_le_of_subset hsub

/-- **A schedule that spares the table gets nobody stuck.** -/
theorem Running.OnSchedule.not_stuck {n : ℕ} {g : Running} (hs : g.OnSchedule n)
    (hg : g.Sound) (hc : g.board.config.Spares n) : ¬ g.Stuck := by
  obtain ⟨b, phase⟩ := g
  obtain ⟨⟨hkilled, hinvestigated⟩, hpending⟩ := hs
  have hbelow : b.track.fascist.toNat < b.config.fascistGoal.toNat :=
    UInt32.lt_iff_toNat_lt.mp (hg.board.below .fascist)
  intro hstuck
  cases phase with
  | nomination candidate =>
    have hspaces := b.config.scheduled_mono .execution
      (show b.track.fascist.toNat ≤ b.config.fascistGoal.toNat - 1 by omega)
    have hfew : b.living ≤ 2 := hstuck.1
    have halive := hc.alive
    simp only [Phase.owes] at hkilled halive hspaces
    omega
  | powerPending pending president =>
    cases pending with
    | investigateParty =>
      have hall := Board.living_le_of_investigated (b := b) hstuck
      obtain ⟨power, hpower, hparty⟩ := hpending .investigateParty president rfl
      obtain rfl : power = .investigateParty := by
        cases power with
        | investigateParty => rfl
        | specialElection | policyPeek | execution => cases hparty
      have hunknown := hc.unknown b.track.fascist.toNat hbelow (by
        rw [UInt32.ofNat_toNat]
        exact hpower)
      simp only [Phase.owes, reduceCtorEq, if_false, if_true] at hkilled hinvestigated hunknown
      omega
    | specialElection | execution => exact hstuck
  | _ => exact hstuck

/-- **No game of a table that is spared gets stuck**, however it is played. -/
theorem Running.Started.not_stuck {r : Rules} {n : ℕ} {g : Running} {c : Configuration}
    (hr : r.Valid) (hc : r.configurationFor n = some c) (hspares : c.Spares n)
    (h : g.Started r n) : ¬ g.Stuck := by
  obtain rfl : c = g.board.config := Option.some.inj (hc.symm.trans (h.config hr))
  have hs : g.OnSchedule n := h.induction hr (P := Running.OnSchedule n)
    (fun _ _ _ hfresh => hfresh.onSchedule) fun _ _ _ _ hs hmove => hmove.onSchedule hs
  exact hs.not_stuck (h.sound hr) hspares

end SecretHitler
