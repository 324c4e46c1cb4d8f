import SecretHitler.Proofs.Deck
import SecretHitler.Randomness.Script
/-!
# Dealing from any deck

What a draw owes to a deck that no game leads to: piles of any length, of any cards. Here the
source of randomness matters. Where a draw leaves a full draw behind, the rest of the deck is
as it was and the source has not been asked; otherwise everything that was not drawn is
shuffled into one pile (`Yields`). A deck of fewer than three cards has no full draw however
often it is replenished, so only there does a second time change anything, and no more than
the order (`Settled`).
-/

namespace SecretHitler

namespace Deck

variable {σ : Type} [RandomSource σ] {d d' : Deck} {reshuffled : Bool}
variable {n : ℕ} {s t : σ} {taken rest : List Policy}

/-- **A draw that loses nothing and invents nothing**: `n` cards come off the front of a deck
and another is left, while the source goes from `s` to `t`. -/
structure Yields (d : Deck) (n : ℕ) (s : σ) (taken : List Policy) (d' : Deck)
    (reshuffled : Bool) (t : σ) : Prop where
  front : taken = d.drawPile.take n
  conserved : (taken ++ d'.drawPile ++ d'.discardPile).Perm (d.drawPile ++ d.discardPile)
  reshuffled_iff : reshuffled = true ↔ (d.drawPile.drop n).length < standardDraw
  shuffled : reshuffled = true →
    d'.discardPile = [] ∧ d'.drawPile.Perm (d.drawPile.drop n ++ d.discardPile)
  inOrder : reshuffled = false →
    d'.drawPile = d.drawPile.drop n ∧ d'.discardPile = d.discardPile ∧ t = s

/-- **A deck that need not be replenished again**: nothing changes if it has a full draw, and
nothing but the order of its draw pile if it has not. -/
structure Settled (d : Deck) : Prop where
  full : standardDraw ≤ d.drawPile.length →
    ∀ {τ : Type} [RandomSource τ] (u : τ), d.replenish u = ((d, false), u)
  short : d.drawPile.length < standardDraw →
    ∀ {τ : Type} [RandomSource τ] (u : τ), ∃ pile v,
      d.replenish u = (({ d with drawPile := pile }, true), v) ∧ pile.Perm d.drawPile

/-! ## Replenishing -/

/-- A full draw is left alone, and so is the source. -/
theorem replenish_of_full (h : standardDraw ≤ d.drawPile.length) (s : σ) :
    d.replenish s = ((d, false), s) :=
  if_pos h

/-- Anything less is shuffled together with the discards. -/
theorem replenish_of_short (h : d.drawPile.length < standardDraw) (s : σ) :
    ∃ pile t, d.replenish s = ((⟨pile, []⟩, true), t) ∧
      pile.Perm (d.drawPile ++ d.discardPile) :=
  ⟨_, _, if_neg (Nat.not_le_of_lt h), RandomSource.shuffle_perm _ s⟩

/-- A short pile is settled once nothing is discarded. -/
theorem settled_of_discardPile
    (h : d.drawPile.length < standardDraw → d.discardPile = []) : d.Settled := by
  refine ⟨fun hfull _ _ u => replenish_of_full hfull u, fun hshort _ _ u => ?_⟩
  have hnone : d.discardPile = [] := h hshort
  obtain ⟨pile, v, heq, hperm⟩ := replenish_of_short hshort u
  rw [hnone, List.append_nil] at hperm
  exact ⟨pile, v, by rw [heq, hnone], hperm⟩

/-- **A deck is replenished once and for all.** -/
theorem Replenished.settled (h : Replenished d d' reshuffled) : d'.Settled := by
  refine settled_of_discardPile fun hshort => ?_
  cases h with
  | full hfull => exact absurd hfull (Nat.not_le_of_lt hshort)
  | shuffled _ _ => rfl

/-! ## Drawing -/

/-- **What is drawn and what is left**, whichever number of cards it is. -/
theorem yields_of_replenish (hpile : d.drawPile = taken ++ rest) (hn : taken.length = n)
    (hrep : replenish { d with drawPile := rest } s = ((d', reshuffled), t)) :
    d.Yields n s taken d' reshuffled t := by
  have htake : d.drawPile.take n = taken := by rw [hpile, List.take_left' hn]
  have hdrop : d.drawPile.drop n = rest := by rw [hpile, List.drop_left' hn]
  have hcards : taken ++ (rest ++ d.discardPile) = d.drawPile ++ d.discardPile := by
    rw [hpile, List.append_assoc]
  cases replenished_of_eq hrep with
  | full hfull =>
    -- that the source stays where it is can be seen only in the equation
    rw [replenish_of_full hfull] at hrep
    have hsource : t = s := (congrArg Prod.snd hrep).symm
    refine ⟨htake.symm, ?_, ?_, nofun, fun _ => ⟨hdrop.symm, rfl, hsource⟩⟩
    · rw [List.append_assoc, hcards]
    · rw [hdrop]
      exact iff_of_false nofun (Nat.not_lt_of_le hfull)
  | shuffled hshort hperm =>
    refine ⟨htake.symm, ?_, ?_, fun _ => ⟨rfl, ?_⟩, nofun⟩
    · rw [List.append_nil, ← hcards]
      exact hperm.append_left taken
    · rw [hdrop]
      exact iff_of_true rfl hshort
    · rw [hdrop]
      exact hperm

theorem exists_yields_hand (h : standardDraw ≤ d.drawPile.length) (s : σ) :
    ∃ drawn t, d.drawHand s = (.ok drawn, t) ∧
      d.Yields standardDraw s drawn.cards.toList drawn.deck drawn.reshuffled t := by
  obtain ⟨drawn, t, hdraw⟩ := drawHand_succeeds h s
  obtain ⟨rest, hpile, hrep⟩ := replenish_of_drawHand hdraw
  exact ⟨drawn, t, hdraw, yields_of_replenish hpile drawn.cards.length_toList hrep⟩

theorem exists_yields_single (h : 1 ≤ d.drawPile.length) (s : σ) :
    ∃ drawn t, d.drawSingle s = (.ok drawn, t) ∧
      d.Yields 1 s [drawn.cards] drawn.deck drawn.reshuffled t := by
  obtain ⟨drawn, t, hdraw⟩ := drawSingle_succeeds h s
  obtain ⟨rest, hpile, hrep⟩ := replenish_of_drawSingle hdraw
  exact ⟨drawn, t, hdraw, yields_of_replenish hpile rfl hrep⟩

/-- **Whatever the deck, nothing is lost and nothing invented.** From a pile of three cards or
more a hand can be drawn, and from one that is not empty a single card. What is drawn are the
first cards of the pile, in order, and with both piles that are left they are the cards there
were. The deck is reshuffled exactly if fewer than three cards remain to be drawn, and then the
draw pile holds all that is left; otherwise each pile is as it was, and the source is not
asked. A deck that has been replenished is settled, with a full draw unless it has fewer than
three cards in all. -/
theorem nothing_lost (d : Deck) (s : σ) :
    (standardDraw ≤ d.drawPile.length →
      ∃ drawn t, d.drawHand s = (.ok drawn, t) ∧
        d.Yields standardDraw s drawn.cards.toList drawn.deck drawn.reshuffled t) ∧
    (1 ≤ d.drawPile.length →
      ∃ drawn t, d.drawSingle s = (.ok drawn, t) ∧
        d.Yields 1 s [drawn.cards] drawn.deck drawn.reshuffled t) ∧
    (d.replenish s).1.1.Settled ∧
    ((d.replenish s).1.1.drawPile.length < standardDraw ↔ d.size < standardDraw) := by
  have hrep := replenished d s
  exact ⟨fun h => exists_yields_hand h s, fun h => exists_yields_single h s, hrep.settled,
    hrep.short_iff⟩

/-- Three cards to draw and four discarded. -/
def lastHand : Deck := ⟨[.fascist, .liberal, .fascist], [.liberal, .liberal, .fascist, .fascist]⟩

/-- A card more than a full draw. -/
def spareCard : Deck := ⟨[.liberal, .fascist, .fascist, .liberal], [.fascist]⟩

/-- Too few cards for a full draw, wherever they lie. -/
def twoCards : Deck := ⟨[.liberal], [.fascist]⟩

/-- The last hand is drawn and all that was discarded comes back; a spare card is drawn and
nothing moves; two cards stay two cards. -/
theorem nothing_lost_lastHand :
    (standardDraw ≤ lastHand.drawPile.length ∧
      ∃ drawn t, lastHand.drawHand (Script.ofWords [5]) = (.ok drawn, t) ∧
        drawn.cards.toList = [.fascist, .liberal, .fascist] ∧ drawn.reshuffled = true ∧
        drawn.deck.discardPile = [] ∧
        drawn.deck.drawPile.Perm [.liberal, .liberal, .fascist, .fascist]) ∧
    (1 ≤ spareCard.drawPile.length ∧
      ∃ drawn, spareCard.drawSingle (Script.ofWords [5]) = (.ok drawn, Script.ofWords [5]) ∧
        drawn.cards = .liberal ∧ drawn.reshuffled = false ∧
        drawn.deck = ⟨[.fascist, .fascist, .liberal], [.fascist]⟩) ∧
    ∃ pile v, (twoCards.replenish (Script.ofWords [5])).1.1.replenish (Script.ofWords [7]) =
        ((⟨pile, []⟩, true), v) ∧ pile.Perm [.liberal, .fascist] := by
  have hlast : standardDraw ≤ lastHand.drawPile.length := by decide
  have hspare : 1 ≤ spareCard.drawPile.length := by decide
  obtain ⟨drawn, t, hdraw, hyields⟩ := (nothing_lost lastHand (Script.ofWords [5])).1 hlast
  obtain ⟨drawn', t', hdraw', hyields'⟩ :=
    (nothing_lost spareCard (Script.ofWords [5])).2.1 hspare
  obtain ⟨-, -, hsettled, hshort⟩ := nothing_lost twoCards (Script.ofWords [5])
  refine ⟨⟨hlast, drawn, t, hdraw, hyields.front, ?_⟩, ⟨hspare, drawn', ?_⟩, ?_⟩
  · have hreshuffled : drawn.reshuffled = true := hyields.reshuffled_iff.mpr (by decide)
    exact ⟨hreshuffled, hyields.shuffled hreshuffled⟩
  · have hinOrder : drawn'.reshuffled = false :=
      Bool.eq_false_iff.mpr fun h => absurd (hyields'.reshuffled_iff.mp h) (by decide)
    obtain ⟨hpile, hdiscards, rfl⟩ := hyields'.inOrder hinOrder
    have hdeck : drawn'.deck = ⟨[.fascist, .fascist, .liberal], [.fascist]⟩ :=
      congrArg₂ Deck.mk hpile hdiscards
    exact ⟨hdraw', List.singleton_injective hyields'.front, hinOrder, hdeck⟩
  · -- the two cards are in one pile now, in an order that the source decides
    obtain ⟨pile, v, heq, hperm⟩ := hsettled.short (hshort.mpr (by decide)) (Script.ofWords [7])
    exact ⟨pile, v, heq, hperm.trans (by decide)⟩

end Deck

end SecretHitler
