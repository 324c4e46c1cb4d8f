import SecretHitler.Deck
import SecretHitler.Proofs.Outcome
import Mathlib.Data.List.Perm.Basic
/-!
# What a draw does to the deck

A draw takes cards off the front of the pile and, where too few are left,
shuffles all that remains into a new one. `Replenished` and `Deals` say this
without the source of randomness: which shuffle it is never matters to what
is proved here. Nothing is lost (`Deals.copies_eq`), and a deck with three
cards to spare has a full draw again (`Deals.stock`).
-/

namespace SecretHitler

/-- Every card is liberal or fascist. -/
theorem Policy.length_eq (l : List Policy) :
    l.length = l.count .liberal + l.count .fascist := by
  induction l with
  | nil => rfl
  | cons p rest ih => cases p <;> simp [ih] <;> omega

/-- The cards of the box can be counted. -/
theorem Policy.cards_lt (p : Policy) : p.cards < UInt32.size := by cases p <;> decide

/-- A hand holds three cards. -/
@[simp] theorem Hand.length_toList (h : Hand) : h.toList.length = standardDraw := rfl

namespace Deck

variable {σ : Type} [RandomSource σ] {d d' : Deck} {reshuffled : Bool} {taken : List Policy}

/-- How many cards a deck holds. -/
def size (d : Deck) : Nat := d.drawPile.length + d.discardPile.length

theorem size_eq (d : Deck) : d.size = d.copies .liberal + d.copies .fascist := by
  simp only [size, copies, Policy.length_eq d.drawPile, Policy.length_eq d.discardPile]
  omega

/-- **How a deck is replenished**: a full draw is left alone, anything less is
shuffled together with the discards. -/
inductive Replenished : Deck → Deck → Bool → Prop
  | full {d : Deck} : standardDraw ≤ d.drawPile.length → Replenished d d false
  | shuffled {d : Deck} {pile : List Policy} :
      d.drawPile.length < standardDraw → pile.Perm (d.drawPile ++ d.discardPile) →
      Replenished d ⟨pile, []⟩ true

/-- Whatever the luck, replenishing is one of the two. -/
theorem replenished (d : Deck) (s : σ) :
    Replenished d (d.replenish s).1.1 (d.replenish s).1.2 := by
  rw [replenish]
  split
  · rename_i h
    exact .full h
  · rename_i h
    exact .shuffled (Nat.lt_of_not_le h) (RandomSource.shuffle_perm _ s)

theorem replenished_of_eq {s t : σ} (h : d.replenish s = ((d', reshuffled), t)) :
    Replenished d d' reshuffled := by
  have hrep := replenished d s
  rwa [h] at hrep

theorem replenish_of_draw {s t : σ}
    (h : (Draws.draw d.replenish : Draws σ (Deck × Bool)) s = (.ok (d', reshuffled), t)) :
    d.replenish s = ((d', reshuffled), t) := by
  rw [Draws.draw_apply, Prod.mk.injEq, Except.ok.injEq] at h
  exact Prod.ext h.1 h.2

theorem replenished_of_draw {s t : σ}
    (h : (Draws.draw d.replenish : Draws σ (Deck × Bool)) s = (.ok (d', reshuffled), t)) :
    Replenished d d' reshuffled :=
  replenished_of_eq (replenish_of_draw h)

/-- Replenishing loses nothing. -/
theorem Replenished.copies_eq (h : Replenished d d' reshuffled) (p : Policy) :
    d'.copies p = d.copies p := by
  cases h with
  | full _ => rfl
  | shuffled _ hperm => simp [copies, hperm.count_eq, List.count_append]

/-- Only a deck of fewer than three cards is short when it has been replenished. -/
theorem Replenished.short_iff (h : Replenished d d' reshuffled) :
    d'.drawPile.length < standardDraw ↔ d.size < standardDraw := by
  cases h with
  | full hfull =>
    have hsize : standardDraw ≤ d.size := Nat.le_add_right_of_le hfull
    exact iff_of_false (Nat.not_lt_of_le hfull) (Nat.not_lt_of_le hsize)
  | shuffled _ hperm =>
    rw [hperm.length_eq, List.length_append]
    exact Iff.rfl

/-- A deck of three cards or more is replenished to a full draw. -/
theorem Replenished.stock (h : Replenished d d' reshuffled) (hsize : standardDraw ≤ d.size) :
    standardDraw ≤ d'.drawPile.length :=
  Nat.le_of_not_lt fun hshort => Nat.not_lt_of_le hsize (h.short_iff.mp hshort)

/-- Cards taken off the front, and the deck left behind. -/
def Deals (d : Deck) (taken : List Policy) (d' : Deck) (reshuffled : Bool) : Prop :=
  ∃ rest, d.drawPile = taken ++ rest ∧ Replenished { d with drawPile := rest } d' reshuffled

/-- **A draw loses nothing.** -/
theorem Deals.copies_eq (h : d.Deals taken d' reshuffled) (p : Policy) :
    taken.count p + d'.copies p = d.copies p := by
  obtain ⟨rest, hpile, hrep⟩ := h
  rw [hrep.copies_eq]
  simp only [copies, hpile, List.count_append]
  omega

/-- A deck with a full draw to spare is left with one. -/
theorem Deals.stock (h : d.Deals taken d' reshuffled)
    (hsize : taken.length + standardDraw ≤ d.size) : standardDraw ≤ d'.drawPile.length := by
  obtain ⟨rest, hpile, hrep⟩ := h
  refine hrep.stock ?_
  simp only [size, hpile, List.length_append] at hsize ⊢
  omega

/-- **A hand comes off the front of the pile**, and what is left is replenished. -/
theorem replenish_of_drawHand {s t : σ} {drawn : Drawn Hand} (h : d.drawHand s = (.ok drawn, t)) :
    ∃ rest, d.drawPile = drawn.cards.toList ++ rest ∧
      replenish { d with drawPile := rest } s = ((drawn.deck, drawn.reshuffled), t) := by
  obtain ⟨pile, discards⟩ := d
  match pile, h with
  | a :: b :: c :: rest, h =>
    obtain ⟨⟨deck, r⟩, u, hdraw, hret⟩ := Draws.bind_eq_ok.mp h
    cases hret
    exact ⟨rest, rfl, replenish_of_draw hdraw⟩
  | [], h | [_], h | [_, _], h => cases h

/-- So does a single card. -/
theorem replenish_of_drawSingle {s t : σ} {drawn : Drawn Policy}
    (h : d.drawSingle s = (.ok drawn, t)) :
    ∃ rest, d.drawPile = [drawn.cards] ++ rest ∧
      replenish { d with drawPile := rest } s = ((drawn.deck, drawn.reshuffled), t) := by
  obtain ⟨pile, discards⟩ := d
  match pile, h with
  | a :: rest, h =>
    obtain ⟨⟨deck, r⟩, u, hdraw, hret⟩ := Draws.bind_eq_ok.mp h
    cases hret
    exact ⟨rest, rfl, replenish_of_draw hdraw⟩
  | [], h => cases h

/-- A hand is dealt off the front, -/
theorem drawHand_deals {s t : σ} {drawn : Drawn Hand} (h : d.drawHand s = (.ok drawn, t)) :
    d.Deals drawn.cards.toList drawn.deck drawn.reshuffled := by
  obtain ⟨rest, hpile, hrep⟩ := replenish_of_drawHand h
  exact ⟨rest, hpile, replenished_of_eq hrep⟩

/-- and so is a single card. -/
theorem drawSingle_deals {s t : σ} {drawn : Drawn Policy} (h : d.drawSingle s = (.ok drawn, t)) :
    d.Deals [drawn.cards] drawn.deck drawn.reshuffled := by
  obtain ⟨rest, hpile, hrep⟩ := replenish_of_drawSingle h
  exact ⟨rest, hpile, replenished_of_eq hrep⟩

theorem exists_cons_of_full {l : List Policy} (h : standardDraw ≤ l.length) :
    ∃ a b c rest, l = a :: b :: c :: rest := by
  match l, h with
  | a :: b :: c :: rest, _ => exact ⟨a, b, c, rest, rfl⟩

/-- **A full draw can be drawn.** -/
theorem drawHand_succeeds (h : standardDraw ≤ d.drawPile.length) :
    Draws.Succeeds (d.drawHand : Draws σ (Drawn Hand)) := by
  obtain ⟨a, b, c, rest, hpile⟩ := exists_cons_of_full h
  rw [drawHand, hpile]
  exact .bind (.draw _) fun _ _ _ _ => .pure _

theorem drawSingle_succeeds (h : 1 ≤ d.drawPile.length) :
    Draws.Succeeds (d.drawSingle : Draws σ (Drawn Policy)) := by
  obtain ⟨a, rest, hpile⟩ := List.exists_cons_of_length_pos h
  rw [drawSingle, hpile]
  exact .bind (.draw _) fun _ _ _ _ => .pure _

/-- A full draw can be looked at. -/
theorem peek_succeeds (h : standardDraw ≤ d.drawPile.length) : d.peek.Succeeds := by
  obtain ⟨a, b, c, rest, hpile⟩ := exists_cons_of_full h
  exact ⟨⟨a, b, c⟩, by rw [peek, hpile]⟩

/-- A peek shows the front of the pile. -/
theorem prefix_of_peek {hand : Hand} (h : d.peek = .ok hand) : hand.toList <+: d.drawPile := by
  obtain ⟨pile, discards⟩ := d
  match pile, h with
  | a :: b :: c :: rest, h =>
    cases h
    exact ⟨rest, rfl⟩
  | [], h | [_], h | [_, _], h => cases h

/-- Events report the length of a draw pile as it is, up to a word. -/
theorem toNat_drawSize (h : d.drawPile.length < UInt64.size) :
    d.drawSize.toNat = d.drawPile.length :=
  UInt64.toNat_ofNat_of_lt' h

/-- Cards that fit a word are counted as they are. -/
theorem count_eq_copies {p : Policy} (h : d.copies p < UInt32.size) : d.count p = d.copies p :=
  Nat.mod_eq_of_lt h

@[simp] theorem copies_discard (d : Deck) (p q : Policy) :
    (d.discard p).copies q = d.copies q + [p].count q := by
  simp only [copies, discard, List.count_append]
  omega

@[simp] theorem copies_discardAll (d : Deck) (ps : List Policy) (q : Policy) :
    (d.discardAll ps).copies q = d.copies q + ps.count q := by
  simp only [copies, discardAll, List.count_append]
  omega

/-- A standard deck is a shuffled box. -/
theorem standard_perm (s : σ) : (standard s).1.drawPile.Perm box := by
  simp only [standard]
  exact RandomSource.shuffle_perm box s

theorem standard_discardPile (s : σ) : (standard s).1.discardPile = [] := by
  simp only [standard]

theorem count_box (p : Policy) : box.count p = p.cards := by cases p <;> rfl

end Deck

end SecretHitler
