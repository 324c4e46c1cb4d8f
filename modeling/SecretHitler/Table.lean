/-!
# Tables

A finite map whose entries stand by rising key, each key at most once. The
order is part of the type: two tables that answer every lookup alike are
equal, and a table is shown the same way however it was filled.
-/

namespace SecretHitler

/-- A type whose values are told apart, and put in order, by a number. -/
class Ranked (κ : Type) where
  rank : κ → Nat
  rank_inj : ∀ {a b : κ}, rank a = rank b → a = b

export Ranked (rank)

/-- Entries by rising key. -/
@[ext] structure Table (κ α : Type) [Ranked κ] where
  entries : List (κ × α)
  sorted : entries.Pairwise fun a b => rank a.1 < rank b.1

namespace Table

variable {κ α β : Type} [Ranked κ]

instance [DecidableEq κ] [DecidableEq α] : DecidableEq (Table κ α) := fun s t =>
  decidable_of_iff (s.entries = t.entries) ⟨Table.ext, fun h => h ▸ rfl⟩

/-- The table without entries. -/
def empty : Table κ α := ⟨[], .nil⟩

instance : Inhabited (Table κ α) := ⟨empty⟩

/-- Puts an entry in its place among sorted entries, over one with the same
key. -/
def place (k : κ) (v : α) : List (κ × α) → List (κ × α)
  | [] => [(k, v)]
  | e :: rest =>
    if rank k < rank e.1 then (k, v) :: e :: rest
    else if rank k = rank e.1 then (k, v) :: rest
    else e :: place k v rest

/-- Placing adds one entry at most. -/
theorem mem_place {k : κ} {v : α} {e : κ × α} {l : List (κ × α)}
    (h : e ∈ place k v l) : e = (k, v) ∨ e ∈ l := by
  induction l with
  | nil => simpa [place] using h
  | cons hd tl ih =>
    simp only [place] at h
    split at h
    · simpa using h
    · split at h
      · simp only [List.mem_cons] at h ⊢
        exact h.imp id .inr
      · simp only [List.mem_cons] at h ⊢
        rcases h with h | h
        · exact .inr (.inl h)
        · exact (ih h).imp id .inr

/-- **Placing keeps the order**, strictly by rank. -/
theorem place_sorted {k : κ} {v : α} {l : List (κ × α)}
    (h : l.Pairwise fun a b => rank a.1 < rank b.1) :
    (place k v l).Pairwise fun a b => rank a.1 < rank b.1 := by
  induction l with
  | nil => simp [place]
  | cons hd tl ih =>
    obtain ⟨hhd, htl⟩ := List.pairwise_cons.mp h
    simp only [place]
    split
    · rename_i hlt
      refine List.pairwise_cons.mpr ⟨fun e he => ?_, h⟩
      rcases List.mem_cons.mp he with rfl | he
      · exact hlt
      · exact Nat.lt_trans hlt (hhd e he)
    · split
      · rename_i heq
        exact List.pairwise_cons.mpr ⟨fun e he => heq ▸ hhd e he, htl⟩
      · rename_i hge hne
        refine List.pairwise_cons.mpr ⟨fun e he => ?_, ih htl⟩
        rcases mem_place he with rfl | he
        · simp only; omega
        · exact hhd e he

/-- Adds an entry, over one with the same key. -/
def insert (t : Table κ α) (k : κ) (v : α) : Table κ α :=
  ⟨place k v t.entries, place_sorted t.sorted⟩

/-- Removes the entry of a key, if there is one. -/
def erase (t : Table κ α) (k : κ) : Table κ α :=
  ⟨t.entries.filter fun e => rank e.1 != rank k, t.sorted.filter _⟩

/-- The entries inserted from first to last, so a later one wins. -/
def ofList (l : List (κ × α)) : Table κ α :=
  l.foldl (fun t e => t.insert e.1 e.2) empty

/-- The value of a key. -/
def find? (t : Table κ α) (k : κ) : Option α :=
  (t.entries.find? fun e => rank e.1 == rank k).map (·.2)

/-- Whether a key has an entry. -/
def contains (t : Table κ α) (k : κ) : Bool :=
  t.entries.any fun e => rank e.1 == rank k

/-- The keys, rising. -/
def keys (t : Table κ α) : List κ := t.entries.map (·.1)

/-- The values, in the order of their keys. -/
def values (t : Table κ α) : List α := t.entries.map (·.2)

/-- How many keys have an entry. -/
def size (t : Table κ α) : Nat := t.entries.length

end Table

instance : Ranked UInt32 where
  rank := UInt32.toNat
  rank_inj := UInt32.toNat_inj.mp

instance : Ranked UInt64 where
  rank := UInt64.toNat
  rank_inj := UInt64.toNat_inj.mp

end SecretHitler
