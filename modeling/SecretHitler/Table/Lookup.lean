import SecretHitler.Table
/-!
# Lookups in tables

What inserting and erasing do to a lookup. A table is its lookups: two that
answer every key alike are equal (`ext_find?`), because the order of the
entries leaves no other freedom.
-/

namespace SecretHitler

/-- Keys are told apart by their ranks. -/
theorem Ranked.rank_eq_iff {κ : Type} [Ranked κ] {a b : κ} : rank a = rank b ↔ a = b :=
  ⟨Ranked.rank_inj, fun h => h ▸ rfl⟩

namespace Table

variable {κ α : Type} [Ranked κ]

/-- An entry is what a lookup of its key finds. -/
theorem find?_eq_some_iff {t : Table κ α} {k : κ} {v : α} :
    t.find? k = some v ↔ (k, v) ∈ t.entries := by
  obtain ⟨l, hs⟩ := t
  simp only [find?]
  induction l with
  | nil => simp
  | cons e rest ih =>
    obtain ⟨hlt, hrest⟩ := List.pairwise_cons.mp hs
    rw [List.find?_cons]
    by_cases h : rank e.1 = rank k
    · have hk : e.1 = k := Ranked.rank_inj h
      simp only [h, beq_self_eq_true, Option.map_some, Option.some.injEq, List.mem_cons]
      constructor
      · intro hv
        exact .inl (by rw [← hk, ← hv])
      · rintro (he | hmem)
        · rw [← he]
        · exact absurd (hlt _ hmem) (by simp only; omega)
    · have hne : (k, v) ≠ e := fun he => h (by rw [← he])
      simp only [beq_eq_false_iff_ne.mpr h, ih hrest, List.mem_cons, hne, false_or]

/-- Nothing is found under what is no key. -/
theorem find?_eq_none_iff {t : Table κ α} {k : κ} : t.find? k = none ↔ k ∉ t.keys := by
  rw [Option.eq_none_iff_forall_ne_some]
  simp only [ne_eq, find?_eq_some_iff, keys, List.mem_map, Prod.exists, exists_and_right,
    exists_eq_right, not_exists]

theorem contains_iff {t : Table κ α} {k : κ} : t.contains k = true ↔ k ∈ t.keys := by
  simp only [contains, List.any_eq_true, beq_iff_eq, Ranked.rank_eq_iff, keys, List.mem_map]

/-- Two tables that answer every lookup alike are equal. -/
theorem ext_find? {s t : Table κ α} (h : ∀ k, s.find? k = t.find? k) : s = t := by
  have key : ∀ {l m : List (κ × α)}, (l.Pairwise fun a b => rank a.1 < rank b.1) →
      (m.Pairwise fun a b => rank a.1 < rank b.1) → (∀ e, e ∈ l ↔ e ∈ m) → l = m := by
    intro l
    induction l with
    | nil =>
      intro m _ _ hm
      cases m with
      | nil => rfl
      | cons e rest => exact absurd ((hm e).mpr (.head _)) List.not_mem_nil
    | cons e rest ih =>
      intro m hl hm hmem
      cases m with
      | nil => exact absurd ((hmem e).mp (.head _)) List.not_mem_nil
      | cons f others =>
        obtain ⟨he, hrest⟩ := List.pairwise_cons.mp hl
        obtain ⟨hf, hothers⟩ := List.pairwise_cons.mp hm
        have hef : e = f := by
          rcases List.mem_cons.mp ((hmem e).mp (.head _)) with h | h
          · exact h
          rcases List.mem_cons.mp ((hmem f).mpr (.head _)) with h' | h'
          · exact h'.symm
          · exact absurd (hf _ h) (by have := he _ h'; omega)
        subst hef
        congr 1
        refine ih hrest hothers fun a => ⟨fun ha => ?_, fun ha => ?_⟩
        · rcases List.mem_cons.mp ((hmem a).mp (.tail _ ha)) with rfl | h
          · exact absurd (he _ ha) (by omega)
          · exact h
        · rcases List.mem_cons.mp ((hmem a).mpr (.tail _ ha)) with rfl | h
          · exact absurd (hf _ ha) (by omega)
          · exact h
  refine Table.ext (key s.sorted t.sorted fun e => ?_)
  rw [← find?_eq_some_iff (t := s), ← find?_eq_some_iff (t := t), h]

/-- No key comes twice. -/
theorem nodup_keys (t : Table κ α) : t.keys.Nodup := by
  refine List.pairwise_map.mpr (t.sorted.imp fun hlt heq => ?_)
  rw [heq] at hlt
  exact Nat.lt_irrefl _ hlt

/-- The keys rise. -/
theorem sorted_keys (t : Table κ α) : t.keys.Pairwise fun a b => rank a < rank b :=
  List.pairwise_map.mpr t.sorted

@[simp] theorem find?_empty (k : κ) : (empty : Table κ α).find? k = none := rfl

/-- Whether placing an entry leads a lookup to it depends on the key alone. -/
theorem find?_place (k : κ) (v : α) (k' : κ) (l : List (κ × α)) :
    ((place k v l).find? fun e => rank e.1 == rank k').map (·.2) =
      if rank k = rank k' then some v else (l.find? fun e => rank e.1 == rank k').map (·.2) := by
  induction l with
  | nil => by_cases h : rank k = rank k' <;> simp [place, h]
  | cons e rest ih =>
    simp only [place]
    split
    · by_cases h : rank k = rank k' <;> simp [List.find?_cons, h]
    · split
      · rename_i heq
        by_cases h : rank k = rank k'
        · simp [h]
        · have h' : ¬ rank e.1 = rank k' := fun h' => h (heq.trans h')
          simp [h, h']
      · rename_i hne
        by_cases he : rank e.1 = rank k'
        · have h : ¬ rank k = rank k' := fun h => hne (h.trans he.symm)
          simp [he, h]
        · simp only [List.find?_cons, beq_eq_false_iff_ne.mpr he, ih]

/-- **What is found after an insertion**: the new value under its key, and else what was
found before. -/
theorem find?_insert (t : Table κ α) (k : κ) (v : α) (k' : κ) :
    (t.insert k v).find? k' = if rank k = rank k' then some v else t.find? k' :=
  find?_place k v k' t.entries

@[simp] theorem find?_insert_self (t : Table κ α) (k : κ) (v : α) :
    (t.insert k v).find? k = some v := by simp [find?_insert]

theorem find?_insert_of_ne {t : Table κ α} {k k' : κ} (v : α) (h : k ≠ k') :
    (t.insert k v).find? k' = t.find? k' := by
  rw [find?_insert, if_neg fun heq => h (Ranked.rank_inj heq)]

/-- **What is found after an erasure**: nothing under the key, and else what was found
before. -/
theorem find?_erase (t : Table κ α) (k k' : κ) :
    (t.erase k).find? k' = if rank k = rank k' then none else t.find? k' := by
  simp only [find?, erase, List.find?_filter]
  by_cases h : rank k = rank k'
  · simp [h]
  · rw [if_neg h]
    congr 2
    funext e
    by_cases he : rank e.1 = rank k'
    · have : rank e.1 ≠ rank k := fun h' => h (h'.symm.trans he)
      simp [he, Ne.symm h]
    · simp [he]

@[simp] theorem find?_erase_self (t : Table κ α) (k : κ) : (t.erase k).find? k = none := by
  simp [find?_erase]

theorem find?_erase_of_ne {t : Table κ α} {k k' : κ} (h : k ≠ k') :
    (t.erase k).find? k' = t.find? k' := by
  rw [find?_erase, if_neg fun heq => h (Ranked.rank_inj heq)]

/-- Erasing a key takes it from the keys and leaves the others in order. -/
theorem keys_erase (t : Table κ α) (k : κ) :
    (t.erase k).keys = t.keys.filter fun k' => rank k' != rank k := by
  simp only [keys, erase, List.filter_map]
  rfl

end Table

end SecretHitler
