import SecretHitler.Table.Lookup
import Mathlib.Data.List.Nodup
import Mathlib.Data.List.Perm.Basic
/-!
# Filling tables

The keys that a table has, and what comes of filling one from a list: entries
with distinct keys are all kept (`ofList_perm`), in whatever order they come.
-/

namespace SecretHitler

namespace Table

variable {κ α β : Type} [Ranked κ]

/-- A key is what something is found under. -/
theorem mem_keys_iff {t : Table κ α} {k : κ} : k ∈ t.keys ↔ ∃ v, t.find? k = some v := by
  rw [← not_iff_not, ← find?_eq_none_iff, Option.eq_none_iff_forall_ne_some]
  simp

theorem mem_keys_erase {t : Table κ α} {k k' : κ} :
    k' ∈ (t.erase k).keys ↔ k' ∈ t.keys ∧ k' ≠ k := by
  rw [keys_erase, List.mem_filter, bne_iff_ne, ne_eq, Ranked.rank_eq_iff]

theorem mem_keys_insert {t : Table κ α} {k k' : κ} {v : α} :
    k' ∈ (t.insert k v).keys ↔ k' = k ∨ k' ∈ t.keys := by
  simp only [mem_keys_iff]
  by_cases h : k' = k
  · simp [h]
  · simp [find?_insert_of_ne v (Ne.symm h), h]

/-- A new entry is placed among the others, which keep their places. -/
theorem place_perm {k : κ} {v : α} {l : List (κ × α)} (h : ∀ e ∈ l, e.1 ≠ k) :
    (place k v l).Perm ((k, v) :: l) := by
  induction l with
  | nil => exact .refl _
  | cons e rest ih =>
    have hne : rank k ≠ rank e.1 := fun heq => h e (.head _) (Ranked.rank_inj heq).symm
    simp only [place, if_neg hne]
    split
    · exact .refl _
    · exact ((ih fun e' he' => h e' (.tail _ he')).cons e).trans (.swap ..)

/-- **Entries with distinct keys are all kept.** -/
theorem ofList_perm {l : List (κ × α)} (h : (l.map (·.1)).Nodup) :
    (ofList l).entries.Perm l := by
  have hfold : ∀ (l : List (κ × α)) (t : Table κ α), (l.map (·.1)).Nodup →
      (∀ e ∈ l, e.1 ∉ t.keys) →
      (l.foldl (fun t e => t.insert e.1 e.2) t).entries.Perm (t.entries ++ l) := by
    intro l
    -- over every table that holds none of the keys still to come
    induction l with
    | nil => exact fun t _ _ => by simp
    | cons e rest ih =>
      intro t hnodup hfresh
      obtain ⟨he, hrest⟩ := List.nodup_cons.mp hnodup
      have hplace : (t.insert e.1 e.2).entries.Perm (e :: t.entries) :=
        place_perm fun e' he' heq => hfresh e (.head _) (List.mem_map.mpr ⟨e', he', heq⟩)
      have hstep := ih (t.insert e.1 e.2) hrest fun e' he' hmem => by
        rcases mem_keys_insert.mp hmem with heq | hmem
        · exact he (List.mem_map.mpr ⟨e', he', heq⟩)
        · exact hfresh e' (.tail _ he') hmem
      exact hstep.trans ((hplace.append_right rest).trans List.perm_middle.symm)
  exact hfold l empty h fun _ _ => nofun

/-- A table of a list has the keys of the list, -/
theorem keys_ofList_perm {l : List (κ × α)} (h : (l.map (·.1)).Nodup) :
    (ofList l).keys.Perm (l.map (·.1)) :=
  (ofList_perm h).map _

/-- and its values. -/
theorem values_ofList_perm {l : List (κ × α)} (h : (l.map (·.1)).Nodup) :
    (ofList l).values.Perm (l.map (·.2)) :=
  (ofList_perm h).map _

/-- A table can be filled again from its entries, in any order. -/
theorem ofList_eq_of_perm {t : Table κ α} {l : List (κ × α)} (h : l.Perm t.entries) :
    ofList l = t := by
  have hkeys : (l.map (·.1)).Nodup := (h.map _).nodup_iff.mpr t.nodup_keys
  refine Table.ext (((ofList_perm hkeys).trans h).eq_of_pairwise ?_ (ofList l).sorted t.sorted)
  exact fun _ _ _ _ hab hba => absurd hab (Nat.lt_asymm hba)

/-- Tables with the same keys list them alike. -/
theorem keys_eq_of_perm {s : Table κ α} {t : Table κ β} (h : s.keys.Perm t.keys) :
    s.keys = t.keys :=
  h.eq_of_pairwise (fun _ _ _ _ hab hba => absurd hab (Nat.lt_asymm hba)) s.sorted_keys
    t.sorted_keys

end Table

end SecretHitler
