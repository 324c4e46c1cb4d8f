import SecretHitler.Legal
import SecretHitler.Proofs.Outcome
import SecretHitler.Table.Filling
import Mathlib.Data.List.Nodup
/-!
# Seats, names and roles

A seating is read in both directions: names find seats and seats find names.
The two agree as soon as the names are distinct (`seatOf?_eq_some_iff`), which
nothing that happens at the table can change. The turn always falls to a seat
that is taken.
-/

namespace SecretHitler

namespace Table

variable {κ α : Type} [Ranked κ]

theorem length_keys (t : Table κ α) : t.keys.length = t.size := List.length_map ..

/-- Erasing a key that is there makes the table one smaller. -/
theorem size_erase {t : Table κ α} {k : κ} (h : k ∈ t.keys) : (t.erase k).size + 1 = t.size := by
  classical
  have hfilter : (t.erase k).keys = t.keys.erase k := by
    rw [keys_erase, t.nodup_keys.erase_eq_filter]
    refine List.filter_congr fun k' _ => ?_
    by_cases hk : k' = k
    · rw [hk, bne_self_eq_false, bne_self_eq_false]
    · have : rank k' ≠ rank k := fun h => hk (Ranked.rank_inj h)
      rw [bne_iff_ne.mpr this, bne_iff_ne.mpr hk]
  rw [← length_keys, hfilter, List.length_erase_of_mem h, ← length_keys]
  have := List.length_pos_of_mem h
  omega

/-- Inserting a key makes the table one larger at most. -/
theorem size_insert_le (t : Table κ α) (k : κ) (v : α) : (t.insert k v).size ≤ t.size + 1 := by
  have hplace : ∀ l : List (κ × α), (place k v l).length ≤ l.length + 1 := by
    intro l
    induction l with
    | nil => simp [place]
    | cons e rest ih =>
      simp only [place]
      split
      · simp
      · split
        · simp
        · simp only [List.length_cons]
          omega
  exact hplace t.entries

end Table

namespace Seating

variable {t : Seating} {s owner : Seat} {name actor : String}

/-- No name sits on two seats. -/
def Distinct (t : Seating) : Prop := t.names.values.Nodup

/-- A seat is taken if it has a name. -/
theorem mem_seats_iff : s ∈ t.seats ↔ ∃ name, t.nameOf? s = some name := Table.mem_keys_iff

theorem length_seats (t : Seating) : t.seats.length = t.size := t.names.length_keys

/-- A seat that is found by a name has that name. -/
theorem nameOf?_of_seatOf? (h : t.seatOf? name = some s) : t.nameOf? s = some name := by
  obtain ⟨e, he, rfl⟩ := Option.map_eq_some_iff.mp h
  have hname : e.2 = name := by simpa using List.find?_some he
  rw [nameOf?, Table.find?_eq_some_iff, ← hname]
  exact List.mem_of_find?_eq_some he

/-- Whoever is found is seated. -/
theorem mem_seats_of_seatOf? (h : t.seatOf? name = some s) : s ∈ t.seats :=
  mem_seats_iff.mpr ⟨name, nameOf?_of_seatOf? h⟩

/-- **Names and seats are one to one.** -/
theorem seatOf?_eq_some_iff (hd : t.Distinct) :
    t.seatOf? name = some s ↔ t.nameOf? s = some name := by
  refine ⟨nameOf?_of_seatOf?, fun h => ?_⟩
  have hmem : (s, name) ∈ t.names.entries := Table.find?_eq_some_iff.mp h
  rw [seatOf?, Option.map_eq_some_iff]
  cases hf : t.names.entries.find? fun e => e.2 == name with
  | none => simpa using List.find?_eq_none.mp hf _ hmem
  | some e =>
    have hname : e.2 = name := by simpa using List.find?_some hf
    -- the first entry of the name is its only one
    have he : e = (s, name) :=
      List.inj_on_of_nodup_map hd (List.mem_of_find?_eq_some hf) hmem hname
    exact ⟨e, rfl, by rw [he]⟩

/-- Who leaves takes no name from another. -/
theorem distinct_without (hd : t.Distinct) (s : Seat) : (t.without s).Distinct :=
  hd.sublist (List.filter_sublist.map _)

/-- All but one are left. -/
theorem mem_seats_without {s' : Seat} : s' ∈ (t.without s).seats ↔ s' ∈ t.seats ∧ s' ≠ s :=
  Table.mem_keys_erase

theorem size_without (h : s ∈ t.seats) : (t.without s).size + 1 = t.size := Table.size_erase h

/-- An action is its owner's. -/
theorem authorize_eq_ok {s : Seat} :
    t.authorize actor owner = .ok s ↔ t.seatOf? actor = some owner ∧ s = owner := by
  rw [authorize]
  cases t.seatOf? actor with
  | none => simp
  | some s' =>
    by_cases h : s' = owner
    · simp [h, eq_comm]
    · simp [h]

theorem authorize_rejects (h : t.seatOf? actor ≠ some owner) :
    (t.authorize actor owner).Rejects := by
  rw [authorize]
  cases hs : t.seatOf? actor with
  | none => exact ⟨_, rfl⟩
  | some s => exact ⟨_, if_neg fun heq => h (hs.trans (congrArg some heq))⟩

theorem target_eq_ok : t.target name = .ok s ↔ t.seatOf? name = some s := Attempt.orReject_eq_ok

/-- The turn falls to a seat that is taken. -/
theorem mem_seats_of_nextAfter {next : Seat} (h : t.nextAfter s = .ok next) : next ∈ t.seats := by
  rw [nextAfter] at h
  split at h
  · rename_i n hn
    cases h
    exact List.mem_of_find?_eq_some hn
  · exact List.mem_of_head? (Attempt.orFail_eq_ok.mp h)

/-- And it falls to somebody, as long as anybody is there. -/
theorem nextAfter_succeeds (h : owner ∈ t.seats) (s : Seat) : (t.nextAfter s).Succeeds := by
  rw [nextAfter]
  split
  · exact ⟨_, rfl⟩
  · cases hs : t.seats with
    | nil => rw [hs] at h; cases h
    | cons first rest => exact ⟨first, rfl⟩

end Seating

namespace RoleMap

variable {m : RoleMap} {s : Seat}

theorem roleOf_eq_ok {r : Role} : m.roleOf s = .ok r ↔ m.roles.find? s = some r :=
  Attempt.orFail_eq_ok

/-- Every seat of the map has a role, -/
theorem roleOf_succeeds (h : s ∈ m.seats) : (m.roleOf s).Succeeds := by
  obtain ⟨r, hr⟩ := Table.mem_keys_iff.mp h
  exact ⟨r, roleOf_eq_ok.mpr hr⟩

/-- and with it a party. -/
theorem partyOf_succeeds (h : s ∈ m.seats) : (m.partyOf s).Succeeds := by
  obtain ⟨r, hr⟩ := roleOf_succeeds h
  exact ⟨r.party, by rw [partyOf, hr]; rfl⟩

/-- Roles are a role map if one of them is Hitler's. -/
theorem ofTable_eq_ok {roles : Table Seat Role} :
    ofTable roles = .ok m ↔ m = ⟨roles⟩ ∧ m.hitlers = 1 := by
  rw [ofTable]
  split
  · rename_i h
    constructor
    · intro hm
      cases hm
      exact ⟨rfl, h⟩
    · rintro ⟨rfl, -⟩
      rfl
  · rename_i h
    constructor
    · intro hm
      cases hm
    · rintro ⟨rfl, h'⟩
      exact absurd h' h

/-- Where there is one Hitler, somebody holds the role. -/
theorem exists_hitler (h : m.hitlers = 1) : ∃ s, m.roles.find? s = some .hitler := by
  have hpos : 0 < m.hitlers := by omega
  obtain ⟨⟨s, role⟩, hentry, rfl⟩ := List.mem_map.mp (List.count_pos_iff.mp hpos)
  exact ⟨s, Table.find?_eq_some_iff.mpr hentry⟩

/-- Whoever is not Hitler can be taken off the role map: Hitler stays. -/
theorem hitlers_erase {r : Role} (h : m.roles.find? s = some r) (hr : r ≠ .hitler) :
    (⟨m.roles.erase s⟩ : RoleMap).hitlers = m.hitlers := by
  simp only [hitlers, Table.values, Table.erase, List.count, List.countP_map, List.countP_filter]
  refine List.countP_congr fun e he => ?_
  by_cases hs : e.1 = s
  · have he' : m.roles.find? s = some e.2 := Table.find?_eq_some_iff.mpr (hs ▸ he)
    have : e.2 ≠ .hitler := by
      rw [h] at he'
      exact Option.some.inj he' ▸ hr
    simp [hs, this]
  · simp [hs, Ranked.rank_eq_iff]

end RoleMap

end SecretHitler
