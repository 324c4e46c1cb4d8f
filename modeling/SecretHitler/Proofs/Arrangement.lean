import SecretHitler.Json.Held
import SecretHitler.Json.Record
import Mathlib.Data.List.Nodup
/-!
# Values with their members rearranged

A value that is written and read again may come back with the members of its
objects in another order: a tree holds them in the order of their names. An
arrangement is any such reordering, within all of a value. As long as each name
is taken once, a record keeps its fields under it: it is still that record, and
each field is where it was, arranged.
-/

namespace SecretHitler

namespace Json

variable {members others : List (String × Json)} {name : String} {j : Json}

/-- The order of members with distinct names does not matter to a lookup. -/
theorem lookup_eq_of_perm (h : members.Perm others) (hnodup : (members.map (·.1)).Nodup)
    (name : String) : members.lookup name = others.lookup name := by
  induction h with
  | nil => rfl
  | cons m _ ih =>
    rw [List.lookup_cons, List.lookup_cons, ih (List.nodup_cons.mp hnodup).2]
  | swap m m' rest =>
    have hne : m'.1 ≠ m.1 := fun heq => (List.nodup_cons.mp hnodup).1 (by simp [heq])
    rw [List.lookup_cons, List.lookup_cons, List.lookup_cons, List.lookup_cons]
    by_cases hname : name = m.1
    · rw [hname, beq_self_eq_true, beq_eq_false_iff_ne.mpr hne.symm]
    · rw [beq_eq_false_iff_ne.mpr hname]
  | trans h _ ih ih' => rw [ih hnodup, ih' ((h.map _).nodup_iff.mp hnodup)]

theorem lookup_map_snd (f : Json → Json) (members : List (String × Json)) (name : String) :
    (members.map fun m => (m.1, f m.2)).lookup name = (members.lookup name).map f := by
  induction members with
  | nil => rfl
  | cons m rest ih =>
    obtain ⟨other, j⟩ := m
    simp only [List.map_cons, List.lookup_cons, ih]
    cases name == other <;> rfl

theorem names_map_snd (f : Json → Json) (members : List (String × Json)) :
    (members.map fun m => (m.1, f m.2)).map (·.1) = members.map (·.1) := by
  rw [List.map_map]
  rfl

/-- A way to order the members of the objects in a value. -/
structure Arrangement where
  arrange : Json → Json
  null : arrange null = null
  bool (b : Bool) : arrange (bool b) = bool b
  natural (n : Nat) : arrange (natural n) = natural n
  string (s : String) : arrange (string s) = string s
  array (items : List Json) : arrange (array items) = array (items.map arrange)
  object (members : List (String × Json)) : (members.map (·.1)).Nodup →
    ∃ others, arrange (object members) = object others ∧
      others.Perm (members.map fun m => (m.1, arrange m.2))

attribute [simp] Arrangement.null Arrangement.bool Arrangement.natural Arrangement.string
  Arrangement.array

namespace Arrangement

variable (w : Arrangement)

/-- An arranged object has the names it had. -/
theorem exists_object (h : (members.map (·.1)).Nodup) :
    ∃ others, w.arrange (.object members) = .object others ∧ (others.map (·.1)).Nodup ∧
      others.Perm (members.map fun m => (m.1, w.arrange m.2)) := by
  obtain ⟨others, heq, hperm⟩ := w.object members h
  have hnames : (others.map (·.1)).Perm (members.map (·.1)) :=
    names_map_snd w.arrange members ▸ hperm.map _
  exact ⟨others, heq, hnames.nodup_iff.mpr h, hperm⟩

/-- **An arranged record is that record still.** -/
@[simp] theorem record?_arrange (h : (members.map (·.1)).Nodup) (fields : List String) (n : ℕ) :
    (w.arrange (.object members)).record? fields n = some (w.arrange (.object members)) := by
  obtain ⟨others, heq, hnodup, -⟩ := w.exists_object h
  have honce : ∀ f, (others.filter (·.1 == f)).length ≤ 1 := fun f => by
    have := List.nodup_iff_count_le_one.mp hnodup f
    rwa [List.count, List.countP_map, List.countP_eq_length_filter] at this
  simp [heq, record?, honce]

/-- **The fields of an arranged record** are its fields, arranged. -/
theorem member?_arrange (h : (members.map (·.1)).Nodup) (name : String) :
    (w.arrange (.object members)).member? name = (members.lookup name).map w.arrange := by
  obtain ⟨others, heq, hnodup, hperm⟩ := w.exists_object h
  rw [heq, member?, lookup_eq_of_perm hperm hnodup, lookup_map_snd]

/-- One member has one order. -/
theorem arrange_variant (name : String) (parts : Json) :
    w.arrange (.object [(name, parts)]) = .object [(name, w.arrange parts)] := by
  obtain ⟨others, heq, hperm⟩ := w.object [(name, parts)] (by simp)
  rw [heq, List.perm_singleton.mp hperm]

/-- The order in which members are written. -/
def asWritten : Arrangement where
  arrange := id
  null := rfl
  bool _ := rfl
  natural _ := rfl
  string _ := rfl
  array items := by simp
  object members _ := ⟨members, rfl, by simp⟩

end Arrangement

theorem settleItems_eq_map (items : List Json) : settleItems items = items.map settle := by
  induction items with
  | nil => rfl
  | cons j rest ih => rw [settleItems, ih, List.map_cons]

theorem putMember_perm (h : name ∉ members.map (·.1)) :
    (putMember name j members).Perm ((name, j) :: members) := by
  induction members with
  | nil => exact .refl _
  | cons m rest ih =>
    rw [List.map_cons, List.mem_cons, not_or] at h
    obtain ⟨hne, hrest⟩ := h
    rw [putMember, if_neg hne]
    split
    · exact .refl _
    · exact ((ih hrest).cons m).trans (.swap ..)

/-- Members with distinct names are all kept. -/
theorem settleMembers_perm (h : (members.map (·.1)).Nodup) :
    (settleMembers members).Perm (members.map fun m => (m.1, settle m.2)) := by
  induction members with
  | nil => exact .refl _
  | cons m rest ih =>
    obtain ⟨hm, hrest⟩ := List.nodup_cons.mp h
    have hnames : ((settleMembers rest).map (·.1)).Perm (rest.map (·.1)) :=
      names_map_snd settle rest ▸ (ih hrest).map _
    exact (putMember_perm fun hmem => hm (hnames.mem_iff.mp hmem)).trans ((ih hrest).cons _)

/-- The order in which a tree holds members: that of their names. -/
def Arrangement.byName : Arrangement where
  arrange := settle
  null := by rw [settle] <;> nofun
  bool _ := by rw [settle] <;> nofun
  natural _ := by rw [settle] <;> nofun
  string _ := by rw [settle] <;> nofun
  array items := by rw [settle, settleItems_eq_map]
  object members h := ⟨settleMembers members, by rw [settle], settleMembers_perm h⟩

end Json

end SecretHitler
