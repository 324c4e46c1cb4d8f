import SecretHitler.Randomness.Draws
/-!
# How attempts end

A composed attempt has a value exactly when each of its parts has one, and a
computation that draws threads its source through them. These two equations
(`Attempt.bind_eq_ok`, `Draws.bind_eq_ok`) are what every transition is taken
apart by. `Succeeds` is the other direction: a computation that halts for no
source.
-/

namespace SecretHitler

variable {σ α β : Type}

namespace Attempt

/-- **An attempt in two parts** has a value exactly if both have one. -/
theorem bind_eq_ok {x : Attempt α} {f : α → Attempt β} {b : β} :
    x >>= f = .ok b ↔ ∃ a, x = .ok a ∧ f a = .ok b := by
  rcases x with e | a
  · constructor
    · intro h
      cases h
    · rintro ⟨a, ha, -⟩
      cases ha
  · constructor
    · intro h
      exact ⟨a, rfl, h⟩
    · rintro ⟨a', ha, h⟩
      cases ha
      exact h

@[simp] theorem pure_eq_ok (a : α) : (pure a : Attempt α) = .ok a := rfl

/-- A value is handed to what follows. -/
@[simp] theorem ok_bind (a : α) (f : α → Attempt β) : ((.ok a : Attempt α) >>= f) = f a := rfl

@[simp] theorem reject_bind (r : Rejection) (f : α → Attempt β) : reject r >>= f = reject r := rfl

@[simp] theorem reject_ne_ok (r : Rejection) (a : α) : reject r ≠ .ok a := nofun

@[simp] theorem fail_ne_ok (f : Fault) (a : α) : fail f ≠ .ok a := nofun

/-- What is looked up is had exactly if it is there. -/
@[simp] theorem orReject_eq_ok {r : Rejection} {o : Option α} {a : α} :
    orReject r o = .ok a ↔ o = some a := by
  cases o with
  | none => simp [orReject]
  | some b => simp [orReject]

/-- What has to be there is had exactly if it is. -/
@[simp] theorem orFail_eq_ok {f : Fault} {o : Option α} {a : α} :
    orFail f o = .ok a ↔ o = some a := by
  cases o with
  | none => simp [orFail]
  | some b => simp [orFail]

/-- An attempt that ends in a refusal. -/
def Rejects (x : Attempt α) : Prop := ∃ r, x = reject r

theorem rejects_reject (r : Rejection) : Rejects (reject r : Attempt α) := ⟨r, rfl⟩

/-- What follows a refusal does not happen. -/
theorem Rejects.bind {x : Attempt α} (h : x.Rejects) (f : α → Attempt β) :
    Attempt.Rejects (x >>= f) := by
  obtain ⟨r, rfl⟩ := h
  exact ⟨r, rfl⟩

/-- What is looked up in vain is refused. -/
theorem rejects_orReject {r : Rejection} {o : Option α} (h : o = none) : (orReject r o).Rejects :=
  ⟨r, by rw [h]; rfl⟩

/-- An attempt that has a value. -/
def Succeeds (x : Attempt α) : Prop := ∃ a, x = .ok a

/-- What follows a part may rely on what that part yields. -/
theorem Succeeds.bind {x : Attempt α} {f : α → Attempt β} (hx : x.Succeeds)
    (hf : ∀ a, x = .ok a → (f a).Succeeds) : Attempt.Succeeds (x >>= f) := by
  obtain ⟨a, ha⟩ := hx
  obtain ⟨b, hb⟩ := hf a ha
  exact ⟨b, bind_eq_ok.mpr ⟨a, ha, hb⟩⟩

end Attempt

/-- A counter that is raised stands one higher. -/
theorem increment_eq_ok {n m : UInt32} :
    increment n = .ok m ↔ m.toNat = n.toNat + 1 := by
  have hm := UInt32.toNat_lt m
  simp only [increment, UInt32.size]
  split
  · rename_i hlt
    have hnext : (n + 1).toNat = n.toNat + 1 := by
      rw [UInt32.toNat_add, UInt32.toNat_one, Nat.mod_eq_of_lt hlt]
    rw [Except.ok.injEq, ← UInt32.toNat_inj, hnext]
    exact eq_comm
  · constructor
    · intro h
      cases h
    · intro h
      omega

/-- A counter below some other number can be raised. -/
theorem increment_succeeds {n bound : UInt32} (h : n < bound) : (increment n).Succeeds := by
  have hb := UInt32.toNat_lt bound
  rw [UInt32.lt_iff_toNat_lt] at h
  exact ⟨n + 1, if_pos (by simp only [UInt32.size]; omega)⟩

namespace Draws

/-- **A computation in two parts** has a value exactly if both have one, the second on the
source that the first has left. -/
theorem bind_eq_ok {x : Draws σ α} {f : α → Draws σ β} {s t : σ} {b : β} :
    (x >>= f) s = (.ok b, t) ↔ ∃ a u, x s = (.ok a, u) ∧ f a u = (.ok b, t) := by
  rw [bind_apply]
  rcases x s with ⟨e | a, u⟩
  · simp
  · constructor
    · intro h
      exact ⟨a, u, rfl, h⟩
    · rintro ⟨a', u', ha, h⟩
      cases ha
      exact h

/-- An attempt leaves the source where it is. -/
@[simp] theorem lift_apply (x : Attempt α) (s : σ) : (liftM x : Draws σ α) s = (x, s) := rfl

/-- An attempt comes first and draws nothing. -/
theorem lift_bind_eq_ok {x : Attempt α} {f : α → Draws σ β} {s t : σ} {b : β} :
    ((liftM x : Draws σ α) >>= f) s = (.ok b, t) ↔ ∃ a, x = .ok a ∧ f a s = (.ok b, t) := by
  cases x with
  | error halt => simp [bind_apply]
  | ok a => simp [bind_apply]

/-- A draw moves it on. -/
@[simp] theorem draw_apply (f : σ → α × σ) (s : σ) : draw f s = (.ok (f s).1, (f s).2) := rfl

/-- A computation that ends in a refusal and leaves the source where it was. -/
def Rejects (x : Draws σ α) : Prop := ∀ s, ∃ r, x s = (.error (.rejected r), s)

/-- Refused before anything is drawn. -/
theorem rejects_lift {x : Attempt α} (h : x.Rejects) : Rejects (liftM x : Draws σ α) := by
  obtain ⟨r, rfl⟩ := h
  exact fun s => ⟨r, rfl⟩

/-- What follows a refusal does not happen, and draws nothing. -/
theorem Rejects.bind {x : Draws σ α} (h : x.Rejects) (f : α → Draws σ β) :
    Draws.Rejects (x >>= f) := by
  intro s
  obtain ⟨r, hr⟩ := h s
  exact ⟨r, by rw [bind_apply, hr]⟩

/-- What has a value was not refused. -/
theorem Rejects.ne_ok {x : Draws σ α} (h : x.Rejects) {s t : σ} {a : α} : x s ≠ (.ok a, t) := by
  obtain ⟨r, hr⟩ := h s
  rw [hr]
  simp

@[simp] theorem lift_ok_bind (a : α) (f : α → Draws σ β) :
    ((liftM (.ok a : Attempt α) : Draws σ α) >>= f) = f a := rfl

/-- A computation that has a value whatever the source yields. -/
def Succeeds (x : Draws σ α) : Prop := ∀ s, ∃ a t, x s = (.ok a, t)

namespace Succeeds

theorem pure (a : α) : Succeeds (Pure.pure a : Draws σ α) := fun s => ⟨a, s, rfl⟩

theorem lift {x : Attempt α} (h : x.Succeeds) : Succeeds (liftM x : Draws σ α) := by
  obtain ⟨a, rfl⟩ := h
  exact fun s => ⟨a, s, rfl⟩

theorem draw (f : σ → α × σ) : Succeeds (Draws.draw f) := fun s => ⟨(f s).1, (f s).2, rfl⟩

/-- What follows a part may rely on what that part yields. -/
theorem bind {x : Draws σ α} {f : α → Draws σ β} (hx : Succeeds x)
    (hf : ∀ a s t, x s = (.ok a, t) → Succeeds (f a)) : Succeeds (x >>= f) := by
  intro s
  obtain ⟨a, u, ha⟩ := hx s
  obtain ⟨b, t, hb⟩ := hf a s u ha u
  exact ⟨b, t, bind_eq_ok.mpr ⟨a, u, ha, hb⟩⟩

end Succeeds

end Draws

end SecretHitler
