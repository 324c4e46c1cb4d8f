import SecretHitler.Fault
import SecretHitler.Randomness.Source
/-!
# Computations that draw

A computation that draws from a source and may halt. The source outlives a
halt, so a refused action leaves it where it was and the next one goes on
from there.
-/

namespace SecretHitler

/-- A computation that draws from a source and may halt; the source is there
afterwards either way. -/
def Draws (σ α : Type) : Type := σ → Attempt α × σ

namespace Draws

variable {σ α β : Type}

instance : Monad (Draws σ) where
  pure a := fun s => (.ok a, s)
  bind x f := fun s =>
    match x s with
    | (.ok a, s) => f a s
    | (.error e, s) => (.error e, s)

/-- To return a value is to draw nothing. -/
@[simp] theorem pure_apply (a : α) (s : σ) : (pure a : Draws σ α) s = (.ok a, s) := rfl

/-- A halt ends the computation; the source goes on from where it is. -/
theorem bind_apply (x : Draws σ α) (f : α → Draws σ β) (s : σ) :
    (x >>= f) s = match x s with
      | (.ok a, s) => f a s
      | (.error e, s) => (.error e, s) := rfl

private theorem map_id_apply (x : Draws σ α) : id <$> x = x := by
  funext s
  show (x >>= fun a => pure (id a)) s = x s
  rw [bind_apply]
  rcases x s with ⟨_ | _, _⟩ <;> rfl

private theorem bind_bind_apply {γ : Type} (x : Draws σ α) (f : α → Draws σ β)
    (g : β → Draws σ γ) : x >>= f >>= g = x >>= fun a => f a >>= g := by
  funext s
  simp only [bind_apply]
  rcases x s with ⟨_ | _, _⟩ <;> rfl

instance : LawfulMonad (Draws σ) :=
  LawfulMonad.mk' (Draws σ) map_id_apply (fun _ _ => rfl) bind_bind_apply

/-- An attempt that draws nothing. -/
def of (x : Attempt α) : Draws σ α := fun s => (x, s)

/-- An attempt leaves the source as it is. -/
@[simp] theorem of_apply (x : Attempt α) (s : σ) : (of x : Draws σ α) s = (x, s) := rfl

instance : MonadLift Attempt (Draws σ) where
  monadLift := of

/-- A draw that always succeeds. -/
def draw (f : σ → α × σ) : Draws σ α := fun s =>
  let (a, s) := f s
  (.ok a, s)

/-- A random member of a list, or a fault if there is none. -/
def choose [RandomSource σ] (l : List α) : Draws σ α :=
  if l.isEmpty then of (.fail .noOptions)
  else do
    let i ← draw (RandomSource.below l.length)
    of (.orFail .noOptions l[i]?)

end Draws

end SecretHitler
