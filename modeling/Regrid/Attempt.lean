import Regrid.Error

/-!
# Changes that can fail

Objects that are changed in place may have been changed already when an operation fails, so a
failure tells the state it leaves.
-/

namespace Regrid

/-- A change of a state that can fail. The state after a failure is told, too. -/
abbrev Attempt (σ : Type) := EStateM Error σ

namespace Attempt

variable {σ τ α : Type}

/-- A computation without a state leaves every state as it is. -/
def ofExcept (x : Except Error α) : Attempt σ α := fun s =>
  match x with
  | .ok a => .ok a s
  | .error e => .error e s

/-- The state that an attempt leaves, also when it fails. -/
def after (x : Attempt σ α) (s : σ) : σ :=
  match x.run s with
  | .ok _ s => s
  | .error _ s => s

/-- What an attempt gives, without the state that it leaves. -/
def resultOn (x : Attempt σ α) (s : σ) : Except Error α :=
  match x.run s with
  | .ok a _ => .ok a
  | .error e _ => .error e

/-- A change of a part of a state. -/
def within (part : σ → τ) (replace : τ → σ → σ) (x : Attempt τ α) : Attempt σ α := fun s =>
  match x.run (part s) with
  | .ok a t => .ok a (replace t s)
  | .error e t => .error e (replace t s)

end Attempt

instance {σ : Type} : MonadLift (Except Error) (Attempt σ) := ⟨Attempt.ofExcept⟩

end Regrid
