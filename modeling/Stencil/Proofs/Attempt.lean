import Stencil.Proofs.Steps

/-!
# Attempts

An attempt works on a state and succeeds or fails like a reader, or gives nothing at all: because it
never comes to an end, or because it asks for something that is not there.
-/

namespace Stencil

abbrev Attempt (σ : Type) := ExceptT Fault (StateT σ Option)

namespace Attempt

variable {σ α β : Type}

def nothing : Attempt σ α := fun _ => none

/-- What came of a reader, and a view of where it left the cursor. -/
def outcome (view : Cursor → σ) : EStateM.Result Fault Cursor α → Except Fault α × σ
  | .ok a c => (.ok a, view c)
  | .error fault c => (.error fault, view c)

/-- A reader gives something everywhere. -/
def ofReading (read : Reading α) : Attempt Cursor α := fun c => some (outcome id (read c))

instance (priority := low) : MonadLift Reading (Attempt Cursor) where
  monadLift := ofReading

/-- What has to be there. -/
def access (found : Option α) : Attempt σ α := fun s => found.map fun a => (.ok a, s)

theorem bind_of_ok {run : Attempt σ α} {f : α → Attempt σ β} {s s' : σ} {a : α}
    (h : run s = some (.ok a, s')) : (run >>= f) s = f a s' := by
  simp [bind, ExceptT.bind, StateT.bind, ExceptT.mk, ExceptT.bindCont, h]

theorem bind_of_error {run : Attempt σ α} {f : α → Attempt σ β} {s s' : σ} {fault : Fault}
    (h : run s = some (.error fault, s')) : (run >>= f) s = some (.error fault, s') := by
  simp only [bind, ExceptT.bind, StateT.bind, ExceptT.mk, h, Option.bind_some]
  rfl

theorem get_bind (f : σ → Attempt σ α) (s : σ) : (get >>= f) s = f s s := rfl

theorem bind_eq_outcome {view : Cursor → σ} {run : Attempt σ α} {read : Reading α}
    {f : α → Attempt σ β} {g : α → Reading β} {c : Cursor}
    (h : run (view c) = some (outcome view (read c)))
    (hf : ∀ a c', read c = .ok a c' → f a (view c') = some (outcome view (g a c'))) :
    (run >>= f) (view c) = some (outcome view ((read >>= g) c)) := by
  cases hread : read c with
  | ok a c' =>
    rw [hread] at h
    rw [bind_of_ok h, Reading.bind_of_ok hread]
    exact hf a c' hread
  | error fault c' =>
    rw [hread] at h
    rw [bind_of_error h, Reading.bind_of_error hread]
    rfl

end Attempt

end Stencil
