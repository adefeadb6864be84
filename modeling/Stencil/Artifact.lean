import Stencil.Dialect
import Stencil.Moment

/-!
# Artifacts

Compiled templates as they are handed out. A stamp tells how current an artifact is; one without a
stamp cannot be checked and counts as current.
-/

namespace Stencil

inductive Stamp where
  /-- Compiled from a source with this time. -/
  | source (seen : Moment)
  /-- Read from a record with this time. -/
  | record (written : Moment)
deriving DecidableEq, Repr

/-- The artifact still matches a source that was last changed at `modified`. -/
def Stamp.isFresh (modified : Moment) : Stamp → Bool
  | .source seen => seen = modified
  | .record written => modified ≤ written

structure Artifact where
  name : Text
  code : Text
  options : Options
  stamp? : Option Stamp := none
  /-- The dialect that the script's names belong to. -/
  dialect? : Option Dialect := none

namespace Artifact

def bind (a : Artifact) (d : Dialect) : Artifact := { a with dialect? := some d }

def isBound (a : Artifact) : Bool := a.dialect?.isSome

end Artifact

/-- An artifact that several holders have in common. Two with one number are the same one. -/
structure Shared where
  number : Nat
  artifact : Artifact

end Stencil
