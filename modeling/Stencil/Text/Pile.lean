import Stencil.Text.Basic

/-!
# Text that grows

A pile takes texts one after the other. To add one costs the same however much lies there already.
-/

namespace Stencil

structure Pile where
  /-- What was added, the latest first. -/
  pieces : List Text := []
deriving DecidableEq, Repr

namespace Pile

def add (p : Pile) (t : Text) : Pile := { pieces := t :: p.pieces }

/-- All of it, in the order in which it was added. -/
def text (p : Pile) : Text := p.pieces.reverse.flatten

@[simp] theorem text_empty : ({} : Pile).text = [] := rfl

@[simp] theorem text_add (p : Pile) (t : Text) : (p.add t).text = p.text ++ t := by
  simp [add, text]

end Pile

end Stencil
