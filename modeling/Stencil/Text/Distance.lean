import Stencil.Text.Basic

/-!
# Edit distance

How many characters have to be put in, taken out or exchanged to get from one word to another, and
the known word nearest to a misspelt one.
-/

namespace Stencil

/--
The cells of one row of the distance table right of its first. `left` is the cell before, `above`
the row before from `diagonal` on.
-/
def editCells (a : Char) (left diagonal : Nat) : Text → List Nat → List Nat
  | b :: bs, up :: above =>
    let cell := min (min (left + 1) (up + 1)) (diagonal + if a = b then 0 else 1)
    cell :: editCells a cell up bs above
  | _, _ => []

/-- The row for one more character `a`. -/
def editRow (b : Text) (row : List Nat) (a : Char) : List Nat :=
  match row with
  | [] => []
  | first :: above => (first + 1) :: editCells a (first + 1) first b above

def editDistance (a b : Text) : Nat :=
  (a.foldl (editRow b) (List.range (b.length + 1))).getLast?.getD 0

/-- The nearer of two candidates; the first one if they are equally near. -/
def nearer (word : Text) (best next : Text) : Text :=
  if editDistance word next < editDistance word best then next else best

/-- The known word nearest to `word`, if it is within `limit`. -/
def nearest? (limit : Nat) (word : Text) : List Text → Option Text
  | [] => none
  | known :: more =>
    let best := more.foldl (nearer word) known
    if editDistance word best ≤ limit then some best else none

end Stencil
