import Stencil.Text.Quoted

/-!
# Forms

The arguments of a statement in a render script: atoms, strings and lists of forms.
-/

namespace Stencil

inductive Form where
  | atom (name : Text)
  | string (value : Text)
  | list (items : List Form)
deriving Repr

namespace Form

/-- An atom goes on until white space or a parenthesis. -/
def isAtomPart (c : Char) : Bool := !isBlank c && c != '(' && c != ')'

/--
The forms of a text. `done` holds the forms of the list that is open, last first, and `outer` those
of the lists around it. A closing parenthesis needs an open list.
-/
def readFrom (outer : List (List Form)) (done : List Form) : Text → Option (List Form)
  | [] => if outer.isEmpty then some done.reverse else none
  | c :: t =>
    if isBlank c then readFrom outer done t
    else if c = '(' then readFrom (done :: outer) [] t
    else if c = ')' then
      match outer with
      | [] => none
      | around :: outer => readFrom outer (.list done.reverse :: around) t
    else if c = '"' then
      match _ : Quoted.close? t with
      | some (inside, rest) =>
        match Quoted.unescape? inside with
        | some value => readFrom outer (.string value :: done) rest
        | none => none
      | none => none
    else readFrom outer (.atom (c :: t.takeWhile isAtomPart) :: done) (t.dropWhile isAtomPart)
termination_by t => t.length
decreasing_by
  all_goals simp only [List.length_cons]
  · omega
  · omega
  · omega
  · have := Quoted.length_le_of_close ‹_›
    omega
  · have := (List.dropWhile_sublist isAtomPart (l := t)).length_le
    omega

/-- The forms of a text, if all of them are complete. -/
def readAll (t : Text) : Option (List Form) := readFrom [] [] t

end Form

end Stencil
