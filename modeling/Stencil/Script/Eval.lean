import Stencil.Script.Form
import Stencil.Script.Value
import Stencil.Table
import Stencil.Text.Case

/-!
# Evaluating forms

What a form stands for under given variables. Forms, functions and operators that scripts do not
know have no value.
-/

namespace Stencil

/-- The variables of a script and their values. -/
abbrev Variables := Table Text Value

namespace Script

/-- The value of an atom: a constant or a number. -/
def atomValue (name : Text) : Option Value :=
  match String.ofList name with
  | "true" => some (.bool true)
  | "false" => some (.bool false)
  | "null" => some .null
  | _ => (Number.read? name).map .ofNumber

/-- The functions and modifiers that scripts can run. -/
def callFunction (name : Text) (arguments : List Value) : Option Value :=
  match String.ofList name, arguments with
  | "strtoupper", [v] => some (.string (String.ofList (Text.upper v.display)))
  | "strtolower", [v] => some (.string (String.ofList (Text.lower v.display)))
  | "count", [.list items] => some (.whole items.length)
  | "count", [.object fields] => some (.whole fields.length)
  | "Modifier::default_value", [v, fallback] => some (if v.isTrue then v else fallback)
  | "Modifier::truncate", v :: length :: _ =>
    some (.string (String.ofList (v.display.toList.take (Number.toIndex length.toNumber))))
  | _, _ => none

def arithmetic (op : Float → Float → Float) (a b : Value) : Value :=
  .ofNumber (op a.toNumber b.toNumber)

def comparison (op : Float → Float → Bool) (a b : Value) : Value :=
  .bool (op a.toNumber b.toNumber)

/-- A binary operator. Both operands are values, so nothing is skipped by `&&` and `||`. -/
def operate (op : Text) (a b : Value) : Option Value :=
  match String.ofList op with
  | "+" => some (arithmetic (· + ·) a b)
  | "-" => some (arithmetic (· - ·) a b)
  | "*" => some (arithmetic (· * ·) a b)
  | "/" => some (arithmetic (· / ·) a b)
  | "%" => some (arithmetic Number.remainder a b)
  | "." => some (.string (a.display ++ b.display))
  | "==" => some (.bool (a.equal b))
  | "!=" => some (.bool (!a.equal b))
  | "===" => some (.bool (a.same b))
  | "!==" => some (.bool (!a.same b))
  | "<" => some (comparison (· < ·) a b)
  | "<=" => some (comparison (· ≤ ·) a b)
  | ">" => some (comparison (· > ·) a b)
  | ">=" => some (comparison (· ≥ ·) a b)
  | "&&" | "and" => some (.bool (a.isTrue && b.isTrue))
  | "||" | "or" => some (.bool (a.isTrue || b.isTrue))
  | _ => none

/-- A form whose arguments are all evaluated. -/
def apply (head : Text) (arguments : List Value) : Option Value :=
  match String.ofList head, arguments with
  | "list", items => some (.list items)
  | "get", [base, key] => some (base.get key)
  | "!", [v] => some (.bool !v.isTrue)
  | "-", [v] => some (.ofNumber (-v.toNumber))
  | _, [a, b] => operate head a b
  | _, _ => none

/-- The value of a variable, whose name is the only argument. -/
def variableValue (vars : Variables) : List Form → Option Value
  | [.atom name] => some ((vars.get? name).getD .null)
  | _ => none

mutual

/-- The value of a form. -/
def eval (vars : Variables) : Form → Option Value
  | .string value => some (.string (String.ofList value))
  | .atom name => atomValue name
  | .list (.atom head :: arguments) =>
    match String.ofList head with
    | "var" => variableValue vars arguments
    | "?" => evalChoice vars arguments
    | "?:" => evalFallback vars arguments
    | "fn" | "mod" => evalCall vars arguments
    | _ => (evalAll vars arguments).bind (apply head)
  | .list _ => none

/-- Only the branch that is taken is evaluated. -/
def evalChoice (vars : Variables) : List Form → Option Value
  | [condition, yes, no] => do
    if (← eval vars condition).isTrue then eval vars yes else eval vars no
  | _ => none

/-- The second form is evaluated only if the first is not true. -/
def evalFallback (vars : Variables) : List Form → Option Value
  | [value, otherwise] => do
    let v ← eval vars value
    if v.isTrue then return v else eval vars otherwise
  | _ => none

/-- The name of a function, and its arguments. -/
def evalCall (vars : Variables) : List Form → Option Value
  | .atom name :: arguments => (evalAll vars arguments).bind (callFunction name)
  | _ => none

def evalAll (vars : Variables) : List Form → Option (List Value)
  | [] => some []
  | f :: more => return (← eval vars f) :: (← evalAll vars more)

end

end Script

end Stencil
