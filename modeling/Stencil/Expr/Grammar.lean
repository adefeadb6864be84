import Stencil.Expr.Basic
import Stencil.Library
import Stencil.Reading

/-!
# Reading expressions

Binary operators are told apart by their binding powers, modifiers bind tighter than all of them,
and the choice `?` binds loosest. Calls, methods and modifiers are checked as they are met.

The readers here take the reader for an expression inside an expression as an argument, and
`expressionWithin` ties the knot. A loop is bounded by a number that is not less than that of the
tokens left when it starts; with none left it does what it does at the end of the tokens, so the
bound never shows.
-/

namespace Stencil.Grammar

open Reading

/-- The wants of one symbol. -/
def mark (spelling : Text) : List Want := [.symbol spelling]

/-- The expressions inside another one. -/
structure Inner where
  read : Reading Expr
  /-- No less than the tokens left where the outer expression starts. -/
  bound : Nat

/-! ## Parts with expressions inside -/

/-- Arguments up to and with the closing parenthesis; at least one. -/
def argumentsFrom (inner : Inner) : Nat → Reading (List Expr)
  | 0 => refuse []
  | bound + 1 => do
    let first ← inner.read
    if ← skip (mark ")") then return [first]
    discard <| take (mark ",")
    return first :: (← argumentsFrom inner bound)

/-- Arguments in parentheses, commas between them. -/
def arguments (inner : Inner) : Reading (List Expr) := do
  discard <| take (mark "(")
  if ← skip (mark ")") then return []
  argumentsFrom inner inner.bound

/-- Items up to and with the closing bracket. -/
def itemsFrom (inner : Inner) : Nat → Reading (List Expr)
  | 0 => refuse []
  | bound + 1 => do
    if ← skip (mark "]") then return []
    let first ← inner.read
    unless ← sees (mark "]") do
      discard <| take (mark ",")
    return first :: (← itemsFrom inner bound)

/-- Items in brackets, commas between them and perhaps after the last. -/
def items (inner : Inner) : Reading (List Expr) := do
  discard <| take (mark "[")
  itemsFrom inner inner.bound

/-! ## Variables -/

/-- What stands after a point. -/
def dotted (base : Expr) : Reading Expr := fun c =>
  match c.current? with
  | some token =>
    match token.kind with
    | .name => .ok (.member base token.text) c.advance
    | .integer => .ok (.item base token.text) c.advance
    | .variable => .ok (.selected base token.name) c.advance
    | _ => refuse [.kind .name] c
  | none => refuse [.kind .name] c

/-- What stands after an arrow: a property or a method call. -/
def arrowed (scope : Scope) (inner : Inner) (base : Expr) : Reading Expr := do
  let name ← take [.kind .name]
  unless ← sees (mark "(") do return .property base name
  if scope.options.has .denyMethods then throw (.disallowedCall ("->" ++ name ++ "()"))
  return .method base name (← arguments inner)

/-- Everything that a variable can be followed by. -/
def accesses (scope : Scope) (inner : Inner) : Nat → Expr → Reading Expr
  | 0, base => return base
  | bound + 1, base => do
    if ← skip (mark ".") then accesses scope inner bound (← dotted base)
    else if ← skip (mark "[") then
      let key ← inner.read
      discard <| take (mark "]")
      accesses scope inner bound (.index base key)
    else if ← skip (mark "->") then accesses scope inner bound (← arrowed scope inner base)
    else return base

/-- A variable without what follows it. -/
def loopVariable : Reading Text := do
  let token ← need [.kind .variable]
  advance
  return token.name

/-- A variable with all that belongs to it: what can be assigned to. -/
def targetWith (scope : Scope) (inner : Inner) : Reading Expr := do
  let name ← loopVariable
  accesses scope inner inner.bound (.variable name)

/-! ## Terms and modifiers -/

/-- A variable, perhaps counted up or down afterwards. -/
def counted (scope : Scope) (inner : Inner) : Reading Expr := do
  let target ← targetWith scope inner
  match ← takeOperator? .step with
  | some op => return .count (if op = ['+', '+'] then .incrementAfter else .decrementAfter) target
  | none => return target

def call (scope : Scope) (inner : Inner) : Reading Expr := do
  let name ← take [.kind .name]
  unless scope.library.permits scope.options name do throw (.disallowedCall name)
  return .call name (← arguments inner)

def parenthesised (inner : Inner) : Reading Expr := do
  advance
  let e ← inner.read
  discard <| take (mark ")")
  return e

/-- A constant or a call. -/
def word (scope : Scope) (inner : Inner) (token : Token) : Reading Expr := fun c =>
  if token.isConstant then .ok (.constant (token.text.map Char.toLower)) c.advance
  else if c.seesNext (mark "(") then call scope inner c
  else refuse [] c

def term (scope : Scope) (inner : Inner) : Reading Expr := fun c =>
  match c.current? with
  | some token =>
    match token.kind with
    | .integer | .float => .ok (.number token.text) c.advance
    | .quoted => .ok (.string (token.unquote?.getD [])) c.advance
    | .variable => counted scope inner c
    | .name => word scope inner token c
    | .symbol ['('] => parenthesised inner c
    | .symbol ['['] => (Expr.list <$> items inner) c
    | _ => refuse [] c
  | none => refuse [] c

/-- An argument of a modifier: a term, perhaps with one operator before it. -/
def modifierArgument (scope : Scope) (inner : Inner) : Reading Expr := do
  match ← takeOperator? .unary with
  | some op => return .unary op (← term scope inner)
  | none => term scope inner

/--
The arguments of a modifier, each after a colon. Inside the first branch of a choice a colon with
white space before it ends the branch instead.
-/
def modifierArguments (scope : Scope) (inner : Inner) (inBranch : Bool) :
    Nat → Reading (List Expr)
  | 0 => return []
  | bound + 1 => do
    if inBranch && (← get).spaced && (← sees (mark ":")) then return []
    unless ← skip (mark ":") do return []
    let first ← modifierArgument scope inner
    return first :: (← modifierArguments scope inner inBranch bound)

/-- A modifier, after its bar. -/
def modifier (scope : Scope) (inner : Inner) (inBranch : Bool) (value : Expr) :
    Reading Expr := do
  let name ← take [.kind .name]
  match scope.library.modifier scope.options name with
  | .error fault => throw fault
  | .ok symbol =>
    return .modified name symbol value (← modifierArguments scope inner inBranch inner.bound)

def modifiers (scope : Scope) (inner : Inner) (inBranch : Bool) : Nat → Expr → Reading Expr
  | 0, value => return value
  | bound + 1, value => do
    unless ← skip (mark "|") do return value
    modifiers scope inner inBranch bound (← modifier scope inner inBranch value)

/-! ## Operators -/

/-- An operand of the binary operators. -/
def operand (scope : Scope) (inner : Inner) (inBranch : Bool) : Nat → Reading Expr
  | 0 => refuse []
  | bound + 1 => do
    if let some op ← takeOperator? .unary then
      return .unary op (← operand scope inner inBranch bound)
    if let some op ← takeOperator? .step then
      let target ← targetWith scope inner
      return .count (if op = ['+', '+'] then .incrementFirst else .decrementFirst) target
    let value ← term scope inner
    modifiers scope inner inBranch inner.bound value

/-- An operand with all the operators before it. -/
def operandHere (scope : Scope) (inner : Inner) (inBranch : Bool) : Reading Expr :=
  operand scope inner inBranch inner.bound

/-- The current binary operator, if it binds at least as tightly as `least`, and its power. -/
def binaryOperator? (c : Cursor) (least : Nat) : Option (Text × Nat) := do
  let op ← c.operator? .binary
  let power ← Symbol.bindingPower? op
  if least ≤ power then some (op, power) else none

/-- Goes on after the operand `left` with the operators that bind at least as tightly as `least`. -/
def climb (next : Reading Expr) : Nat → Nat → Expr → Reading Expr
  | 0, _, left => return left
  | bound + 1, least, left => do
    match binaryOperator? (← get) least with
    | none => return left
    | some (op, power) =>
      advance
      let first ← next
      let right ← climb next bound (power + 1) first
      climb next bound least (.binary op left right)

/-- Operands joined by binary operators. -/
def operation (scope : Scope) (inner : Inner) (inBranch : Bool) : Reading Expr := do
  let first ← operandHere scope inner inBranch
  climb (operandHere scope inner inBranch) inner.bound 0 first

/-- An expression, where `inner` reads the expressions inside it. -/
def choice (scope : Scope) (inner : Bool → Reading Expr) (bound : Nat) (inBranch : Bool) :
    Reading Expr := do
  let condition ← operation scope { read := inner false, bound } inBranch
  unless ← skip (mark "?") do return condition
  if ← skip (mark ":") then return .fallback condition (← inner inBranch)
  let yes ← inner true
  discard <| take (mark ":")
  return .choice condition yes (← inner inBranch)

/--
An expression where no more than `depth` tokens are left. One inside it starts later, with fewer
tokens left. `inBranch` holds in the first branch of a choice that is still open.
-/
def expressionWithin (scope : Scope) : Nat → Bool → Reading Expr
  | 0, _ => refuse []
  | depth + 1, inBranch => choice scope (expressionWithin scope depth) (depth + 1) inBranch

/-- An expression. -/
def expression (scope : Scope) : Reading Expr := do
  expressionWithin scope (← remaining) false

/-- A variable with all that belongs to it. -/
def target (scope : Scope) : Reading Expr := do
  let bound ← remaining
  targetWith scope { read := expressionWithin scope bound false, bound }

/-! ## Arguments of tags -/

/-- All remaining tokens as arguments; `positional` allows arguments without a name. -/
def paramsFrom (scope : Scope) (positional : Bool) : Nat → Reading (List Param)
  | 0 => return []
  | bound + 1 => do
    let c ← get
    if c.atEnd then return []
    let first ←
      if c.sees [.kind .name] && c.seesNext (mark "=") then
        let name ← takeAny
        advance
        Param.named name <$> expression scope
      else if positional then Param.positional <$> expression scope
      else refuse [.kind .name]
    return first :: (← paramsFrom scope positional bound)

def params (scope : Scope) (positional : Bool) : Reading (List Param) := do
  paramsFrom scope positional (← remaining)

end Stencil.Grammar
