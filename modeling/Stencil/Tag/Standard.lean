import Stencil.Tag.Basic

/-!
# The standard tags

| tag | children, floating ones in parentheses |
|---|---|
| `foreach` | `foreachelse` (`break`, `continue`) |
| `for` | `forelse` (`break`, `continue`) |
| `while` | (`break`, `continue`) |
| `if` | `elseif`, `else` |
| `switch` | `case`, `default` (`break`) |
| `block` | |

Inline are `var`, `include` and `extends`; `capture` and `mailto` call functions.
-/

namespace Stencil.Tag

open Reading Grammar

/-! ## Assignment and parts of templates -/

/-- `$x = value`, or an operation such as `$x += value`. -/
def assign : InlineHandler := fun scope => do
  let place ← target scope
  let op ← take [.role [.assign]]
  let value ← expression scope
  return .set place (if op = ['='] then value else .binary op.dropLast place value)

/-- The name of a template and named arguments. -/
def inclusion : InlineHandler := fun scope => do
  let name ← expression scope
  let arguments ← params scope false
  return .inclusion (name.isString && scope.options.has .embedIncludes) name arguments

def parent : InlineHandler := fun scope => return .parent (← expression scope)

/-- The name of a block: a string, or the rest of the tag as it stands. -/
def blockName : Reading Text := do
  let name ← match (← get).current?.bind Token.unquote? with
    | some name => advance; pure name
    | none => Text.trim <$> collect []
  if name.isEmpty then refuse [.kind .name]
  return name

def openBlock : InlineHandler := fun _ => return .block (← blockName)

/-! ## Branches -/

/-- Notes that a tag has been used; a second time it is refused. -/
def once (key tag : Text) (statement : Statement) : BlockHandler := fun _ frame => do
  if frame.has key then throw (.invalid tag "already used in this block")
  return (statement, frame.put key [])

/-- Refuses `tag` after the tag noted as `key`. -/
def before (key tag : Text) (handler : InlineHandler) : BlockHandler := fun scope frame => do
  if frame.has key then throw (.invalid tag ("follows \x7b" ++ key ++ "\x7d"))
  return (← handler scope, frame)

def openIf : InlineHandler := fun scope => return .ifThen (← expression scope)

def elseIf : InlineHandler := fun scope => return .elseIf (← expression scope)

def openSwitch : InlineHandler := fun scope => return .switch (← expression scope)

def case : InlineHandler := fun scope => return .case (← expression scope)

/-! ## Loops -/

/-- `list as $value` or `list as $key => $value`. -/
def openForeach : InlineHandler := fun scope => do
  let list ← expression scope
  takeWord "as"
  let first ← loopVariable
  if ← skip (mark "=>") then return .foreach list (some first) (← loopVariable)
  return .foreach list none first

/-- A step of one, which counts when a loop gives none. -/
def defaultStep : Text := " step 1"

/-- `$i = first to last step step`, where the step may be left out. -/
def openFor : InlineHandler := fun scope => do
  let name ← loopVariable
  discard <| take (mark "=")
  let first ← expression scope
  takeWord "to"
  let last ← expression scope
  if (← get).atEnd then modify fun c => c.splice c.length defaultStep
  takeWord "step"
  return .forRange name first last (← expression scope)

def openWhile : InlineHandler := fun scope => return .whileLoop (← expression scope)

/-! ## Functions on blocks -/

def paramsKey : Text := "params"

/-- Notes the arguments and starts to capture. -/
def openCapture : BlockHandler := fun scope frame => do
  let arguments ← params scope false
  return (.begin, frame.put paramsKey (Param.listCode arguments))

/-- Hands what was captured and the noted arguments to `symbol`. -/
def closeCapture (symbol : Text) : BlockHandler := fun _ frame =>
  return (.finish symbol ((frame.notes.lookup paramsKey).getD (Param.listCode [])), frame)

/-- A block function; handlers that are not given are those for capturing. -/
def ofBlockFunction (name symbol : Text) (opener closer : Option BlockHandler) : Tag :=
  { name, behaviour := .blockFunction symbol (opener.getD openCapture)
      (closer.getD (closeCapture symbol)) }

/-! ## The tags -/

/-- A block that opens with `handler` and closes with a plain end. -/
def plainBlock (handler : InlineHandler) : Block :=
  { opener := .plain handler, closer := .plain (.constant .close) }

private def withBreak (b : Block) : Block :=
  b.declareFloating "break" (.plain (.constant .breakLoop))

private def withContinue (b : Block) : Block :=
  b.declareFloating "continue" (.plain (.constant .continueLoop))

def foreachBlock : Block :=
  withContinue (withBreak ((plainBlock openForeach).declare "foreachelse"
    (once "else" "foreachelse" .foreachElse)))

def forBlock : Block :=
  withContinue (withBreak ((plainBlock openFor).declare "forelse" (once "else" "forelse" .forElse)))

def whileBlock : Block := withContinue (withBreak (plainBlock openWhile))

def ifBlock : Block :=
  ((plainBlock openIf).declare "elseif" (before "else" "elseif" elseIf)).declare "else"
    (once "else" "else" .otherwise)

def switchBlock : Block :=
  withBreak (((plainBlock openSwitch).declare "case" (before "default" "case" case)).declare
    "default" (once "default" "default" .default))

def standard : List Tag := [
    { name := "foreach", behaviour := .block foreachBlock },
    { name := "for", behaviour := .block forBlock },
    { name := "while", behaviour := .block whileBlock },
    { name := "if", behaviour := .block ifBlock },
    { name := "switch", behaviour := .block switchBlock },
    { name := "block", behaviour := .block (plainBlock openBlock) },
    { name := "var", behaviour := .inline assign },
    { name := "include", behaviour := .inline inclusion },
    { name := "extends", behaviour := .inline parent },
    ofBlockFunction "capture" "Func::capture" none none,
    { name := "mailto", behaviour := .function "Func::mailto" false }]

end Stencil.Tag
