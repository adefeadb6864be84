import Stencil.Expr.Basic

/-!
# Statements

What tags compile to. A statement is one line of the render script, except that a host's own tags
may give any text.
-/

namespace Stencil

inductive Statement where
  /-- Literal text. -/
  | text (value : Text)
  | echo (value : Expr)
  /-- Prints what a function of the host returns. -/
  | echoCall (symbol : Text) (params : List Param)
  | set (target value : Expr)
  | ifThen (condition : Expr)
  | elseIf (condition : Expr)
  | otherwise
  /-- A loop over a list; without a key variable the script has an underscore in its place. -/
  | foreach (list : Expr) (key : Option Text) (value : Text)
  | foreachElse
  | forRange (name : Text) (first last step : Expr)
  | forElse
  | whileLoop (condition : Expr)
  | switch (subject : Expr)
  | case (value : Expr)
  | default
  | breakLoop
  | continueLoop
  | close
  | block (name : Text)
  | parent (name : Expr)
  | inclusion (embedded : Bool) (name : Expr) (params : List Param)
  /-- Starts to capture output for a function. -/
  | begin
  /-- Hands what was captured and the arguments, in code, to a function. -/
  | finish (symbol params : Text)
  /-- Any code at all; nothing if it is empty. -/
  | code (fragment : Text)

namespace Statement

/-- Words with a space between them. -/
def words : List Text → Text
  | [] => []
  | [word] => word
  | word :: more => word ++ ' ' :: words more

/-- The statement in the script. -/
def render : Statement → Text
  | .text value => words ["text", Quoted.encode value]
  | .echo value => words ["echo", value.code]
  | .echoCall symbol params => words ["echo", form "call" [symbol, Param.listCode params]]
  | .set target value => words ["set", target.code, value.code]
  | .ifThen condition => words ["if", condition.code]
  | .elseIf condition => words ["elseif", condition.code]
  | .otherwise => "else"
  | .foreach list key value => words ["foreach", list.code, key.getD ['_'], value]
  | .foreachElse => "foreachelse"
  | .forRange name first last step => words ["for", name, first.code, last.code, step.code]
  | .forElse => "forelse"
  | .whileLoop condition => words ["while", condition.code]
  | .switch subject => words ["switch", subject.code]
  | .case value => words ["case", value.code]
  | .default => "default"
  | .breakLoop => "break"
  | .continueLoop => "continue"
  | .close => "end"
  | .block name => words ["block", Quoted.encode name]
  | .parent name => words ["extends", name.code]
  | .inclusion embedded name params =>
    words [if embedded then "embed" else "include", name.code, Param.listCode params]
  | .begin => "begin"
  | .finish symbol params => words ["finish", symbol, params]
  | .code fragment => fragment

end Statement

end Stencil
