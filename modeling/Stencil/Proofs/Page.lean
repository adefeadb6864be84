import Stencil.Proofs.Forms
import Stencil.Proofs.Parts
import Stencil.Proofs.Written

/-!
# Written templates

Templates as an author writes them: texts and tags, with the bodies of loops and branches inside
them. `Node.parts` is how a template looks, `Node.step` what it is meant to do.
-/

namespace Stencil.Written

open Script (Line)

/-! ## Trees -/

abbrev LiteralText := { t : Text // t ≠ [] ∧ isLiteral t = true }

/-- A variable for keys; the underscore stands for none. -/
abbrev KeyName := { t : Text // isWord t = true ∧ t ≠ ['_'] }

mutual

inductive Node where
  | text (value : LiteralText)
  | echo (value : Tree)
  | set (place : Target) (value : Tree)
  | branch (condition : Tree) (body : List Node) (others : Arms)
  | foreach (list : Tree) (key : Option KeyName) (value : Identifier) (body : List Node)
      (otherwise : Option (List Node))
  | forRange (name : Identifier) (first last step : Tree) (body : List Node)
      (otherwise : Option (List Node))
  | whileLoop (condition : Tree) (body : List Node)
  /-- `body` stands before the first case. -/
  | switch (subject : Tree) (body : List Node) (cases : Arms)
  | breakLoop
  | continueLoop

/-- What follows the first body of a branch or a switch. -/
inductive Arms where
  | none
  /-- The body of `else` or `default`. -/
  | last (body : List Node)
  /-- The body of an `elseif` or a `case`. -/
  | next (value : Tree) (body : List Node) (others : Arms)

end

/-! ## What a template looks like -/

/-- A tag that says more than its name. -/
def tag (name : Text) (words : List Word) : Part := .tag (⟨.name, name, [' ']⟩ :: words)

def bareTag (name : Text) : Part := .tag [⟨.name, name, []⟩]

def closeTag (name : Text) : Part := .tag [.symbol ['/'] [], ⟨.name, name, []⟩]

def variableWord (name : Identifier) (after : Text) : Word := ⟨.variable, '$' :: name.val, after⟩

/-- The variables of a loop over a list. -/
def loopWords (key : Option KeyName) (value : Identifier) : List Word :=
  match key with
  | none => [variableWord value []]
  | some key => [⟨.variable, '$' :: key.val, [' ']⟩, .spaced ['=', '>'], variableWord value []]

/-- The variable and the bounds of a loop that counts. -/
def rangeWords (name : Identifier) (first last step : Tree) : List Word :=
  variableWord name [' '] :: .spaced ['='] :: (first.words [' '] ++ ⟨.name, "to", [' ']⟩ ::
    (last.words [' '] ++ ⟨.name, "step", [' ']⟩ :: step.words []))

mutual

def Node.parts : Node → List Part
  | .text value => [.text value.val]
  | .echo value => [.tag (value.words [])]
  | .set place value => [tag "var" (place.words [' '] ++ .spaced ['='] :: value.words [])]
  | .branch condition body others =>
    tag "if" (condition.words []) ::
      (parts body ++ (others.parts "elseif" "else" ++ [closeTag "if"]))
  | .foreach list key value body otherwise =>
    tag "foreach" (list.words [' '] ++ ⟨.name, "as", [' ']⟩ :: loopWords key value) ::
      (parts body ++ (elseParts "foreachelse" otherwise ++ [closeTag "foreach"]))
  | .forRange name first last step body otherwise =>
    tag "for" (rangeWords name first last step) ::
      (parts body ++ (elseParts "forelse" otherwise ++ [closeTag "for"]))
  | .whileLoop condition body =>
    tag "while" (condition.words []) :: (parts body ++ [closeTag "while"])
  | .switch subject body cases =>
    tag "switch" (subject.words []) ::
      (parts body ++ (cases.parts "case" "default" ++ [closeTag "switch"]))
  | .breakLoop => [bareTag "break"]
  | .continueLoop => [bareTag "continue"]

def parts : List Node → List Part
  | [] => []
  | node :: more => node.parts ++ parts more

def Arms.parts (next last : Text) : Arms → List Part
  | .none => []
  | .last body => bareTag last :: Written.parts body
  | .next value body others =>
    tag next (value.words []) :: (Written.parts body ++ others.parts next last)

def elseParts (name : Text) : Option (List Node) → List Part
  | none => []
  | some body => bareTag name :: parts body

end

/-- The text of a template. -/
def source (nodes : List Node) : Text := (parts nodes).flatMap Part.source

/-! ## What a template does -/

mutual

def Node.step (scope : Scope) : Node → Step
  | .text value => .text value.val
  | .echo value => .echo (value.expr scope).form
  | .set place value => .set (place.expr scope).form (value.expr scope).form
  | .branch condition body others =>
    .branch (.mk (some (condition.expr scope).form) (steps scope body) :: others.branches scope)
  | .foreach list key value body otherwise =>
    .foreach (list.expr scope).form (key.map (·.val)) value.val (steps scope body)
      (elseSteps scope otherwise)
  | .forRange name first last step body otherwise =>
    .forRange name.val (first.expr scope).form (last.expr scope).form (step.expr scope).form
      (steps scope body) (elseSteps scope otherwise)
  | .whileLoop condition body => .whileLoop (condition.expr scope).form (steps scope body)
  | .switch subject body cases =>
    .switch (subject.expr scope).form (steps scope body ++ cases.cases scope)
  | .breakLoop => .breakLoop
  | .continueLoop => .continueLoop

def steps (scope : Scope) : List Node → List Step
  | [] => []
  | node :: more => node.step scope :: steps scope more

/-- The further arms of a branch. -/
def Arms.branches (scope : Scope) : Arms → List Arm
  | .none => []
  | .last body => [.mk none (steps scope body)]
  | .next value body others =>
    .mk (some (value.expr scope).form) (steps scope body) :: others.branches scope

/-- The cases of a switch, which are steps of its body. -/
def Arms.cases (scope : Scope) : Arms → List Step
  | .none => []
  | .last body => .default :: steps scope body
  | .next value body others =>
    .case (value.expr scope).form :: (steps scope body ++ others.cases scope)

def elseSteps (scope : Scope) : Option (List Node) → List Step
  | none => []
  | some body => steps scope body

end

/-! ## Which templates are meant -/

def Node.isText : Node → Bool
  | .text _ => true
  | _ => false

mutual

/--
All expressions may be used, no text follows another one, and a tag that leaves or repeats a loop
stands in one.
-/
def Node.Valid (scope : Scope) (inBreakable inLoop : Bool) : Node → Prop
  | .text _ => True
  | .echo value => value.Permitted scope
  | .set place value => place.Permitted scope ∧ value.Permitted scope
  | .branch condition body others =>
    condition.Permitted scope ∧ AllValid scope inBreakable inLoop body ∧
      others.Valid scope inBreakable inLoop
  | .foreach list _ _ body otherwise =>
    list.Permitted scope ∧ AllValid scope true true body ∧ ElseValid scope true true otherwise
  | .forRange _ first last step body otherwise =>
    (first.Permitted scope ∧ last.Permitted scope ∧ step.Permitted scope) ∧
      AllValid scope true true body ∧ ElseValid scope true true otherwise
  | .whileLoop condition body => condition.Permitted scope ∧ AllValid scope true true body
  | .switch subject body cases =>
    subject.Permitted scope ∧ AllValid scope true inLoop body ∧ cases.Valid scope true inLoop
  | .breakLoop => inBreakable = true
  | .continueLoop => inLoop = true

def AllValid (scope : Scope) (inBreakable inLoop : Bool) : List Node → Prop
  | [] => True
  | node :: more =>
    node.Valid scope inBreakable inLoop ∧ (node.isText = true → more.head?.any Node.isText = false) ∧
      AllValid scope inBreakable inLoop more

def Arms.Valid (scope : Scope) (inBreakable inLoop : Bool) : Arms → Prop
  | .none => True
  | .last body => AllValid scope inBreakable inLoop body
  | .next value body others =>
    value.Permitted scope ∧ AllValid scope inBreakable inLoop body ∧
      others.Valid scope inBreakable inLoop

def ElseValid (scope : Scope) (inBreakable inLoop : Bool) : Option (List Node) → Prop
  | none => True
  | some body => AllValid scope inBreakable inLoop body

end

end Stencil.Written
