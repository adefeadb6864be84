import Stencil.Expr.Basic
import Stencil.Library
import Stencil.Proofs.Words
import Stencil.Script.Form

/-!
# Written expressions

Expressions as an author writes them, and the text that they make: words with a space between them,
parentheses only where the grammar needs them, and no space before the colon of a modifier's
argument. `Tree.expr` is the expression that a written one stands for, and `Tree.form` the form
that a script has for it.
-/

namespace Stencil

namespace Written

/-! ## Names and operators -/

abbrev Identifier := { t : Text // isWord t = true }

/-- A word that is no operator. -/
abbrev Name := { t : Text // isName t = true }

/-- The name of a function that can be called. -/
abbrev FunctionName := { t : Text // isName t = true ∧ t ∉ Token.constants }

abbrev Constant := { t : Text // t ∈ Token.constants }

abbrev Digits := { t : Text // isDigits t = true }

abbrev UnaryOperator := { t : Text // t ∈ [['!'], ['~'], ['-']] }

abbrev BinaryOperator := { t : Text // (Symbol.bindingPower? t).isSome = true }

def BinaryOperator.power (op : BinaryOperator) : Nat := (Symbol.bindingPower? op.val).get op.property

/-! ## Trees -/

mutual

inductive Tree where
  | integer (digits : Digits)
  | float (number : Decimal)
  | string (literal : Literal)
  | constant (word : Constant)
  | target (place : Target)
  /-- `++place`, or else `--place` -/
  | countFirst (up : Bool) (place : Target)
  /-- `place++`, or else `place--` -/
  | countAfter (up : Bool) (place : Target)
  | call (name : FunctionName) (arguments : List Tree)
  | list (items : List Tree)
  | unary (operator : UnaryOperator) (operand : Tree)
  | binary (operator : BinaryOperator) (left right : Tree)
  | modified (value : Tree) (name : Name) (arguments : List Tree)
  | choice (condition yes no : Tree)
  | fallback (value otherwise : Tree)

/-- A variable with all that belongs to it. -/
inductive Target where
  | variable (name : Identifier)
  | member (base : Target) (name : Name)
  | item (base : Target) (digits : Digits)
  | selected (base : Target) (name : Identifier)
  | index (base : Target) (key : Tree)
  | property (base : Target) (name : Name)
  | method (base : Target) (name : Name) (arguments : List Tree)

end

/-! ## What a tree stands for -/

/-- The symbol that a modifier runs, where there is such a modifier. -/
def symbolOf (scope : Scope) (name : Text) : Text :=
  match scope.library.modifier scope.options name with
  | .ok symbol => symbol
  | .error _ => []

mutual

/-- The expression that a tree stands for. -/
def Tree.expr (scope : Scope) : Tree → Expr
  | .integer digits => .number digits.val
  | .float number => .number number.text
  | .string literal => .string literal.value
  | .constant word => .constant (word.val.map Char.toLower)
  | .target place => place.expr scope
  | .countFirst up place => .count (if up then .incrementFirst else .decrementFirst) (place.expr scope)
  | .countAfter up place => .count (if up then .incrementAfter else .decrementAfter) (place.expr scope)
  | .call name arguments => .call name.val (exprs scope arguments)
  | .list items => .list (exprs scope items)
  | .unary operator operand => .unary operator.val (operand.expr scope)
  | .binary operator left right => .binary operator.val (left.expr scope) (right.expr scope)
  | .modified value name arguments =>
    .modified name.val (symbolOf scope name.val) (value.expr scope) (exprs scope arguments)
  | .choice condition yes no => .choice (condition.expr scope) (yes.expr scope) (no.expr scope)
  | .fallback value otherwise => .fallback (value.expr scope) (otherwise.expr scope)

def Target.expr (scope : Scope) : Target → Expr
  | .variable name => .variable name.val
  | .member base name => .member (base.expr scope) name.val
  | .item base digits => .item (base.expr scope) digits.val
  | .selected base name => .selected (base.expr scope) name.val
  | .index base key => .index (base.expr scope) (key.expr scope)
  | .property base name => .property (base.expr scope) name.val
  | .method base name arguments => .method (base.expr scope) name.val (exprs scope arguments)

def exprs (scope : Scope) : List Tree → List Expr
  | [] => []
  | t :: more => t.expr scope :: exprs scope more

end

/-! ## What a script has for a tree -/

end Written

namespace Form

mutual

/-- A form as it is written: a list in parentheses, with a space between its parts. -/
def text : Form → Text
  | .atom name => name
  | .string value => Quoted.encode value
  | .list parts => '(' :: (joined parts ++ [')'])

def joined : List Form → Text
  | [] => []
  | [part] => part.text
  | part :: next :: more => part.text ++ ' ' :: joined (next :: more)

end

theorem joined_cons (part : Form) (more : List Form) :
    joined (part :: more) = part.text ++ (more.map text).flatMap (' ' :: ·) := by
  induction more generalizing part with
  | nil => simp [joined]
  | cons next more ih => simp [joined, ih]

@[simp] theorem text_atom (name : Text) : (atom name).text = name := rfl

@[simp] theorem text_string (value : Text) : (string value).text = Quoted.encode value := rfl

@[simp] theorem text_list (head : Text) (parts : List Form) :
    (list (.atom head :: parts)).text = form head (parts.map text) := by
  rw [text, joined_cons, form, text_atom, List.append_assoc]

end Form

namespace Written

mutual

/-- The form of a tree. -/
def Tree.form (scope : Scope) : Tree → Form
  | .integer digits => .atom digits.val
  | .float number => .atom number.text
  | .string literal => .string literal.value
  | .constant word => .atom (word.val.map Char.toLower)
  | .target place => place.form scope
  | .countFirst up place => .list [.atom (if up then "preinc" else "predec"), place.form scope]
  | .countAfter up place => .list [.atom (if up then "postinc" else "postdec"), place.form scope]
  | .call name arguments => .list (.atom "fn" :: .atom name.val :: forms scope arguments)
  | .list items => .list (.atom "list" :: forms scope items)
  | .unary operator operand => .list [.atom operator.val, operand.form scope]
  | .binary operator left right => .list [.atom operator.val, left.form scope, right.form scope]
  | .modified value name arguments =>
    .list (.atom "mod" :: .atom (symbolOf scope name.val) :: value.form scope ::
      forms scope arguments)
  | .choice condition yes no =>
    .list [.atom "?", condition.form scope, yes.form scope, no.form scope]
  | .fallback value otherwise => .list [.atom "?:", value.form scope, otherwise.form scope]

def Target.form (scope : Scope) : Target → Form
  | .variable name => .list [.atom "var", .atom name.val]
  | .member base name => .list [.atom "get", base.form scope, .string name.val]
  | .item base digits => .list [.atom "get", base.form scope, .atom digits.val]
  | .selected base name =>
    .list [.atom "get", base.form scope, .list [.atom "var", .atom name.val]]
  | .index base key => .list [.atom "get", base.form scope, key.form scope]
  | .property base name => .list [.atom "prop", base.form scope, .string name.val]
  | .method base name arguments =>
    .list (.atom "method" :: base.form scope :: .string name.val :: forms scope arguments)

def forms (scope : Scope) : List Tree → List Form
  | [] => []
  | t :: more => t.form scope :: forms scope more

end

section Spelling

variable {scope : Scope}

mutual

theorem Tree.spelling_expr : ∀ t : Tree, (t.expr scope).spelling = (t.form scope).text
  | .integer _ | .float _ | .string _ | .constant _ => rfl
  | .target place => place.spelling_expr
  | .countFirst up place | .countAfter up place => by
    rw [Tree.form, Form.text_list, List.map_singleton, ← place.spelling_expr]
    cases up <;> rfl
  | .call name arguments => by
    simp [Tree.expr, Tree.form, Expr.spelling, spellings_exprs arguments]
  | .list items => by simp [Tree.expr, Tree.form, Expr.spelling, spellings_exprs items]
  | .unary _ operand => by simp [Tree.expr, Tree.form, Expr.spelling, operand.spelling_expr]
  | .binary _ left right => by
    simp [Tree.expr, Tree.form, Expr.spelling, left.spelling_expr, right.spelling_expr]
  | .modified value _ arguments => by
    simp [Tree.expr, Tree.form, Expr.spelling, value.spelling_expr,
      spellings_exprs arguments]
  | .choice condition yes no => by
    simp [Tree.expr, Tree.form, Expr.spelling, condition.spelling_expr,
      yes.spelling_expr, no.spelling_expr]
  | .fallback value otherwise => by
    simp [Tree.expr, Tree.form, Expr.spelling, value.spelling_expr, otherwise.spelling_expr]

theorem Target.spelling_expr : ∀ place : Target,
    (place.expr scope).spelling = (place.form scope).text
  | .variable _ => by simp [Target.expr, Target.form, Expr.spelling]
  | .member base _ | .item base _ | .selected base _ | .property base _ => by
    simp [Target.expr, Target.form, Expr.spelling, base.spelling_expr]
  | .index base key => by
    simp [Target.expr, Target.form, Expr.spelling, base.spelling_expr, key.spelling_expr]
  | .method base _ arguments => by
    simp [Target.expr, Target.form, Expr.spelling, base.spelling_expr,
      spellings_exprs arguments]

theorem spellings_exprs : ∀ ts : List Tree,
    Expr.spellings (exprs scope ts) = (forms scope ts).map Form.text
  | [] => rfl
  | t :: more => by simp [exprs, forms, Expr.spellings, t.spelling_expr, spellings_exprs more]

end

end Spelling

mutual

/-- All calls, methods and modifiers of a tree may be used. -/
def Tree.Permitted (scope : Scope) : Tree → Prop
  | .integer _ | .float _ | .string _ | .constant _ => True
  | .target place | .countFirst _ place | .countAfter _ place => place.Permitted scope
  | .call name arguments =>
    scope.library.permits scope.options name.val = true ∧ AllPermitted scope arguments
  | .list items => AllPermitted scope items
  | .unary _ operand => operand.Permitted scope
  | .binary _ left right => left.Permitted scope ∧ right.Permitted scope
  | .modified value name arguments =>
    (∃ symbol, scope.library.modifier scope.options name.val = .ok symbol) ∧
      value.Permitted scope ∧ AllPermitted scope arguments
  | .choice condition yes no =>
    condition.Permitted scope ∧ yes.Permitted scope ∧ no.Permitted scope
  | .fallback value otherwise => value.Permitted scope ∧ otherwise.Permitted scope

def Target.Permitted (scope : Scope) : Target → Prop
  | .variable _ => True
  | .member base _ | .item base _ | .selected base _ | .property base _ => base.Permitted scope
  | .index base key => base.Permitted scope ∧ key.Permitted scope
  | .method base _ arguments =>
    scope.options.has .denyMethods = false ∧ base.Permitted scope ∧ AllPermitted scope arguments

def AllPermitted (scope : Scope) : List Tree → Prop
  | [] => True
  | t :: more => t.Permitted scope ∧ AllPermitted scope more

end

/-! ## What a tree looks like -/

/-- How tightly the outermost part of a tree holds together. -/
def Tree.rank : Tree → Nat
  | .choice .. | .fallback .. => 0
  | .binary operator .. => operator.power
  | .unary .. | .countFirst .. => 13
  | .modified .. => 14
  | _ => 15

/-- Words in parentheses if these are needed, with `after` behind them. -/
def enclosed (needed : Bool) (words : Text → List Word) (after : Text) : List Word :=
  if needed then .spaced ['('] :: (words [' '] ++ [.symbol [')'] after]) else words after

/-- The sign that counts up or down. -/
def countSign (up : Bool) : Text := if up then ['+', '+'] else ['-', '-']

/-- A list that stands between two brackets. -/
def bracketed (opening closing : Text) (words : List Word) (after : Text) : List Word :=
  .spaced opening :: (words ++ [.symbol closing after])

mutual

/-- The words of a tree without parentheses around it, with `after` behind them. -/
def Tree.words : Tree → Text → List Word
  | .integer digits => fun after => [⟨.integer, digits.val, after⟩]
  | .float number => fun after => [⟨.float, number.text, after⟩]
  | .string literal => fun after => [⟨.quoted, literal.text, after⟩]
  | .constant word => fun after => [⟨.name, word.val, after⟩]
  | .target place => place.words
  | .countFirst up place => fun after => .spaced (countSign up) :: place.words after
  | .countAfter up place => fun after => place.words [' '] ++ [.symbol (countSign up) after]
  | .call name arguments => fun after =>
    ⟨.name, name.val, [' ']⟩ :: bracketed ['('] [')'] (listWords arguments) after
  | .list items => bracketed ['['] [']'] (listWords items)
  | .unary operator operand => fun after =>
    .spaced operator.val :: enclosed (operand.rank < 13) operand.words after
  | .binary operator left right => fun after =>
    enclosed (left.rank < operator.power) left.words [' '] ++
      .spaced operator.val :: enclosed (right.rank < operator.power + 1) right.words after
  | .modified value name arguments => fun after =>
    enclosed (value.rank < 14) value.words [' '] ++
      .spaced ['|'] :: ⟨.name, name.val, if arguments.isEmpty then after else []⟩ ::
        argumentWords arguments after
  | .choice condition yes no => fun after =>
    enclosed (condition.rank < 1) condition.words [' '] ++
      .spaced ['?'] :: (yes.words [' '] ++ .spaced [':'] :: no.words after)
  | .fallback value otherwise => fun after =>
    enclosed (value.rank < 1) value.words [' '] ++
      .spaced ['?'] :: .spaced [':'] :: otherwise.words after

def Target.words : Target → Text → List Word
  | .variable name => fun after => [⟨.variable, '$' :: name.val, after⟩]
  | .member base name => fun after =>
    base.words [' '] ++ [.spaced ['.'], ⟨.name, name.val, after⟩]
  | .item base digits => fun after =>
    base.words [' '] ++ [.spaced ['.'], ⟨.integer, digits.val, after⟩]
  | .selected base name => fun after =>
    base.words [' '] ++ [.spaced ['.'], ⟨.variable, '$' :: name.val, after⟩]
  | .index base key => fun after =>
    base.words [' '] ++ bracketed ['['] [']'] (key.words [' ']) after
  | .property base name => fun after =>
    base.words [' '] ++ [.spaced ['-', '>'], ⟨.name, name.val, after⟩]
  | .method base name arguments => fun after =>
    base.words [' '] ++ .spaced ['-', '>'] :: ⟨.name, name.val, [' ']⟩ ::
      bracketed ['('] [')'] (listWords arguments) after

/-- Trees with commas between them. -/
def listWords : List Tree → List Word
  | [] => []
  | [t] => t.words [' ']
  | t :: more => t.words [' '] ++ .spaced [','] :: listWords more

/--
The arguments of a modifier, each after a colon. An argument is a term, perhaps with one operator
before it. Without white space behind an argument the next colon follows at once.
-/
def argumentWords : List Tree → Text → List Word
  | [], _ => []
  | .unary operator operand :: more, after =>
    .colon :: .spaced operator.val ::
      (enclosed (operand.rank < 15) operand.words (if more.isEmpty then after else []) ++
        argumentWords more after)
  | t :: more, after =>
    .colon :: (enclosed (t.rank < 15) t.words (if more.isEmpty then after else []) ++
      argumentWords more after)

end

/-- The words of one argument of a modifier. -/
def argument (t : Tree) (after : Text) : List Word :=
  match t with
  | .unary operator operand =>
    .spaced operator.val :: enclosed (operand.rank < 15) operand.words after
  | t => enclosed (t.rank < 15) t.words after

theorem argumentWords_cons (t : Tree) (more : List Tree) (after : Text) :
    argumentWords (t :: more) after =
      .colon :: (argument t (if more.isEmpty then after else []) ++ argumentWords more after) := by
  cases t <;> rfl

/-- The text of a tree. -/
def Tree.source (t : Tree) : Text := Word.join (t.words [])

/-! ## The words can be told apart -/

theorem mem_powerTable {op : Text} {power : Nat} (h : Symbol.bindingPower? op = some power) :
    (op, power) ∈ Symbol.powerTable := by
  obtain ⟨before, after, heq, -⟩ := List.lookup_eq_some_iff.mp h
  rw [heq]
  simp

theorem BinaryOperator.mem_powerTable (op : BinaryOperator) :
    (op.val, op.power) ∈ Symbol.powerTable :=
  Written.mem_powerTable (by simp [power])

theorem BinaryOperator.spells (op : BinaryOperator) : Spells (.symbol op.val) op.val := by
  have hall : ∀ e ∈ Symbol.powerTable, e.1 ∈ innerSymbols ∨ e.1 ∈ Symbol.words := by decide
  rcases hall _ op.mem_powerTable with h | h
  · exact .symbol h
  · exact .word h

theorem UnaryOperator.spells (op : UnaryOperator) : Spells (.symbol op.val) op.val := by
  have hall : ∀ t ∈ [['!'], ['~'], ['-']], t ∈ innerSymbols := by decide
  exact .symbol (hall _ op.property)

theorem Constant.isName (word : Constant) : Stencil.isName word.val = true := by
  have hall : ∀ t ∈ Token.constants, Stencil.isName t = true := by decide
  exact hall _ word.property

theorem countSign_mem (up : Bool) : countSign up ∈ innerSymbols := by
  cases up <;> decide

open Word (Flows)

theorem flows_enclosed {words : Text → List Word} (h : ∀ after, Flows (words after) after)
    (needed : Bool) (after : Text) : Flows (enclosed needed words after) after := by
  unfold enclosed
  split
  · exact .cons (.symbol (by decide)) ((h [' ']).append (.one (.symbol (by decide)) (by decide) after))
  · exact h after

theorem flows_bracketed {opening closing : Text} (ho : opening ∈ innerSymbols)
    (hc : closing ∈ innerSymbols) (hcolon : closing ≠ [':']) {words : List Word}
    (h : words ≠ [] → Flows words [' ']) (after : Text) :
    Flows (bracketed opening closing words after) after := by
  have hkind : Kind.symbol closing ≠ Word.colon.kind := fun h => hcolon (Kind.symbol.inj h)
  have hlast : Flows [.symbol closing after] after := .one (.symbol hc) hkind after
  unfold bracketed
  cases words with
  | nil => exact .cons (.symbol ho) hlast
  | cons w words => exact .cons (.symbol ho) ((h (by simp)).append hlast)

theorem flows_of_listWords_ne_nil {ts : List Tree} (h : ts ≠ [] → Flows (listWords ts) [' '])
    (hwords : listWords ts ≠ []) : Flows (listWords ts) [' '] :=
  h fun hts => hwords (by rw [hts, listWords])

theorem flows_argument {words : Text → List Word} (h : ∀ after, Flows (words after) after)
    {more : List Tree} {after : Text} (hmore : more ≠ [] → Flows (argumentWords more after) after) :
    Flows (words (if more.isEmpty then after else []) ++ argumentWords more after) after := by
  cases more with
  | nil => simpa [argumentWords] using h after
  | cons t more =>
    have hrest := hmore (by simp)
    rw [argumentWords_cons] at hrest ⊢
    exact (h []).append_colon hrest

mutual

theorem Tree.flows : ∀ (t : Tree) (after : Text), Flows (t.words after) after
  | .integer digits, after => .one (.integer digits.property) (by decide) after
  | .float number, after => .one (.float number) (by decide) after
  | .string literal, after => .one (.quoted literal) (by decide) after
  | .constant word, after => .one (.name word.isName) (by decide) after
  | .target place, after => place.flows after
  | .countFirst up place, after => .cons (.symbol (countSign_mem up)) (place.flows after)
  | .countAfter up place, after =>
    (place.flows [' ']).append (.one (.symbol (countSign_mem up)) (by cases up <;> decide) after)
  | .call name arguments, after =>
    .cons (.name name.property.1)
      (flows_bracketed (by decide) (by decide) (by decide)
        (flows_of_listWords_ne_nil (flows_listWords arguments)) after)
  | .list items, after =>
    flows_bracketed (by decide) (by decide) (by decide)
      (flows_of_listWords_ne_nil (flows_listWords items)) after
  | .unary operator operand, after => .cons operator.spells (flows_enclosed operand.flows _ after)
  | .binary operator left right, after =>
    (flows_enclosed left.flows _ [' ']).append
      (.cons operator.spells (flows_enclosed right.flows _ after))
  | .modified value name arguments, after => by
    refine (flows_enclosed value.flows _ [' ']).append (.cons (.symbol (by decide)) ?_)
    have hname (after : Text) : Flows [⟨.name, name.val, after⟩] after :=
      .one (.name name.property) (by decide) after
    exact flows_argument hname (flows_argumentWords arguments after)
  | .choice condition yes no, after =>
    (flows_enclosed condition.flows _ [' ']).append (.cons (.symbol (by decide))
      ((yes.flows [' ']).append (.cons (.symbol (by decide)) (no.flows after))))
  | .fallback value otherwise, after =>
    (flows_enclosed value.flows _ [' ']).append
      (.cons (.symbol (by decide)) (.cons (.symbol (by decide)) (otherwise.flows after)))

theorem Target.flows : ∀ (p : Target) (after : Text), Flows (p.words after) after
  | .variable name, after => .one (.dollar name.property) (by decide) after
  | .member base name, after =>
    (base.flows [' ']).append
      (.cons (.symbol (by decide)) (.one (.name name.property) (by decide) after))
  | .item base digits, after =>
    (base.flows [' ']).append
      (.cons (.symbol (by decide)) (.one (.integer digits.property) (by decide) after))
  | .selected base name, after =>
    (base.flows [' ']).append
      (.cons (.symbol (by decide)) (.one (.dollar name.property) (by decide) after))
  | .index base key, after =>
    (base.flows [' ']).append
      (flows_bracketed (by decide) (by decide) (by decide) (fun _ => key.flows [' ']) after)
  | .property base name, after =>
    (base.flows [' ']).append
      (.cons (.symbol (by decide)) (.one (.name name.property) (by decide) after))
  | .method base name arguments, after =>
    (base.flows [' ']).append (.cons (.symbol (by decide)) (.cons (.name name.property)
      (flows_bracketed (by decide) (by decide) (by decide)
        (flows_of_listWords_ne_nil (flows_listWords arguments)) after)))

theorem flows_listWords : ∀ (ts : List Tree), ts ≠ [] → Flows (listWords ts) [' ']
  | [], h => absurd rfl h
  | [t], _ => t.flows [' ']
  | t :: next :: more, _ =>
    (t.flows [' ']).append (.cons (.symbol (by decide)) (flows_listWords (next :: more) (by simp)))

theorem flows_argumentWords : ∀ (ts : List Tree) (after : Text), ts ≠ [] →
    Flows (argumentWords ts after) after
  | [], _, h => absurd rfl h
  | t :: more, after, _ => by
    have hmore := flows_argumentWords more after
    have hplain := flows_argument (flows_enclosed t.flows (t.rank < 15)) hmore
    cases t with
    | unary operator operand =>
      have hoperand := flows_argument (flows_enclosed operand.flows (operand.rank < 15)) hmore
      exact .cons (.symbol (by decide)) (.cons operator.spells hoperand)
    | _ => exact .cons (.symbol (by decide)) hplain

end

theorem flows_argument_words (t : Tree) (after : Text) : Flows (argument t after) after := by
  cases t with
  | unary operator operand => exact .cons operator.spells (flows_enclosed operand.flows _ after)
  | _ => exact flows_enclosed (Tree.flows _) _ after

theorem Tree.apart (t : Tree) : Word.Apart (t.words []) := (t.flows []).apart (by simp)

end Written

end Stencil
