import Stencil.Text.Quoted

/-!
# Expressions

Expressions of templates as trees, and the form that stands for them in a render script.
Parentheses, the kind of quotes and the case of constants leave no trace in the tree.

`Expr.spelling` says which form stands for an expression, kind by kind. `Expr.code` is the same
text, written from its end so that long expressions cost no more than their length.
-/

namespace Stencil

/-- The four ways to count a variable up or down. -/
inductive Count where
  | incrementFirst
  | decrementFirst
  | incrementAfter
  | decrementAfter
deriving DecidableEq, Repr

inductive Expr where
  /-- A number, as it is written. -/
  | number (digits : Text)
  | string (value : Text)
  /-- One of `true`, `false` and `null`. -/
  | constant (word : Text)
  | variable (name : Text)
  /-- `base.name` -/
  | member (base : Expr) (name : Text)
  /-- `base.0` -/
  | item (base : Expr) (digits : Text)
  /-- `base.$name` -/
  | selected (base : Expr) (name : Text)
  /-- `base[key]` -/
  | index (base key : Expr)
  /-- `base->name` -/
  | property (base : Expr) (name : Text)
  /-- `base->name(arguments)` -/
  | method (base : Expr) (name : Text) (arguments : List Expr)
  | call (name : Text) (arguments : List Expr)
  | list (items : List Expr)
  | unary (operator : Text) (operand : Expr)
  | count (way : Count) (target : Expr)
  | binary (operator : Text) (left right : Expr)
  /-- `value|name:argument:…`, where the library runs `symbol` for the name. -/
  | modified (name symbol : Text) (value : Expr) (arguments : List Expr)
  /-- `condition ? yes : no` -/
  | choice (condition yes no : Expr)
  /-- `value ?: otherwise` -/
  | fallback (value otherwise : Expr)

/-- The head of the form for a count. -/
def Count.head : Count → Text
  | .incrementFirst => "preinc"
  | .decrementFirst => "predec"
  | .incrementAfter => "postinc"
  | .decrementAfter => "postdec"

/-! ## Forms -/

/-- A form of the script: a head and what follows it, each part after a space. -/
def form (head : Text) (parts : List Text) : Text :=
  '(' :: (head ++ (parts.flatMap (' ' :: ·) ++ [')']))

/-- A form in front of `rest`, made of parts that each put themselves in front of a text. -/
def formBefore (head : Text) (parts : List (Text → Text)) (rest : Text) : Text :=
  '(' :: (head ++ parts.foldr (fun part rest => ' ' :: part rest) (')' :: rest))

namespace Expr

mutual

/-- How an expression is spelled in a script. -/
def spelling : Expr → Text
  | .number digits => digits
  | .string value => Quoted.encode value
  | .constant word => word
  | .variable name => form "var" [name]
  | .member base name => form "get" [base.spelling, Quoted.encode name]
  | .item base digits => form "get" [base.spelling, digits]
  | .selected base name => form "get" [base.spelling, form "var" [name]]
  | .index base key => form "get" [base.spelling, key.spelling]
  | .property base name => form "prop" [base.spelling, Quoted.encode name]
  | .method base name arguments =>
    form "method" (base.spelling :: Quoted.encode name :: spellings arguments)
  | .call name arguments => form "fn" (name :: spellings arguments)
  | .list items => form "list" (spellings items)
  | .unary operator operand => form operator [operand.spelling]
  | .count way target => form way.head [target.spelling]
  | .binary operator left right => form operator [left.spelling, right.spelling]
  | .modified _ symbol value arguments =>
    form "mod" (symbol :: value.spelling :: spellings arguments)
  | .choice condition yes no => form "?" [condition.spelling, yes.spelling, no.spelling]
  | .fallback value otherwise => form "?:" [value.spelling, otherwise.spelling]

def spellings : List Expr → List Text
  | [] => []
  | e :: more => e.spelling :: spellings more

end

mutual

/-- The spelling of an expression in front of `rest`, each character of it put down once. -/
def codeBefore : Expr → Text → Text
  | .number digits => (digits ++ ·)
  | .string value => (Quoted.encode value ++ ·)
  | .constant word => (word ++ ·)
  | .variable name => formBefore "var" [(name ++ ·)]
  | .member base name => formBefore "get" [base.codeBefore, (Quoted.encode name ++ ·)]
  | .item base digits => formBefore "get" [base.codeBefore, (digits ++ ·)]
  | .selected base name => formBefore "get" [base.codeBefore, (form "var" [name] ++ ·)]
  | .index base key => formBefore "get" [base.codeBefore, key.codeBefore]
  | .property base name => formBefore "prop" [base.codeBefore, (Quoted.encode name ++ ·)]
  | .method base name arguments =>
    formBefore "method" (base.codeBefore :: (Quoted.encode name ++ ·) :: codesBefore arguments)
  | .call name arguments => formBefore "fn" ((name ++ ·) :: codesBefore arguments)
  | .list items => formBefore "list" (codesBefore items)
  | .unary operator operand => formBefore operator [operand.codeBefore]
  | .count way target => formBefore way.head [target.codeBefore]
  | .binary operator left right => formBefore operator [left.codeBefore, right.codeBefore]
  | .modified _ symbol value arguments =>
    formBefore "mod" ((symbol ++ ·) :: value.codeBefore :: codesBefore arguments)
  | .choice condition yes no =>
    formBefore "?" [condition.codeBefore, yes.codeBefore, no.codeBefore]
  | .fallback value otherwise => formBefore "?:" [value.codeBefore, otherwise.codeBefore]

def codesBefore : List Expr → List (Text → Text)
  | [] => []
  | e :: more => e.codeBefore :: codesBefore more

end

/-- The code of an expression in a script. -/
def code (e : Expr) : Text := e.codeBefore []

mutual

theorem codeBefore_eq : ∀ (e : Expr) (rest : Text), e.codeBefore rest = e.spelling ++ rest
  | .number _, _ | .string _, _ | .constant _, _ => rfl
  | .variable _, _ => by simp [codeBefore, spelling, formBefore, form]
  | .member base _, _ | .item base _, _ | .selected base _, _ | .property base _, _
  | .unary _ base, _ | .count _ base, _ => by
    simp [codeBefore, spelling, formBefore, form, codeBefore_eq base]
  | .index left right, _ | .binary _ left right, _ | .fallback left right, _ => by
    simp [codeBefore, spelling, formBefore, form, codeBefore_eq left, codeBefore_eq right]
  | .choice condition yes no, _ => by
    simp [codeBefore, spelling, formBefore, form, codeBefore_eq condition, codeBefore_eq yes,
      codeBefore_eq no]
  | .call _ parts, _ | .list parts, _ => by
    simp [codeBefore, spelling, formBefore, form, foldr_codesBefore parts]
  | .method base _ parts, _ | .modified _ _ base parts, _ => by
    simp [codeBefore, spelling, formBefore, form, codeBefore_eq base, foldr_codesBefore parts]

theorem foldr_codesBefore : ∀ (es : List Expr) (rest : Text),
    (codesBefore es).foldr (fun part rest => ' ' :: part rest) rest =
      (spellings es).flatMap (' ' :: ·) ++ rest
  | [], _ => rfl
  | e :: more, rest => by
    simp [codesBefore, spellings, codeBefore_eq e, foldr_codesBefore more rest]

end

theorem code_eq_spelling (e : Expr) : e.code = e.spelling := by
  rw [code, codeBefore_eq, List.append_nil]

/-- A plain string. -/
def isString : Expr → Bool
  | .string _ => true
  | _ => false

end Expr

/-- An argument of a tag. -/
inductive Param where
  | named (name : Text) (value : Expr)
  | positional (value : Expr)

namespace Param

def code : Param → Text
  | .named name value => form name [value.code]
  | .positional value => form "arg" [value.code]

/-- The form for a list of arguments. -/
def listCode (params : List Param) : Text := form "params" (params.map code)

end Param

end Stencil
