import Stencil.Proofs.Blocks

/-!
# Nested scripts

The grammar of scripts, over the words that their lines start with. A block runs from its word to its
closing word, in sections that further words part it into.

A script that is still being written is a chain of open blocks. `Moves` says what the next word may
be, and keeps such a chain what it is.
-/

namespace Stencil

namespace BlockKind

/-! ## Words -/

/-- The word that opens the block in a script. -/
def word : BlockKind → Text
  | .capture => "begin"
  | kind => kind.name

/-- The word that closes it. -/
def closing : BlockKind → Text
  | .capture => "finish"
  | _ => "end"

/-- The word that starts another section, any number of times. -/
def arm? : BlockKind → Option Text
  | .branch => some "elseif"
  | .switch => some "case"
  | _ => none

/-- The word that starts the last section. -/
def last? : BlockKind → Option Text
  | .branch => some "else"
  | .foreach => some "foreachelse"
  | .forRange => some "forelse"
  | .switch => some "default"
  | _ => none

end BlockKind

namespace Script

/-- The words of statements that have no part in the nesting. -/
def plainWords : List Text := ["text", "echo", "set", "extends", "include", "embed"]

/-! ## The grammar -/

mutual

/-- The lines of a body; `around` are the blocks it lies in, innermost first. -/
inductive Body : List BlockKind → List Text → Prop
  | nil {around : List BlockKind} : Body around []
  | plain {around : List BlockKind} {body : List Text} {word : Text} (hbody : Body around body)
      (hword : word ∈ plainWords) : Body around (body ++ [word])
  | leave {around : List BlockKind} {body : List Text} (hbody : Body around body)
      (haround : around.any BlockKind.isBreakable = true) : Body around (body ++ ["break".toList])
  | next {around : List BlockKind} {body : List Text} (hbody : Body around body)
      (haround : around.any BlockKind.isLoop = true) : Body around (body ++ ["continue".toList])
  | block {kind : BlockKind} {around : List BlockKind} {ended : Bool} {body inside : List Text}
      (hbody : Body around body) (hinside : Sections kind around ended inside) :
      Body around (body ++ (kind.word :: inside ++ [kind.closing]))

/-- What stands inside a block; `ended` says that no section can follow. -/
inductive Sections : BlockKind → List BlockKind → Bool → List Text → Prop
  | first {kind : BlockKind} {around : List BlockKind} {body : List Text}
      (hbody : Body (kind :: around) body) : Sections kind around false body
  | arm {kind : BlockKind} {around : List BlockKind} {before body : List Text} {word : Text}
      (hbefore : Sections kind around false before) (hword : kind.arm? = some word)
      (hbody : Body (kind :: around) body) : Sections kind around false (before ++ word :: body)
  | last {kind : BlockKind} {around : List BlockKind} {before body : List Text} {word : Text}
      (hbefore : Sections kind around false before) (hword : kind.last? = some word)
      (hbody : Body (kind :: around) body) : Sections kind around true (before ++ word :: body)

end

/-- A body that lies in no block. -/
def WellNested (words : List Text) : Prop := Body [] words

/-! ## Scripts with open blocks -/

/-- The open blocks, innermost first; each with whether its last section has started. -/
abbrev Stack := List (BlockKind × Bool)

def Stack.kinds (stack : Stack) : List BlockKind := stack.map Prod.fst

/-- A script up to a line inside the blocks of the stack. -/
inductive Unfinished : Stack → List Text → Prop
  | top {words : List Text} (hbody : Body [] words) : Unfinished [] words
  | inside {stack : Stack} {kind : BlockKind} {ended : Bool} {words sections : List Text}
      (houter : Unfinished stack words) (hinside : Sections kind stack.kinds ended sections) :
      Unfinished ((kind, ended) :: stack) (words ++ kind.word :: sections)

/-- The word may come next, and what is open after it. -/
inductive Moves : Stack → Text → Stack → Prop
  | plain {stack : Stack} {word : Text} (hword : word ∈ plainWords) : Moves stack word stack
  | leave {stack : Stack} (haround : stack.kinds.any BlockKind.isBreakable = true) :
      Moves stack "break".toList stack
  | next {stack : Stack} (haround : stack.kinds.any BlockKind.isLoop = true) :
      Moves stack "continue".toList stack
  | opens {stack : Stack} (kind : BlockKind) : Moves stack kind.word ((kind, false) :: stack)
  | arm {stack : Stack} {kind : BlockKind} {word : Text} (hword : kind.arm? = some word) :
      Moves ((kind, false) :: stack) word ((kind, false) :: stack)
  | last {stack : Stack} {kind : BlockKind} {word : Text} (hword : kind.last? = some word) :
      Moves ((kind, false) :: stack) word ((kind, true) :: stack)
  | closes {stack : Stack} {kind : BlockKind} {ended : Bool} :
      Moves ((kind, ended) :: stack) kind.closing stack

variable {kind : BlockKind} {around : List BlockKind} {ended : Bool} {stack stack' : Stack}
  {words more : List Text} {word : Text}

theorem Sections.append (h : Sections kind around ended words)
    (hmore : ∀ body, Body (kind :: around) body → Body (kind :: around) (body ++ more)) :
    Sections kind around ended (words ++ more) := by
  cases h with
  | first hbody => exact .first (hmore _ hbody)
  | arm hbefore hword hbody =>
    rw [List.append_assoc, List.cons_append]
    exact .arm hbefore hword (hmore _ hbody)
  | last hbefore hword hbody =>
    rw [List.append_assoc, List.cons_append]
    exact .last hbefore hword (hmore _ hbody)

theorem Unfinished.append (h : Unfinished stack words)
    (hmore : ∀ body, Body stack.kinds body → Body stack.kinds (body ++ more)) :
    Unfinished stack (words ++ more) := by
  cases h with
  | top hbody => exact .top (hmore _ hbody)
  | inside houter hinside =>
    rw [List.append_assoc, List.cons_append]
    exact .inside houter (hinside.append hmore)

theorem Unfinished.opens (h : Unfinished stack words) (kind : BlockKind) :
    Unfinished ((kind, false) :: stack) (words ++ [kind.word]) :=
  .inside h (.first .nil)

theorem Unfinished.closes (h : Unfinished ((kind, ended) :: stack) words) :
    Unfinished stack (words ++ [kind.closing]) := by
  cases h with
  | inside houter hinside =>
    rw [List.append_assoc]
    exact houter.append fun body hbody => .block hbody hinside

theorem Unfinished.moves (h : Unfinished stack words) (hmoves : Moves stack word stack') :
    Unfinished stack' (words ++ [word]) := by
  cases hmoves with
  | plain hword => exact h.append fun body hbody => .plain hbody hword
  | leave haround => exact h.append fun body hbody => .leave hbody haround
  | next haround => exact h.append fun body hbody => .next hbody haround
  | opens kind => exact h.opens kind
  | closes => exact h.closes
  | arm hword =>
    cases h with
    | inside houter hinside =>
      rw [List.append_assoc]
      exact .inside houter (.arm hinside hword .nil)
  | last hword =>
    cases h with
    | inside houter hinside =>
      rw [List.append_assoc]
      exact .inside houter (.last hinside hword .nil)

end Script

end Stencil
