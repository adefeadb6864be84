import Stencil.Expr.Grammar
import Stencil.Statement

/-!
# Tags

A tag is inline, a block with an opening and a closing tag, or a call of a function in one of these
two forms. Handlers read the rest of the tag and give a statement. The handlers of a block are given
the open block and leave it as they like; the standard ones only note something about it.
-/

namespace Stencil

abbrev InlineHandler := Scope → Reading Statement

/-- How an open block was opened. -/
structure Opening where
  name : Text
  line : Nat
deriving DecidableEq, Repr

/-- What the handlers of a block remember; of two notes for a key the first counts. -/
abbrev Notes := List (Text × Text)

namespace Notes

def has (notes : Notes) (key : Text) : Bool := (notes.lookup key).isSome

def put (notes : Notes) (key value : Text) : Notes := (key, value) :: notes

end Notes

/-- An open block. -/
structure Frame where
  opening : Opening
  /-- The tag whose handlers and child tags the block has. -/
  action : Text
  notes : Notes := []
deriving DecidableEq, Repr

namespace Frame

/-- A block that has just been opened. -/
def opened (name : Text) (line : Nat) : Frame := { opening := { name, line }, action := name }

def has (frame : Frame) (key : Text) : Bool := frame.notes.has key

def put (frame : Frame) (key value : Text) : Frame :=
  { frame with notes := frame.notes.put key value }

end Frame

abbrev BlockHandler := Scope → Frame → Reading (Statement × Frame)

/-- A block handler that leaves the block as it is. -/
def BlockHandler.plain (handler : InlineHandler) : BlockHandler :=
  fun scope frame => return (← handler scope, frame)

/-- A handler that reads nothing. -/
def InlineHandler.constant (statement : Statement) : InlineHandler := fun _ => return statement

/-- The handlers of a block. -/
structure Block where
  opener : BlockHandler
  closer : BlockHandler
  /-- The child tags that belong to the block. -/
  children : List (Text × BlockHandler) := []
  /-- The child tags that may stand in blocks inside this one. -/
  floating : List Text := []

namespace Block

/-- Adds a child tag that stands directly in the block. -/
def declare (b : Block) (name : Text) (handler : BlockHandler) : Block :=
  { b with children := (name, handler) :: b.children.filter (·.1 ≠ name) }

/-- Adds a child tag that may stand at any depth in the block. -/
def declareFloating (b : Block) (name : Text) (handler : BlockHandler) : Block :=
  { b with floating := name :: b.floating }.declare name handler

def child? (b : Block) (name : Text) : Option BlockHandler := b.children.lookup name

def floats (b : Block) (name : Text) : Bool := name ∈ b.floating

end Block

inductive Behaviour where
  | inline (handler : InlineHandler)
  /-- Calls a function of the host; `positional` allows arguments without a name. -/
  | function (symbol : Text) (positional : Bool)
  | block (block : Block)
  /-- Hands the output of the block to a function of the host. -/
  | blockFunction (symbol : Text) (opener closer : BlockHandler)

structure Tag where
  name : Text
  behaviour : Behaviour

namespace Tag

def kind (t : Tag) : TagKind :=
  match t.behaviour with
  | .inline _ => .inline
  | .function .. => .function
  | .block _ => .block
  | .blockFunction .. => .blockFunction

/-- The function that the tag calls. -/
def symbol? (t : Tag) : Option Text :=
  match t.behaviour with
  | .function symbol _ | .blockFunction symbol _ _ => some symbol
  | .inline _ | .block _ => none

/-- The handlers of a tag that opens a block. -/
def block? (t : Tag) : Option Block :=
  match t.behaviour with
  | .block block => some block
  | .blockFunction _ opener closer => some { opener, closer }
  | .inline _ | .function .. => none

def children (t : Tag) : List Text :=
  match t.behaviour with
  | .block b => b.children.map Prod.fst
  | _ => []

def owns (t : Tag) (child : Text) : Bool := child ∈ t.children

def floats (t : Tag) (child : Text) : Bool :=
  match t.behaviour with
  | .block b => b.floats child
  | _ => false

end Tag

end Stencil
