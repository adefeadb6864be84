import Stencil.Tag.Standard

/-!
# Dialects

The tags, modifiers and functions that a template may use. A host starts from the standard dialect
or from none and adds its own; a name that is added again replaces what it stood for.
-/

namespace Stencil

structure Dialect where
  tags : List Tag := []
  library : Library := {}

namespace Dialect

def empty : Dialect := {}

def standard : Dialect := { tags := Tag.standard, library := Library.standard }

def register (d : Dialect) (tag : Tag) : Dialect :=
  { d with tags := tag :: d.tags.filter (·.name ≠ tag.name) }

def find? (d : Dialect) (name : Text) : Option Tag := d.tags.find? (·.name = name)

def block? (d : Dialect) (action : Text) : Option Block := (d.find? action).bind Tag.block?

/-- What an open block does with the child tag. -/
def child? (d : Dialect) (frame : Frame) (child : Text) : Option BlockHandler :=
  (d.block? frame.action).bind (·.child? child)

/-- The child tag may stand in blocks inside the open block. -/
def floats (d : Dialect) (frame : Frame) (child : Text) : Bool :=
  (d.block? frame.action).any (·.floats child)

/-- Texts in the order of their code points. -/
def sortTexts (texts : List Text) : List Text := texts.mergeSort Text.precedes

def names (d : Dialect) : List Text := sortTexts (d.tags.map Tag.name)

/-- The tags that have `child` as a child tag. -/
def owners (d : Dialect) (child : Text) : List Text :=
  sortTexts ((d.tags.filter (·.owns child)).map Tag.name)

/-- The known tag or child tag that `name` may be meant for. -/
def suggest? (d : Dialect) (name : Text) : Option Text :=
  nearest? 2 name (d.tags.map Tag.name ++ d.tags.flatMap Tag.children)

def scope (d : Dialect) (options : Options) : Scope := { library := d.library, options }

end Dialect

end Stencil
