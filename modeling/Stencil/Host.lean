import Stencil.Disk.Basic

/-!
# The host

What engines have in common: the disk, the template texts in memory, and how many artifacts are in
use.
-/

namespace Stencil

/-- A text with the time of its last change. -/
structure Draft where
  text : Text
  modified : Moment
deriving DecidableEq, Repr

/-- Texts in memory. -/
structure Memory where
  texts : Table Text Draft := {}
  /-- How many texts have been handed out. -/
  loads : Nat := 0
deriving Repr, Inhabited

structure Host where
  disk : Disk
  memories : Table Text Memory := {}
  /-- How many artifacts have been shared. -/
  shared : Nat := 0

namespace Host

/-- The memory with a name, which is empty before its first use. -/
def memory (h : Host) (name : Text) : Memory := (h.memories.get? name).getD {}

def putMemory (h : Host) (name : Text) (m : Memory) : Host :=
  { h with memories := h.memories.put name m }

def edit (h : Host) (memory name : Text) (draft : Draft) : Host :=
  let m := h.memory memory
  h.putMemory memory { m with texts := m.texts.put name draft }

def withdraw (h : Host) (memory name : Text) : Host :=
  let m := h.memory memory
  h.putMemory memory { m with texts := m.texts.erase name }

end Host

end Stencil
