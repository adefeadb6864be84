import Stencil.Host

/-!
# Sources

Where the text of templates comes from: a table in memory that its owner edits, or directories on
disk that are searched in order.
-/

namespace Stencil

inductive SourceError where
  | notFound (name : Text)
  | unreadable (path : Text) (cause : DiskError)
deriving DecidableEq, Repr

def SourceError.message : SourceError → Text
  | .notFound name => "template " ++ name ++ " not found"
  | .unreadable path cause => "I/O error reading " ++ path ++ ": " ++ cause.message

inductive Source where
  | memory (name : Text)
  | directories (paths : List Text)
deriving DecidableEq, Repr

namespace Source

/-- The file for a path in the first directory that has one. -/
def locate? (directories : List Text) (d : Disk) (path : Text) : Option Text :=
  if Path.isContained path then (directories.map (Path.join · path)).find? d.isFile else none

/-- The time of the last change of a text. -/
def modified (s : Source) (h : Host) (path : Text) : Except SourceError Moment :=
  match s with
  | .memory name =>
    match (h.memory name).texts.get? path with
    | some draft => .ok draft.modified
    | none => .error (.notFound path)
  | .directories paths =>
    match locate? paths h.disk path with
    | none => .error (.notFound path)
    | some file =>
      match h.disk.read file with
      | .ok found => .ok found.modified
      | .error cause => .error (.unreadable file cause)

/-- A text, with the host as it is after handing it out. -/
def load (s : Source) (h : Host) (path : Text) : Except SourceError (Text × Host) :=
  match s with
  | .memory name =>
    let m := h.memory name
    match m.texts.get? path with
    | some draft => .ok (draft.text, h.putMemory name { m with loads := m.loads + 1 })
    | none => .error (.notFound path)
  | .directories paths =>
    match locate? paths h.disk path with
    | none => .error (.notFound path)
    | some file =>
      match h.disk.readText file with
      | .ok text => .ok (text, h)
      | .error cause => .error (.unreadable file cause)

end Source

end Stencil
