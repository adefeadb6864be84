import Stencil.Digest
import Stencil.Disk.Basic
import Stencil.Options

/-!
# Archives

A directory of compiled scripts. Each pair of a template name and an option mask has a record of its
own, a file that holds the script and nothing else. A record is moved into place when it is
complete, so whoever reads it finds all of it or none.
-/

namespace Stencil

inductive ArchiveError where
  /-- The directory takes no new file. -/
  | closed (directory : Text) (cause : DiskError)
  | unwritten (path : Text) (cause : DiskError)
  | unmoved (path : Text) (cause : DiskError)
  | unreadable (path : Text) (cause : DiskError)
  | irremovable (path : Text) (cause : DiskError)
deriving DecidableEq, Repr

def ArchiveError.message : ArchiveError → Text
  | .closed directory cause =>
    "cannot open temporary file in " ++ directory ++ ": " ++ cause.message ++
      ". Is the directory writable?"
  | .unwritten path cause => "cannot write " ++ path ++ ": " ++ cause.message
  | .unmoved path cause =>
    "cannot rename temporary file onto " ++ path ++ ": " ++ cause.message
  | .unreadable path cause => "cannot read " ++ path ++ ": " ++ cause.message
  | .irremovable path cause => "cannot remove " ++ path ++ ": " ++ cause.message

/-- A script as it was found in an archive. -/
structure Record where
  code : Text
  written : Moment
deriving DecidableEq, Repr

structure Archive where
  directory : Text
  extension : Text := "aspect"
deriving DecidableEq, Repr

namespace Archive

/-! ## Where records are -/

/-- Ends a segment of a template name. -/
def isSeparator (c : Char) : Bool := c = '/' || c = '\\' || c = ':'

/-- The last segment of a template name. -/
def lastSegment (name : Text) : Text := (name.reverse.takeWhile (!isSeparator ·)).reverse

/-- What tells a pair of name and options from others. -/
def key (name : Text) (options : Options) : Text := name ++ ':' :: Text.ofNat options.bits.toNat

def fileName (a : Archive) (name : Text) (options : Options) : Text :=
  let bytes := (key name options).encode
  lastSegment name ++ '.' :: Text.ofNat (Digest.ofBytes bytes).toNat ++
    '.' :: Text.ofNat bytes.size ++ '.' :: a.extension

def recordPath (a : Archive) (name : Text) (options : Options) : Text :=
  Path.join a.directory (a.fileName name options)

/-! ## Access -/

/-- Work on the disk that fails as archives do. -/
abbrev Access := EStateM ArchiveError Disk

/-- Work on the disk with its cause of failure put into context. -/
def attempt (context : DiskError → ArchiveError) (change : Disk.Change α) : Access α := fun d =>
  match change d with
  | .ok a d => .ok a d
  | .error cause d => .error (context cause) d

/-- The record at a path, if there is one. -/
def read? (path : Text) : Access (Option Record) := fun d =>
  match d.readText path, d.read path with
  | .ok code, .ok file => .ok (some { code, written := file.modified }) d
  | .error .missing, _ => .ok none d
  | .error cause, _ | _, .error cause => .error (.unreadable path cause) d

/-- Gives a new file the script and moves it into place. -/
def complete (temporary : Place) (temporaryPath path code : Text) : Access Moment := do
  attempt (.unwritten temporaryPath) (Disk.fill temporary code.encode)
  attempt (.unmoved path) (Disk.move temporary path)

/--
Writes a record and answers its time. A file that cannot be written or moved into place is removed.
-/
def write (a : Archive) (path code : Text) : Access Moment := do
  let home ← attempt (.closed a.directory) (Disk.enter a.directory)
  let name ← attempt (.closed a.directory) (Disk.makeTemporary home)
  let temporary := home ++ [name]
  tryCatch (complete temporary (Path.join a.directory name) path code) fun cause => do
    modify (Disk.eraseFile · temporary)
    throw cause

/-- Removes a record and answers whether there was one. -/
def remove (path : Text) : Access Bool := fun d =>
  match Disk.remove path d with
  | .ok _ d => .ok true d
  | .error .missing d => .ok false d
  | .error cause d => .error (.irremovable path cause) d

end Archive

end Stencil
