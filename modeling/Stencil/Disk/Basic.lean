import Stencil.Disk.Path
import Stencil.Moment
import Stencil.Table
import Stencil.Text.Utf8

/-!
# Disks

A tree of directories and files, without links. Paths are followed piece by piece from the top;
operations fail with the cause that the system would give.
-/

namespace Stencil

inductive DiskError where
  | missing
  | alreadyThere
  | busy
  | notDirectory
  | isDirectory
  | invalid
  | full
  | nameTooLong
  | notEmpty
  /-- The path holds a character that no path can hold. -/
  | nulInPath
  /-- The file was to be read as text and is none. -/
  | notText
deriving DecidableEq, Repr

def DiskError.message : DiskError → Text
  | .missing => "No such file or directory (os error 2)"
  | .alreadyThere => "File exists (os error 17)"
  | .busy => "Device or resource busy (os error 16)"
  | .notDirectory => "Not a directory (os error 20)"
  | .isDirectory => "Is a directory (os error 21)"
  | .invalid => "Invalid argument (os error 22)"
  | .full => "No space left on device (os error 28)"
  | .nameTooLong => "File name too long (os error 36)"
  | .notEmpty => "Directory not empty (os error 39)"
  | .nulInPath => "file name contained an unexpected NUL byte"
  | .notText => "stream did not contain valid UTF-8"

structure File where
  content : ByteArray
  modified : Moment

/-- The names that lead from the top of the disk to a file or directory. -/
abbrev Place := List Text

structure Disk where
  files : Table Place File := {}
  directories : List Place := []
  /-- The time of the next write. -/
  clock : Moment
  /-- The most bytes that a file can be given, if the disk is running full. -/
  room? : Option Nat := none

namespace Disk

def file? (d : Disk) (place : Place) : Option File := d.files.get? place

def isDirectory (d : Disk) (place : Place) : Bool := place.isEmpty || d.directories.contains place

/-- A file or directory is at the place. -/
def isThere (d : Disk) (place : Place) : Bool := d.isDirectory place || (d.file? place).isSome

/-! ## Following paths -/

/-- The most bytes that a name can have. -/
def nameLimit : Nat := 255

/-- The most bytes that a path can have. -/
def pathLimit : Nat := 4095

/-- The place that a name leads to from a directory, whether or not anything is there. -/
def child (place : Place) (name : Text) : Except DiskError Place :=
  if name.encode.size > nameLimit then .error .nameTooLong else .ok (place ++ [name])

/-- Follows one piece of a path. -/
def follow (d : Disk) (place : Place) (piece : Text) : Except DiskError Place :=
  if !d.isDirectory place then .error .notDirectory
  else if Path.isIdle piece then .ok place
  else if piece = ['.', '.'] then .ok place.dropLast
  else do
    let next ← child place piece
    if d.isThere next then return next else throw .missing

/-- What is wrong with a path before it is followed. -/
def checkPath (path : Text) : Except DiskError Unit :=
  if path.contains '\x00' then .error .nulInPath
  else if path.isEmpty then .error .missing
  else if path.encode.size > pathLimit then .error .nameTooLong
  else .ok ()

/-- Where the file or directory with a path is. -/
def locate (d : Disk) (path : Text) : Except DiskError Place := do
  checkPath path
  (Path.pieces path).foldlM d.follow []

/-- The last step of a path, which may lead to nothing. -/
structure Target where
  directory : Place
  name : Text
  /-- A slash stands behind the name. -/
  slashed : Bool

/-- The name is one of its own, and not a way to name a directory. -/
def Target.isPlain (t : Target) : Bool := !Path.isIdle t.name && t.name ≠ ['.', '.']

/-- Follows a path up to its last step. -/
def target (d : Disk) (path : Text) : Except DiskError Target := do
  checkPath path
  let pieces := Path.pieces path
  let trimmed := (pieces.reverse.dropWhile List.isEmpty).reverse
  let directory ← trimmed.dropLast.foldlM d.follow []
  if !d.isDirectory directory then throw .notDirectory
  return { directory, name := trimmed.getLast?.getD [], slashed := trimmed.length < pieces.length }

/-! ## Reading -/

def read (d : Disk) (path : Text) : Except DiskError File := do
  match d.file? (← d.locate path) with
  | some file => return file
  | none => throw .isDirectory

def readText (d : Disk) (path : Text) : Except DiskError Text := do
  let file ← d.read path
  match Text.decode? file.content with
  | some text => return text
  | none => throw .notText

def isFile (d : Disk) (path : Text) : Bool :=
  match d.read path with
  | .ok _ => true
  | .error _ => false

def hasDirectory (d : Disk) (path : Text) : Bool :=
  match d.locate path with
  | .ok place => d.isDirectory place
  | .error _ => false

/-! ## Changes -/

def putFile (d : Disk) (place : Place) (file : File) : Disk := { d with files := d.files.put place file }

def eraseFile (d : Disk) (place : Place) : Disk := { d with files := d.files.erase place }

/-- A change of the disk. What was done before a failure stays done. -/
abbrev Change := EStateM DiskError Disk

/-- Something that fails or changes nothing. -/
def ofExcept : Except DiskError α → Change α
  | .ok a => pure a
  | .error e => throw e

/-- Makes one directory. -/
def makeDirectory (path : Text) : Change Unit := do
  let d ← get
  let t ← ofExcept (d.target path)
  if !t.isPlain then throw .alreadyThere
  let place ← ofExcept (child t.directory t.name)
  if d.isThere place then throw .alreadyThere
  set { d with directories := place :: d.directories }

/-- Makes one directory if it is not there yet. -/
def ensureDirectory (path : Text) : Change Unit :=
  tryCatch (makeDirectory path) fun cause => do
    if !(← get).hasDirectory path then throw cause

/--
Makes a directory and those it lies in, as far as they are missing. A dot makes nothing: a path that
ends with one leads to a directory only if the directory before the dot is there.
-/
def makeDirectories (path : Text) : Change Unit := do
  if path.isEmpty then return
  tryCatch (ensureDirectory path) fun
    | .missing =>
      match _hp : Path.parent? path with
      | some outer => do
        makeDirectories outer
        ensureDirectory path
      | none => throw .missing
    | cause => throw cause
termination_by path.length
decreasing_by exact Path.length_parent?_lt _hp

/-- Makes a directory as far as it is missing and answers its place. An empty path means the top. -/
def enter (path : Text) : Change Place := do
  makeDirectories path
  if path.isEmpty then return []
  ofExcept ((← get).locate path)

/-- Gives a file its content at the present time, or as much of it as there is room for. -/
def fill (place : Place) (content : ByteArray) : Change Unit := do
  let d ← get
  let room := d.room?.getD content.size
  set (d.putFile place { content := content.extract 0 room, modified := d.clock })
  if room < content.size then throw .full

/-- Writes a file and moves the clock on. -/
def write (path : Text) (content : ByteArray) : Change Unit := do
  let d ← get
  let t ← ofExcept (d.target path)
  if !t.isPlain then throw .isDirectory
  let place ← ofExcept (child t.directory t.name)
  if d.isDirectory place || t.slashed then throw .isDirectory
  fill place content
  modify fun d => { d with clock := d.clock + 1 }

/-- The names of files that are about to be moved elsewhere. -/
def temporaryName (n : Nat) : Text := ".aspect-" ++ Text.ofNat n

/-- The first such name that nothing in a directory has yet. One name more is tried than there are
files and directories. -/
def spare? (d : Disk) (home : Place) : Option Text :=
  let names := (List.range (d.files.size + d.directories.length + 1)).map temporaryName
  names.find? fun name => !d.isThere (home ++ [name])

/-- Makes an empty file under a new name in the directory at `home` and answers the name. -/
def makeTemporary (home : Place) : Change Text := do
  let d ← get
  match d.spare? home with
  | some name =>
    set (d.putFile (home ++ [name]) { content := .empty, modified := d.clock })
    return name
  | none => throw .alreadyThere

/--
Moves a file onto a path, in place of the one that is there, and answers the file's time. A directory
around the file is never empty.
-/
def move (source : Place) (path : Text) : Change Moment := do
  let d ← get
  if path.contains '\x00' then throw .invalid
  let t ← ofExcept (d.target path)
  if !t.isPlain then throw .busy
  let place ← ofExcept (child t.directory t.name)
  if t.slashed then throw .notDirectory
  if place.isPrefixOf source.dropLast then throw .notEmpty
  if d.isDirectory place then throw .isDirectory
  match d.file? source with
  | some file =>
    set { (d.eraseFile source).putFile place file with clock := d.clock + 1 }
    return file.modified
  | none => throw .missing

/-- Removes a file. -/
def remove (path : Text) : Change Unit := do
  let d ← get
  let t ← ofExcept (d.target path)
  if !t.isPlain then throw .isDirectory
  let place ← ofExcept (child t.directory t.name)
  if d.isDirectory place then throw .isDirectory
  if (d.file? place).isNone then throw .missing
  if t.slashed then throw .notDirectory
  set (d.eraseFile place)

/-- Gives a file another time. -/
def touch (path : Text) (modified : Moment) : Change Unit := do
  let d ← get
  let place ← ofExcept (d.locate path)
  match d.file? place with
  | some file => set (d.putFile place { file with modified })
  | none => return

end Disk

end Stencil
