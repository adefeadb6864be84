import Stencil.Engine.Basic

/-!
# Resolving names

The artifact of a name comes from the cache, else from its record in the archive, else it is compiled.
With `checkSources` an artifact is used again only if its stamp still fits the source.
-/

namespace Stencil

/-- An engine at work on its host. -/
structure Session where
  engine : Engine
  host : Host

/-- Work of an engine. What was done before a failure stays done. -/
abbrev Work := EStateM EngineError Session

namespace Session

/-! ## Parts of the work -/

def ofExcept : Except EngineError α → Work α
  | .ok a => pure a
  | .error e => throw e

/-- Work in the archive. -/
def onDisk (access : Archive.Access α) : Work α := fun s =>
  match access s.host.disk with
  | .ok a disk => .ok a { s with host := { s.host with disk } }
  | .error e disk => .error (.archive e) { s with host := { s.host with disk } }

/-- The time of the source of a template. -/
def sourceTime (name : Text) : Work Moment := do
  let s ← get
  let (source, path) ← ofExcept (s.engine.sourceOf name)
  match source.modified s.host path with
  | .ok modified => return modified
  | .error e => throw (.source e)

/-- The text of a template. -/
def sourceText (name : Text) : Work Text := do
  let s ← get
  let (source, path) ← ofExcept (s.engine.sourceOf name)
  match source.load s.host path with
  | .ok (text, host) =>
    set { s with host }
    return text
  | .error e => throw (.source e)

def isFresh (a : Artifact) : Work Bool := do
  match a.stamp? with
  | none => return true
  | some stamp => return stamp.isFresh (← sourceTime a.name)

/-- The artifact is up to date as far as the options ask for it. -/
def isUsable (a : Artifact) : Work Bool := do
  if (← get).engine.options.has .checkSources then isFresh a else return true

/-- Gives an artifact a number of its own. -/
def share (artifact : Artifact) : Work Shared := fun s =>
  .ok { number := s.host.shared, artifact }
    { s with host := { s.host with shared := s.host.shared + 1 } }

/-- Puts an artifact into the cache. -/
def keep (shared : Shared) : Work Shared := fun s =>
  .ok shared { s with engine := { s.engine with cache := s.engine.cache.insert shared } }

/-! ## The work -/

/-- Compiles a template from its source, and writes its record if `persist` is set. -/
def compile (name : Text) (persist : Bool) : Work Artifact := do
  let modified ← sourceTime name
  let text ← sourceText name
  let e := (← get).engine
  let artifact ← ofExcept (e.compileText name text)
  if persist then
    let _ ← onDisk (e.archive.write (e.recordPath name) artifact.code)
  return { artifact with stamp? := some (.source modified) }

/-- The artifact of a template's record, if there is one that can be used. -/
def fromRecord? (name : Text) : Work (Option Artifact) := do
  let e := (← get).engine
  match ← onDisk (Archive.read? (e.recordPath name)) with
  | none => return none
  | some record =>
    let artifact := e.artifact name record.code (some (.record record.written))
    return if ← isUsable artifact then some artifact else none

/-- The artifact of a template's record, or a new one. -/
def load (name : Text) : Work Artifact := do
  match ← fromRecord? name with
  | some artifact => return artifact
  | none => compile name true

/-- The artifact of a template. -/
def resolve (name : Text) : Work Shared := do
  let e := (← get).engine
  match e.cache.get? name with
  | some shared =>
    if ← isUsable shared.artifact then return shared
    else keep (← share (← compile name true))
  | none =>
    if e.options.has .alwaysCompile then share (← compile name true)
    else keep (← share (← load name))

/-- Puts an artifact made elsewhere into the cache. -/
def add (artifact : Artifact) : Work Shared := do
  keep (← share (artifact.bind (← get).engine.dialect))

/-- Drops a template from the cache and removes its record; answers whether there was a record. -/
def evict (name : Text) : Work Bool := do
  modify fun s => { s with engine := { s.engine with cache := s.engine.cache.remove name } }
  onDisk (Archive.remove ((← get).engine.recordPath name))

/-- Removing all records at once is not offered. -/
def evictAll : Work Unit := throw (.unsupported "evict_all")

end Session

end Stencil
