import Stencil.Archive
import Stencil.Cache
import Stencil.Source
import Stencil.Template.Compile

/-!
# Engines

An engine turns template names into artifacts. A name is a path, or a scheme and a path with a colon
between them; the scheme picks the source of the template.
-/

namespace Stencil

inductive EngineError where
  | template (failure : Failure)
  | source (error : SourceError)
  | archive (error : ArchiveError)
  | unknownScheme (scheme name : Text) (suggestion : Option Text)
  | unsupported (operation : Text)
deriving DecidableEq, Repr

def EngineError.message : EngineError → Text
  | .template failure => failure.message
  | .source error => error.message
  | .archive error => error.message
  | .unknownScheme scheme name suggestion =>
    let hint : Text := match suggestion with
      | some known => " (did you mean '" ++ known ++ "'?)"
      | none => []
    "no provider for scheme '" ++ scheme ++ "' in " ++ name ++ hint
  | .unsupported operation => operation ++ " is not supported"

structure Engine where
  dialect : Dialect := Dialect.standard
  options : Options := Options.empty
  archive : Archive
  /-- The source of names without a scheme. -/
  source : Source
  schemes : Table Text Source := {}
  cache : Cache := Cache.suited Options.empty
  /-- Changes to a template's text before it is compiled, in order. -/
  before : List (Text → Text) := []
  /-- Changes to the script, in order. -/
  after : List (Text → Text) := []

namespace Engine

/-! ## Settings -/

/-- Other options start with a cache of their own. -/
def setOptions (e : Engine) (options : Options) : Engine :=
  { e with options, cache := Cache.suited options }

/-- What was compiled with another dialect is dropped. -/
def setDialect (e : Engine) (dialect : Dialect) : Engine :=
  { e with dialect, cache := e.cache.clear }

def addScheme (e : Engine) (scheme : Text) (source : Source) : Engine :=
  { e with schemes := e.schemes.put scheme source }

def addBefore (e : Engine) (change : Text → Text) : Engine := { e with before := e.before ++ [change] }

def addAfter (e : Engine) (change : Text → Text) : Engine := { e with after := e.after ++ [change] }

/-! ## Names -/

/-- The scheme of a name and the path behind it. A scheme is made of ASCII letters and digits. -/
def splitScheme? (name : Text) : Option (Text × Text) :=
  match Text.cut? [':'] name with
  | some (scheme, path) =>
    if !scheme.isEmpty && scheme.all Char.isAlphanum then some (scheme, path) else none
  | none => none

/-- The source of a template and the path it has there. -/
def sourceOf (e : Engine) (name : Text) : Except EngineError (Source × Text) :=
  match splitScheme? name with
  | none => .ok (e.source, name)
  | some (scheme, path) =>
    match e.schemes.get? scheme with
    | some source => .ok (source, path)
    | none => .error (.unknownScheme scheme name (nearest? 2 scheme e.schemes.keys))

def recordPath (e : Engine) (name : Text) : Text := e.archive.recordPath name e.options

/-! ## Compiling -/

/-- The script of a template text. -/
def script (e : Engine) (name source : Text) : Except Failure Text := do
  let source := e.before.foldl (fun text change => change text) source
  let code ← Template.compile e.dialect e.options name source
  return e.after.foldl (fun text change => change text) code

/-- A script with the engine's settings. -/
def artifact (e : Engine) (name code : Text) (stamp? : Option Stamp) : Artifact :=
  { name, code, options := e.options, stamp?, dialect? := some e.dialect }

/-- Compiles a text that has no source behind it. -/
def compileText (e : Engine) (name source : Text) : Except EngineError Artifact :=
  match e.script name source with
  | .ok code => .ok (e.artifact name code none)
  | .error failure => .error (.template failure)

end Engine

end Stencil
