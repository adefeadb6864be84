import Stencil.Text.Distance

/-!
# Options

Flags that change how templates are compiled and cached, kept as a 32 bit mask. Bits without a flag
are carried along: the whole mask takes part in the identity of what is compiled.
-/

namespace Stencil

inductive Flag where
  /-- Refuse method calls. -/
  | denyMethods
  /-- Call only the functions that are always allowed. -/
  | denyFunctions
  /-- Embed includes whose name is a plain string. -/
  | embedIncludes
  /-- Compare the times of source and artifact before an artifact is used again. -/
  | checkSources
  /-- Keep nothing in memory and compile at every request. -/
  | alwaysCompile
deriving DecidableEq, Repr

namespace Flag

def bit : Flag → UInt32
  | .denyMethods => 0x10
  | .denyFunctions => 0x20
  | .embedIncludes => 0x40
  | .checkSources => 0x80
  | .alwaysCompile => 0x100

/-- What a configuration calls the flag. -/
def name : Flag → Text
  | .denyMethods => "disable_methods"
  | .denyFunctions => "disable_native_funcs"
  | .embedIncludes => "force_include"
  | .checkSources => "compile_check"
  | .alwaysCompile => "force_compile"

def all : List Flag :=
  [.denyMethods, .denyFunctions, .embedIncludes, .checkSources, .alwaysCompile]

end Flag

structure Options where
  bits : UInt32
deriving DecidableEq, Repr

/-- A name that no option has. -/
structure UnknownOption where
  name : Text
  suggestion : Option Text
deriving DecidableEq, Repr

def UnknownOption.message (u : UnknownOption) : Text :=
  let hint : Text := match u.suggestion with
    | some known => " (did you mean '" ++ known ++ "'?)"
    | none => []
  "unknown option: " ++ u.name ++ hint

/-- The flag with a name. -/
def Flag.named (name : Text) : Except UnknownOption Flag :=
  match all.find? (·.name = name) with
  | some flag => .ok flag
  | none => .error { name, suggestion := nearest? 3 name (all.map Flag.name) }

namespace Options

/-- No flag is set. -/
def empty : Options := ⟨0⟩

def has (o : Options) (flag : Flag) : Bool := o.bits &&& flag.bit == flag.bit

def put (o : Options) (flag : Flag) (enabled : Bool) : Options :=
  if enabled then ⟨o.bits ||| flag.bit⟩ else ⟨o.bits &&& ~~~flag.bit⟩

/-- The mask that some names and switches describe. A name that is switched off must exist too. -/
def ofEntries (entries : List (Text × Bool)) : Except UnknownOption Options :=
  entries.foldlM (fun o (name, enabled) => return o.put (← Flag.named name) enabled) empty

/-- The names of the flags that are set. -/
def names (o : Options) : List Text := (Flag.all.filter o.has).map Flag.name

end Options

end Stencil
