import Stencil.Fault
import Stencil.Options

/-!
# Functions and modifiers

Which functions and modifiers templates may use. Some functions are always allowed, others only as
long as the options do not deny them.
-/

namespace Stencil

structure Library where
  /-- Each modifier with the symbol it runs; of two entries for a name the first counts. -/
  modifiers : List (Text × Text) := []
  /-- Functions that may be called under all options. -/
  allowed : List Text := []
  /-- Functions of the host, which the options may deny. -/
  host : List Text := []

namespace Library

def addModifier (l : Library) (name symbol : Text) : Library :=
  { l with modifiers := (name, symbol) :: l.modifiers }

def allow (l : Library) (names : List Text) : Library := { l with allowed := names ++ l.allowed }

def addHost (l : Library) (names : List Text) : Library := { l with host := names ++ l.host }

/-- A template may call the function `name`. -/
def permits (l : Library) (options : Options) (name : Text) : Bool :=
  name ∈ l.allowed || (!options.has .denyFunctions && name ∈ l.host)

/--
The symbol that the modifier `name` runs. A function serves as a modifier of its own name, if it may
be called.
-/
def modifier (l : Library) (options : Options) (name : Text) : Except Fault Text :=
  match l.modifiers.lookup name with
  | some symbol => .ok symbol
  | none =>
    if name ∈ l.allowed || name ∈ l.host then
      if l.permits options name then .ok name else .error (.disallowedCall name)
    else .error (.unknownModifier name)

/-- The library that templates can count on. -/
def standard : Library where
  modifiers := [
    ("upper", "strtoupper"), ("lower", "strtolower"), ("date_format", "Modifier::date_format"),
    ("date", "Modifier::date"), ("truncate", "Modifier::truncate"), ("escape", "Modifier::escape"),
    ("e", "Modifier::escape"), ("url", "urlencode"), ("unescape", "Modifier::unescape"),
    ("strip", "Modifier::strip"), ("default", "Modifier::default_value")]
  allowed := [
    "empty", "isset", "count", "is_string", "is_array", "is_numeric", "is_int", "is_object",
    "strtotime", "gettype", "is_double", "json_encode", "json_decode", "ip2long", "long2ip",
    "strip_tags", "nl2br"]
  host := [
    "strtoupper", "strtolower", "ucfirst", "urlencode", "trim", "implode", "explode", "in_array",
    "array_keys", "max", "min", "round", "date", "sprintf", "htmlspecialchars"]

end Library

/-- What an expression may refer to. -/
structure Scope where
  library : Library
  options : Options

end Stencil
