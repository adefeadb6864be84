import Stencil.Config.Toml
import Stencil.Disk.Basic
import Stencil.Options

/-!
# Configurations

The settings of an engine as a file gives them. Directories that are not absolute are seen from the
directory of that file.
-/

namespace Stencil

inductive ConfigError where
  | unreadable (path : Text) (cause : DiskError)
  /-- The text is no TOML, or has keys or values that a configuration does not have. -/
  | malformed
  | unknownOption (unknown : UnknownOption)
deriving DecidableEq, Repr

def ConfigError.message? : ConfigError → Option Text
  | .unreadable path cause => some ("I/O error reading " ++ path ++ ": " ++ cause.message)
  | .malformed => none
  | .unknownOption unknown => some unknown.message

structure Config where
  templateDirs : List Text
  compileDir : Text
  extension? : Option Text
  /-- Switches by the names of the options, in the order of the names. -/
  options : List (Text × Bool)
deriving DecidableEq, Repr

namespace Config

/-! ## From entries -/

/-- How the table of options came to be, which decides what may still be added to it. -/
inductive OptionTable where
  | absent
  /-- Given by single dotted keys. -/
  | dotted (entries : List (Text × Bool))
  /-- Given as one value. -/
  | whole (entries : List (Text × Bool))
  /-- Given by the lines after its header. -/
  | headed (entries : List (Text × Bool))
deriving DecidableEq, Repr

def OptionTable.entries : OptionTable → List (Text × Bool)
  | .absent => []
  | .dotted entries | .whole entries | .headed entries => entries

/-- What the entries read so far give. -/
structure Fields where
  templateDirs? : Option (List Text) := none
  compileDir? : Option Text := none
  extension? : Option Text := none
  options : OptionTable := .absent
deriving DecidableEq, Repr

/-- Puts a switch behind others, unless one has its name already. -/
def addSwitch? (entries : List (Text × Bool)) (name : Text) (enabled : Bool) :
    Option (List (Text × Bool)) :=
  if (entries.map (·.1)).contains name then none else some (entries ++ [(name, enabled)])

/-- Switches of which no two have one name. -/
def distinct? (entries : List (Text × Bool)) : Option (List (Text × Bool)) :=
  entries.foldlM (fun found (name, enabled) => addSwitch? found name enabled) []

/-- One entry before any header. -/
def addField? (f : Fields) : Toml.Entry → Option Fields
  | .header name =>
    if name = "options" && f.options = .absent then some { f with options := .headed [] } else none
  | .dotted table key (.boolean enabled) =>
    if table ≠ "options" then none
    else match f.options with
      | .absent => some { f with options := .dotted [(key, enabled)] }
      | .dotted entries => do return { f with options := .dotted (← addSwitch? entries key enabled) }
      | _ => none
  | .assignment key (.strings texts) =>
    if key = "template_dirs" && f.templateDirs?.isNone then some { f with templateDirs? := some texts }
    else none
  | .assignment key (.string text) =>
    if key = "compile_dir" && f.compileDir?.isNone then some { f with compileDir? := some text }
    else if key = "extension" && f.extension?.isNone then some { f with extension? := some text }
    else none
  | .assignment key (.switches entries) =>
    if key = "options" && f.options = .absent then do
      return { f with options := .whole (← distinct? entries) }
    else none
  | _ => none

/-- One entry. After the header of the options all are switches. -/
def addEntry? (f : Fields) (entry : Toml.Entry) : Option Fields :=
  match f.options, entry with
  | .headed entries, .assignment key (.boolean enabled) => do
    return { f with options := .headed (← addSwitch? entries key enabled) }
  | .headed _, _ => none
  | _, entry => addField? f entry

def ofEntries? (entries : List Toml.Entry) : Option Config := do
  let f ← entries.foldlM addEntry? {}
  return {
    templateDirs := f.templateDirs?.getD []
    compileDir := ← f.compileDir?
    extension? := f.extension?
    options := f.options.entries.mergeSort fun a b => Text.precedes a.1 b.1 }

/-! ## Reading -/

/-- The option mask that the switches describe. -/
def mask (c : Config) : Except UnknownOption Options := Options.ofEntries c.options

/-- Reads a configuration and checks the names of its options. -/
def read (text : Text) : Except ConfigError Config :=
  match (Toml.document? text).bind ofEntries? with
  | none => .error .malformed
  | some config =>
    match config.mask with
    | .ok _ => .ok config
    | .error unknown => .error (.unknownOption unknown)

/-- The configuration with its directories seen from `base`. -/
def seenFrom (c : Config) (base : Text) : Config :=
  { c with
    templateDirs := c.templateDirs.map (Path.join base)
    compileDir := Path.join base c.compileDir }

/-- Reads the configuration in a file. -/
def load (d : Disk) (path : Text) : Except ConfigError Config :=
  match d.readText path with
  | .error cause => .error (.unreadable path cause)
  | .ok text => do
    let config ← read text
    match Path.parent? path with
    | some base => return config.seenFrom base
    | none => return config

end Config

end Stencil
