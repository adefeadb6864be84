import Stencil.Config.Basic
import Stencil.Engine.Basic

/-!
# Engines from configurations

An engine whose templates and records are where a configuration says.
-/

namespace Stencil.Engine

/-- The engine that a configuration describes. -/
def ofConfig (c : Config) : Except UnknownOption Engine := do
  let archive : Archive := match c.extension? with
    | some extension => { directory := c.compileDir, extension }
    | none => { directory := c.compileDir }
  let e : Engine := { archive, source := .directories c.templateDirs }
  return e.setOptions (← c.mask)

/-- The engine that the configuration in a file describes. -/
def load (d : Disk) (path : Text) : Except ConfigError Engine := do
  match ofConfig (← Config.load d path) with
  | .ok e => return e
  | .error unknown => throw (.unknownOption unknown)

end Stencil.Engine
