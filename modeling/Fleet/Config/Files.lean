import Fleet.Config.Reader
import Fleet.Config.Writer
import Fleet.Disk

/-!
# Configurations in files

A configuration is kept in a file as its YAML text.  A file that is not there may count as the
default configuration; one that cannot be read, or does not hold a sound configuration, never does.

## Main definitions

* `NodeConfig.load`, `NodeConfig.loadOrDefault` — a configuration from a file.
* `NodeConfig.save` — a configuration into a file, with the folders around it.
-/

namespace Fleet.NodeConfig

variable {m : Type → Type} [Monad m] [Disk m]

/-- The configuration in a file that has to be there. -/
def load (host path : String) : m (Except ConfigError NodeConfig) := do
  if !(← Disk.present path) then return .error (.notFound path)
  match (← Disk.read path).bind Text.ofUtf8? with
  | none => return .error .io
  | some text => return ofText host text

/-- The configuration in a file, the default one if it is not there. -/
def loadOrDefault (host path : String) : m (Except ConfigError NodeConfig) := do
  match ← load host path with
  | .error (.notFound _) => return .ok (default host)
  | r => return r

/-- Puts a configuration into a file. -/
def save (c : NodeConfig) (path : String) : m (Except ConfigError Unit) := do
  if !(← Disk.makeParents path) then return .error .io
  if ← Disk.write path (Text.utf8 (String.ofList c.yaml)) then return .ok ()
  return .error .io

end Fleet.NodeConfig
