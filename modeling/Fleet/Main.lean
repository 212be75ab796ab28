import Fleet.Cli.Run
import Fleet.Report.Closing

/-!
# The program

The command line on a machine: its files, its surroundings and its output.  A node that is run here
has no connections; it stops when the standard input ends, and says then how it saw the cluster.
-/

namespace Fleet

/-- Whether an action works. -/
def worked (action : IO Unit) : IO Bool := do
  match ← action.toBaseIO with
  | .ok () => return true
  | .error _ => return false

instance : Disk IO where
  present path := do
    match ← (IO.FS.realPath path).toBaseIO with
    | .ok real => real.pathExists
    | .error _ => return false
  read path := do
    match ← (IO.FS.readBinFile path).toBaseIO with
    | .ok content => return some content.toList
    | .error _ => return none
  makeParents path := do
    match (FilePath.ofText? path).map (·.parent) with
    | none => return true
    | some folder =>
      if folder.names.isEmpty then return true else worked (IO.FS.createDirAll folder.text)
  write path content := worked (IO.FS.writeBinFile path ⟨content.toArray⟩)

/-- The text of a file of the machine, empty if there is none. -/
def textOf (path : String) : IO String := do
  return ((← Disk.read path).bind Text.ofUtf8?).getD ""

/-- The machine that the program runs on. -/
def thisMachine : IO Machine := do
  return {
    host := Machine.nameOf (← textOf "/etc/hostname")
    memory := Machine.memoryOf (← textOf "/proc/meminfo")
    home := (← IO.getEnv "HOME").getD "."
    configVariable := ← IO.getEnv "CLOUDMESH_CONFIG"
    canListen := fun _ => true }

/-- Waits until the standard input ends. -/
partial def waitForEnd (input : IO.FS.Stream) : IO Unit := do
  if !(← input.getLine).isEmpty then waitForEnd input

/-- Says how a run ended, and gives its exit code. -/
def finish (e : Ending) : IO UInt32 := do
  IO.print e.output
  match e.failure with
  | some text => IO.eprintln s!"ERROR {programName}: {text}"
  | none => pure ()
  return e.exitCode.toUInt32

/-- Runs the program. -/
def runProgram (args : List String) : IO UInt32 := do
  match ← runCommandLine (← thisMachine) (programName :: args) with
  | .ended e => finish e
  | .running c memory =>
    waitForEnd (← IO.getStdin)
    finish (.ofClosing (c.aloneReport? memory Load.unknownCpu .epoch))

end Fleet

/-- The program of the command line. -/
def main (args : List String) : IO UInt32 := Fleet.runProgram args
