import Fleet.Cli.Arguments
import Fleet.Config.Files
import Fleet.Config.PeerArgument
import Fleet.EnvFile
import Fleet.Report.DryRun

/-!
# Commands

One command writes a first configuration, the other one runs a node or says what it would do.
Everything that can be refused is refused before the first file is written.

## Main definitions

* `Machine` — what a command needs to know of the machine.
* `CommandError` — why a command fails.
* `writeConfig`, `prepareNode` — the two commands.
* `runCommandLine` — a whole run of the program, up to where a node is running.
-/

namespace Fleet

/-- What a command needs to know of the machine: its name, its memory in megabytes, the folder of
its user, the configuration that the environment names, and whether it can listen on an address. -/
structure Machine where
  host : String
  memory : UInt64
  home : String
  configVariable : Option String
  canListen : String → Bool

/-- What a machine is called, given the name that it has. -/
def Machine.nameOf (name : String) : String :=
  if Text.Blank name then "localhost" else Text.trimEnd name

/-- The memory of a machine in megabytes, given a text that starts with it in kilobytes. -/
def Machine.memoryOf (status : String) : UInt64 :=
  let digits := (status.toList.dropWhile fun c => !c.isDigit).takeWhile Char.isDigit
  ((Decimal.value? digits).getD 0 / 1024).toUInt64

/-- The configuration that is used unless another one is named. -/
def Machine.defaultConfig (m : Machine) : String := s!"{m.home}/.cloudmesh/node.yaml"

/-- Why a command fails. -/
inductive CommandError where
  | envFile
  | load (path : String) (e : ConfigError)
  | invalid (fault : ConfigFault)
  /-- There is a configuration already. -/
  | taken (path : String)
  | badPeer (arg : String)
  | write (path : String) (e : ConfigError)
  | listen (address : String)

/-- The wording of a failure; what a reader or the machine would add is left out. -/
def CommandError.message : CommandError → String
  | .envFile => "Failed to load env file"
  | .load path e => s!"Failed to load node config {path}: {e.message}"
  | .invalid fault => s!"Invalid node config: {(ConfigError.invalid fault).message}"
  | .taken path => s!"Config {path} already exists, use --force to overwrite"
  | .badPeer arg => badPeerMessage arg
  | .write path e => s!"Failed to write {path}: {e.message}"
  | .listen address => s!"Failed to listen on {address}: IO error"

variable {m : Type → Type} [Monad m] [Disk m]

/-! ## Writing a configuration -/

/-- The peers that the arguments stand for. -/
def peersOfArguments : List String → Except CommandError (List Identity)
  | [] => .ok []
  | arg :: rest =>
    match Identity.ofArgument? arg with
    | none => .error (.badPeer arg)
    | some p => (peersOfArguments rest).map (p :: ·)

/-- The first configuration of a node. -/
def firstConfig (host : String) (o : InitOptions) : Except CommandError NodeConfig := do
  let peers ← peersOfArguments o.peers
  let c := { NodeConfig.default host with id := o.nodeId.getD host, peers := peers }
  match c.fault? with
  | some fault => .error (.invalid fault)
  | none => .ok c

/-- Writes the first configuration of a node and says so; a file that is there is kept unless the
command is forced to replace it. -/
def writeConfig (machine : Machine) (config : Option String) (o : InitOptions) :
    m (Except CommandError String) := do
  let path := config.getD machine.defaultConfig
  if (← Disk.present path) && !o.force then return .error (.taken path)
  match firstConfig machine.host o with
  | .error e => return .error e
  | .ok c =>
    match ← c.save path with
    | .error e => return .error (.write path e)
    | .ok () => return .ok s!"Wrote node config for {c.id} to {path}\n"

/-! ## Running a node -/

/-- What comes of the command that runs a node. -/
inductive Prepared where
  /-- A report on what the node would do. -/
  | report (text : String)
  /-- A node to run, with its budget for services. -/
  | run (c : NodeConfig) (memory : UInt64)

/-- Checks that an environment file is there and well formed. -/
def checkEnvFile (file : Option String) : m (Except CommandError Unit) := do
  match file with
  | none => return .ok ()
  | some path =>
    match (← Disk.read path).bind Text.ofUtf8? with
    | some text => return if EnvFile.isSound text then .ok () else .error .envFile
    | none => return .error .envFile

/-- The configuration of a node: one that is named has to be there. -/
def findConfig (machine : Machine) (config : Option String) :
    m (Except ConfigError NodeConfig) :=
  match config with
  | some path => NodeConfig.load machine.host path
  | none => NodeConfig.loadOrDefault machine.host machine.defaultConfig

/-- What becomes of a configuration under the options of the command. -/
def prepare (machine : Machine) (path : String) (o : ServeOptions) (c : NodeConfig) :
    Except CommandError Prepared :=
  let c := { c with id := o.nodeId.getD c.id, listen := o.listen.getD c.listen }
  match c.fault? with
  | some fault => .error (.invalid fault)
  | none =>
    let memory := c.memory.getD machine.memory
    if o.dryRun then .ok (.report (Report.dryRun c path memory ++ "\n"))
    else if machine.canListen c.listen then .ok (.run c memory)
    else .error (.listen c.listen)

/-- Prepares to run a node. -/
def prepareNode (machine : Machine) (config : Option String) (o : ServeOptions) :
    m (Except CommandError Prepared) := do
  match ← checkEnvFile o.envFile with
  | .error e => return .error e
  | .ok () =>
    let path := config.getD machine.defaultConfig
    match ← findConfig machine config with
    | .error e => return .error (.load path e)
    | .ok c => return prepare machine path o c

/-! ## Runs of the program -/

/-- How a run of the program ends: its exit code, what it has printed, and what went wrong. -/
structure Ending where
  exitCode : UInt8
  output : String
  failure : Option String

/-- A run that ends well. -/
def Ending.well (output : String) : Ending := ⟨0, output, none⟩

/-- A run whose command fails. -/
def Ending.failed (e : CommandError) : Ending := ⟨1, "", some e.message⟩

/-- The run of a node whose closing report cannot be made. -/
def Ending.brokenOff : Ending := ⟨101, "", none⟩

/-- The end of a node that stops, with its closing report. -/
def Ending.ofClosing : Option String → Ending
  | some report => .well report
  | none => .brokenOff

/-- The page of help. -/
def helpPage : String :=
  "Place cloud services across a cluster of cooperating nodes\n\n" ++
  s!"Usage: {programName} [OPTIONS] <COMMAND>\n\n" ++
  "Commands:\n" ++
  "  serve  Run this machine as a cluster node\n" ++
  "  init   Write a starter node config\n" ++
  "  help   Print this message\n\n" ++
  "Options:\n" ++
  "  -v, --verbose          Report more, the more often it is given\n" ++
  "      --config <CONFIG>  The node config to use\n" ++
  "  -h, --help             Print help\n" ++
  "  -V, --version          Print version\n"

/-- The end of a run without a command: what was asked for is printed, all else is misuse. -/
def Ending.ofStop : CommandLine.Stop → Ending
  | .help => .well helpPage
  | .version => .well s!"{programName} {programVersion}\n"
  | _ => ⟨2, "", none⟩

/-- A run of the program: it ends, or a node is to run. -/
inductive Progress where
  | ended (e : Ending)
  | running (c : NodeConfig) (memory : UInt64)

/-- A whole run of the program up to where a node is running; the name of the program comes first
among the arguments. -/
def runCommandLine (machine : Machine) (args : List String) : m Progress := do
  match CommandLine.parse machine.configVariable args with
  | .error stop => return .ended (.ofStop stop)
  | .ok line =>
    match line.command with
    | .init o =>
      match ← writeConfig machine line.config o with
      | .error e => return .ended (.failed e)
      | .ok text => return .ended (.well text)
    | .serve o =>
      match ← prepareNode machine line.config o with
      | .error e => return .ended (.failed e)
      | .ok (.report text) => return .ended (.well text)
      | .ok (.run c memory) => return .running c memory

end Fleet
