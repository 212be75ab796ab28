import Fleet.Config

/-!
# Command lines

A command line is the name of the program, options of the program, a command, and options of the
command.  Long options take their value after an equals sign or as the next argument; short ones may
be run together.  The options that every command has may stand on both sides of the command.

## Main definitions

* `CommandLine` — what a command line says.
* `CommandLine.Stop` — why there is no command to carry out.
* `CommandLine.parse` — reads a command line.
-/

namespace Fleet

/-- The options of the command that runs a node. -/
structure ServeOptions where
  dryRun : Bool
  envFile : Option String
  listen : Option String
  nodeId : Option String
deriving DecidableEq

/-- The options of the command that writes a configuration. -/
structure InitOptions where
  nodeId : Option String
  peers : List String
  force : Bool
deriving DecidableEq

/-- A command. -/
inductive Command where
  | serve (options : ServeOptions)
  | init (options : InitOptions)
deriving DecidableEq

/-- What a command line says: how much to report, which configuration to use, and what to do. -/
structure CommandLine where
  verbosity : Nat
  config : Option String
  command : Command
deriving DecidableEq

namespace CommandLine

/-- Why there is no command to carry out. -/
inductive Stop where
  /-- Help was asked for. -/
  | help
  /-- The version was asked for. -/
  | version
  /-- Nothing was asked for. -/
  | nothing
  | noCommand
  | unknownCommand
  | unknownArgument
  /-- A value is missing, or an empty one was given for a path. -/
  | badValue
  /-- An option without a value was given one. -/
  | needlessValue
  /-- An option was given twice that may be given once. -/
  | repeated
deriving DecidableEq

/-! ## Options -/

/-- What an option is for. -/
inductive Role where
  /-- It is there or not. -/
  | flag
  /-- It is counted. -/
  | count
  /-- It has a value, which may be empty. -/
  | text
  /-- It has a value, which may not be empty. -/
  | path
  /-- It may be given several times with a value each. -/
  | texts
  | help
  | version
deriving DecidableEq

/-- An option: its long name, its short one if it has one, and what it is for. -/
structure Switch where
  long : String
  short : Option Char
  role : Role
deriving DecidableEq

/-- The option has a value. -/
def Switch.hasValue (s : Switch) : Bool := s.role ∈ [Role.text, .path, .texts]

/-- The options that every command has. -/
def commonSwitches : List Switch :=
  [⟨"verbose", some 'v', .count⟩, ⟨"config", none, .path⟩, ⟨"help", some 'h', .help⟩]

/-- The options of the program. -/
def programSwitches : List Switch := ⟨"version", some 'V', .version⟩ :: commonSwitches

/-- The options of the command that runs a node. -/
def serveSwitches : List Switch :=
  [⟨"dry-run", none, .flag⟩, ⟨"env-file", none, .path⟩, ⟨"listen", none, .text⟩,
    ⟨"node-id", none, .text⟩] ++ commonSwitches

/-- The options of the command that writes a configuration. -/
def initSwitches : List Switch :=
  [⟨"node-id", none, .text⟩, ⟨"peer", none, .texts⟩, ⟨"force", none, .flag⟩] ++ commonSwitches

/-- The names of the commands. -/
def commandNames : List String := ["serve", "init", "help"]

/-! ## Reading the options of one level -/

/-- The options that have been read. -/
structure Given where
  /-- Each option with its values, in the order in which they came. -/
  values : List (String × String)
  /-- How often each option without a value was given. -/
  counts : List (String × Nat)
  /-- The last option that has a value, with the value if it has come. -/
  open? : Option (Switch × Option String)
  /-- Two hyphens have come, after which there are no options. -/
  closed : Bool

namespace Given

/-- No option. -/
def none : Given := ⟨[], [], Option.none, false⟩

/-- The values of an option. -/
def all (g : Given) (name : String) : List String :=
  (g.values.filter (·.1 = name)).map (·.2)

/-- The value of an option. -/
def value? (g : Given) (name : String) : Option String := (g.all name).getLast?

/-- How often an option was given. -/
def count (g : Given) (name : String) : Nat := (g.counts.lookup name).getD 0

/-- No option has been given. -/
def isNone (g : Given) : Bool := g.values.isEmpty && g.counts.isEmpty

/-- Takes an option with its value. -/
def store (s : Switch) (value : String) (g : Given) : Except Stop Given :=
  if s.role ≠ .texts ∧ !(g.all s.long).isEmpty then .error .repeated
  else if s.role = .path ∧ value.isEmpty then .error .badValue
  else .ok { g with values := g.values ++ [(s.long, value)] }

/-- Completes the last option that has a value. -/
def complete (g : Given) : Except Stop Given :=
  match g.open? with
  | some (_, Option.none) => .error .badValue
  | some (s, some value) => store s value { g with open? := Option.none }
  | Option.none => .ok g

/-- Takes an option without a value. -/
def note (s : Switch) (g : Given) : Except Stop Given := do
  let g ← g.complete
  match s.role with
  | .help => .error .help
  | .version => .error .version
  | .count =>
    .ok { g with counts := (s.long, g.count s.long + 1) :: g.counts.filter (·.1 ≠ s.long) }
  | _ =>
    if 0 < g.count s.long then .error .repeated
    else .ok { g with counts := (s.long, 1) :: g.counts }

/-- The next argument is the value of an option. -/
def awaits (g : Given) : Bool := g.open? matches some (_, Option.none)

end Given

/-- The name and the value of a long option. -/
def splitLong : List Char → List Char × Option (List Char)
  | [] => ([], none)
  | c :: rest =>
    if c = '=' then ([], some rest)
    else
      let (name, value) := splitLong rest
      (c :: name, value)

/-- Takes a long option, given after its hyphens. -/
def readLong (switches : List Switch) (arg : List Char) (g : Given) : Except Stop Given := do
  let (name, value) := splitLong arg
  match switches.find? (·.long.toList = name), value with
  | none, _ => .error .unknownArgument
  | some s, some v =>
    if s.hasValue then (← g.complete).store s (String.ofList v) else .error .needlessValue
  | some s, none =>
    if s.hasValue then .ok { ← g.complete with open? := some (s, none) } else g.note s

/-- Takes short options that are run together, given after their hyphen. -/
def readShort (switches : List Switch) : List Char → Given → Except Stop Given
  | [], g => .ok g
  | c :: rest, g => do
    match switches.find? (·.short = some c) with
    | none => .error .unknownArgument
    | some s => readShort switches rest (← g.note s)

/-- Why an argument that is no option is refused: it is no command where one may come, or nothing
may come there at all. -/
def stray (commands : List String) (g : Given) (arg : String) : Stop :=
  if commands.isEmpty ∨ (g.closed ∧ arg ∈ commands) then .unknownArgument else .unknownCommand

/-- Reads options up to a command; gives the command and the arguments after it. -/
def readOptions (switches : List Switch) (commands : List String) :
    Given → List String → Except Stop (Given × Option (String × List String))
  | g, [] => .ok (g, none)
  | g, arg :: rest =>
    if g.closed then .error (stray commands g arg)
    else if !g.awaits ∧ arg ∈ commands then .ok (g, some (arg, rest))
    else
      match arg.toList with
      | ['-', '-'] => readOptions switches commands { g with closed := true } rest
      | '-' :: '-' :: name => do
        readOptions switches commands (← readLong switches name g) rest
      | '-' :: c :: more => do
        readOptions switches commands (← readShort switches (c :: more) g) rest
      | _ =>
        match g.open? with
        | some (s, none) =>
          readOptions switches commands { g with open? := some (s, some arg) } rest
        | _ => .error (stray commands g arg)

/-! ## Whole command lines -/

/-- The configuration that the environment names; an empty name is refused where it is needed. -/
def checkVariable (fromEnv : Option String) (g : Given) : Except Stop Unit :=
  if fromEnv = some "" ∧ (g.value? "config").isNone then .error .badValue else .ok ()

/-- Help on a command, for the arguments after the word `help`. -/
def helpOn : List String → Stop
  | [] => .help
  | [name] => if name ∈ commandNames then .help else .unknownCommand
  | _ => .unknownCommand

/-- The command for the options that were given to it. -/
def commandOf (name : String) (g : Given) : Command :=
  if name = "serve" then
    .serve ⟨0 < g.count "dry-run", g.value? "env-file", g.value? "listen", g.value? "node-id"⟩
  else .init ⟨g.value? "node-id", g.all "peer", 0 < g.count "force"⟩

/-- Reads the options of a command. -/
def readCommand (fromEnv : Option String) (name : String) (args : List String) :
    Except Stop Given := do
  let switches := if name = "serve" then serveSwitches else initSwitches
  let (g, _) ← readOptions switches [] .none args
  let g ← g.complete
  checkVariable fromEnv g
  return g

/-- Reports are counted up to this. -/
def maxVerbosity : Nat := 255

/-- Reads a command line, the name of the program first.  What stands after the command counts more
than what stands before it, and both count more than the environment. -/
def parse (fromEnv : Option String) (args : List String) : Except Stop CommandLine := do
  let (outer, command) ← readOptions programSwitches commandNames .none args.tail
  match command with
  | none =>
    let outer ← outer.complete
    checkVariable fromEnv outer
    .error (if outer.isNone ∧ fromEnv = none then .nothing else .noCommand)
  | some ("help", rest) => .error (helpOn rest)
  | some (name, rest) =>
    let inner ← readCommand fromEnv name rest
    let outer ← outer.complete
    checkVariable fromEnv outer
    let verbosity :=
      if inner.count "verbose" = 0 then outer.count "verbose" else inner.count "verbose"
    return {
      verbosity := min verbosity maxVerbosity
      config := ((inner.value? "config").or (outer.value? "config")).or fromEnv
      command := commandOf name inner }

end CommandLine

end Fleet
