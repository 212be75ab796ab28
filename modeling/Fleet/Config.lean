import Fleet.Member
import Fleet.SocketAddress
import Fleet.Text.Blank

/-!
# Node configurations

A node is configured by its id, the address it listens on, the address that peers should use if
that is another one, its peers, two intervals and a memory budget.  Everything has a default but
what only the machine knows: the id is the machine's host name, and the budget all of its memory.

## Main definitions

* `NodeConfig` — a configuration.
* `NodeConfig.default` — the defaults on a machine with a host name.
* `NodeConfig.fault?` — the first mistake that would break the cluster.
* `NodeConfig.identity`, `NodeConfig.peers` — the node and its peers as members of the cluster.
-/

namespace Fleet

/-- The port on which nodes accept connections unless configured otherwise. -/
def clusterPort : Nat := 4300

/-- The seconds after which an unreachable peer is dialled again. -/
def peerRetrySeconds : UInt64 := 3

/-- The seconds a query waits unless configured otherwise. -/
def defaultQueryTimeout : UInt64 := 5

/-- The seconds between two reports of a node's load unless configured otherwise. -/
def defaultReportInterval : UInt64 := 10

/-- The configuration of a node; times count in seconds and memory in megabytes. -/
structure NodeConfig where
  id : String
  /-- The address to accept connections on. -/
  listen : String
  /-- The address that peers should use, if that is another one. -/
  advertise : Option String
  peers : List Identity
  queryTimeout : UInt64
  reportInterval : UInt64
  memory : Option UInt64
deriving DecidableEq

/-- A mistake in a configuration. -/
inductive ConfigFault where
  | blankId
  | badListen (address : String)
  | zeroQueryTimeout
  | zeroReportInterval
  | incompletePeer
  | peerIsSelf (id : String)
  | peerTwice (id : String)
deriving DecidableEq

/-- The wording of a mistake. -/
def ConfigFault.message : ConfigFault → String
  | .blankId => "node.id must not be empty"
  | .badListen address => s!"node.listen '{address}' is not a socket address"
  | .zeroQueryTimeout => "query_timeout_secs must be greater than zero"
  | .zeroReportInterval => "snapshot_interval_secs must be greater than zero"
  | .incompletePeer => "peers need both an id and an address"
  | .peerIsSelf id => s!"peer '{id}' has the same id as this node"
  | .peerTwice id => s!"peer '{id}' is listed twice"

namespace NodeConfig

/-- The address to listen on unless configured otherwise. -/
def defaultListen : String := s!"0.0.0.0:{Decimal.text clusterPort}"

/-- The defaults on a machine with a host name. -/
def default (host : String) : NodeConfig :=
  { id := host, listen := defaultListen, advertise := none, peers := [],
    queryTimeout := defaultQueryTimeout, reportInterval := defaultReportInterval, memory := none }

/-- The node as its peers know it. -/
def identity (c : NodeConfig) : Identity := ⟨c.id, c.advertise.getD c.listen⟩

/-- The first mistake in a list of peers, given the node's own id and the ids listed before. -/
def peersFault? (own : String) : List String → List Identity → Option ConfigFault
  | _, [] => none
  | seen, p :: rest =>
    if Text.Blank p.id ∨ Text.Blank p.address then some .incompletePeer
    else if p.id = own then some (.peerIsSelf p.id)
    else if p.id ∈ seen then some (.peerTwice p.id)
    else peersFault? own (p.id :: seen) rest

/-- The first mistake in a configuration. -/
def fault? (c : NodeConfig) : Option ConfigFault :=
  if Text.Blank c.id then some .blankId
  else if (SocketAddress.parse? c.listen).isNone then some (.badListen c.listen)
  else if c.queryTimeout = 0 then some .zeroQueryTimeout
  else if c.reportInterval = 0 then some .zeroReportInterval
  else peersFault? c.id [] c.peers

end NodeConfig

/-- Why a configuration cannot be had. -/
inductive ConfigError where
  /-- There is no file of that name. -/
  | notFound (path : String)
  /-- The text does not read as a configuration. -/
  | unreadable
  | invalid (fault : ConfigFault)
  /-- The file cannot be read or written. -/
  | io
deriving DecidableEq

/-- The wording of an error; what a reader or the machine would add is left out. -/
def ConfigError.message : ConfigError → String
  | .notFound path => s!"Config file not found: {path}"
  | .unreadable => "Failed to parse config"
  | .invalid fault => s!"Invalid config: {fault.message}"
  | .io => "IO error"

end Fleet
