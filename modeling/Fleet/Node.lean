import Fleet.Member.Placement
import Fleet.Node.Activity
import Fleet.Transport

/-!
# Nodes

A node has its view of the cluster, the ledger of its services, a messenger and its inbound queues.
A task of a node works on the node and on the connections, draws new identifiers from a supply, and
reads the clock: the milliseconds that have gone by, the milliseconds up to which deadlines have
been noticed, which may lag behind, and the time of day.

## Main definitions

* `Node` — a node.
* `Site` — what a task works on.
* `Site.send`, `Site.respond`, `Site.receive` — messages out, responses, and messages in.
-/

namespace Fleet

/-- The channel on which the head makes a node start a service. -/
def startChannel : String := "head_node_to_node_start_service"

/-- The channel on which a node hands a request to the head. -/
def placeChannel : String := "node_to_head_start_service"

/-- The channel on which nodes report their loads. -/
def reportChannel : String := "node_snapshot_update"

/-- A node. -/
structure Node where
  roster : Roster
  ledger : Ledger
  messenger : Messenger
  inbound : Inbound Dispatch
  /-- Whether start requests are served also when nobody creates a service. -/
  serving : Bool
  /-- The number of creations on their way. -/
  creations : Nat
  /-- The order in which the node meets the properties that it writes next. -/
  order : Properties.Order

namespace Node

/-- The id of a node. -/
def id (n : Node) : String := n.roster.selfId

/-- A node that knows nobody; `memory` is its budget and `timeout` the milliseconds that a query
waits. -/
def new (i : Identity) (memory : UInt64) (timeout : Nat) : Node :=
  { roster := .new i, ledger := .new i.id memory, messenger := .new timeout, inbound := .empty,
    serving := true, creations := 0, order := .byKey }

/-- Registers the listeners that make a node a part of the cluster. -/
def withListeners (n : Node) : Node :=
  { n with messenger :=
      ((n.messenger.listen startChannel normalPriority .startHere).listen
        placeChannel normalPriority .startAsHead).listen reportChannel normalPriority .storeLoad }

/-- Whether start requests are served. -/
def serves (n : Node) : Bool := n.serving || 0 < n.creations

end Node

/-- What a task of a node works on. -/
structure Site (σ : Type) where
  node : Node
  links : σ
  /-- The number of identifiers drawn so far. -/
  drawn : Nat
  /-- What recording listeners saw, in order. -/
  calls : List Call
  /-- The milliseconds that have gone by. -/
  clock : Nat
  /-- The milliseconds up to which deadlines have been noticed. -/
  noticed : Nat
  /-- The time of day. -/
  now : Instant

namespace Site

variable {σ : Type}

/-- Draws a new identifier. -/
def draw (s : Site σ) : Uuid × Site σ := (.fresh s.drawn, { s with drawn := s.drawn + 1 })

/-- Changes the messenger of the node. -/
def withMessenger (s : Site σ) (m : Messenger) : Site σ :=
  { s with node := { s.node with messenger := m } }

/-- Changes the roster of the node. -/
def withRoster (s : Site σ) (r : Roster) : Site σ :=
  { s with node := { s.node with roster := r } }

/-- Starts a service on the node. -/
def start (s : Site σ) (spec : ServiceSpec) : Except LedgerError Service × Site σ :=
  let (id, s) := s.draw
  let (r, ledger) := s.node.ledger.start spec id s.now
  (r, { s with node := { s.node with ledger } })

/-- Takes a message in: a response goes to its query, or is dropped if none waits for it; every
other message goes to its sender's queue. -/
def receive (s : Site σ) (m : Message) : Site σ :=
  if m.isResponse then
    match s.node.messenger.complete m with
    | .ok messenger => s.withMessenger messenger
    | .error _ => s
  else
    let (d, messenger) := s.node.messenger.stamp m
    { s with node := { s.node with messenger, inbound := s.node.inbound.push d } }

variable [Transport σ]

/-- The ids that targets stand for here. -/
def resolve (s : Site σ) (targets : List Target) : List String :=
  Fleet.resolve ((Transport.connections s.links s.node.id).map (·.id)) targets

/-- Writes a message to one node. -/
def write (s : Site σ) (receiver : String) (m : Message) : Except TransportError Unit × Site σ :=
  let (r, links) := Transport.write s.links s.node.id receiver m
  (r, { s with links })

/-- Writes a message to several nodes, and counts where that worked. -/
def writeAll (m : Message) : List String → Site σ → Nat × Site σ
  | [], s => (0, s)
  | receiver :: rest, s =>
    let (r, s) := s.write receiver m
    let (n, s) := writeAll m rest s
    (if r.isOk then n + 1 else n, s)

/-- Sends a message to all its targets, and counts where that worked. -/
def send (s : Site σ) (m : Message) : Nat × Site σ := writeAll m (s.resolve m.targets) s

/-- Answers a query that has arrived. -/
def respond (s : Site σ) (d : Delivery) (content : Bytes) :
    Except MessengerError Unit × Site σ :=
  match s.node.messenger.claimAnswer d with
  | .error e => (.error (.protocol e), s)
  | .ok messenger =>
    let (r, s) := (s.withMessenger messenger).write d.message.sender
      (d.message.responseFor s.node.id content)
    (r.mapError .transport, s)

end Site

end Fleet
