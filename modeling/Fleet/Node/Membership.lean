import Fleet.Config
import Fleet.Node.Inbox

/-!
# Taking part in the cluster

A node follows what happens on its connections: a peer that connects becomes known and available, a
peer that goes away is no longer available, its queue is closed and the queries that wait for it
end.  From time to time the node stores its own load and reports it to all peers.

## Main definitions

* `Site.handle` — what an event means to a node.
* `Node.addPeers`, `Node.ofConfig` — the peers that are known from the start.
* `Site.publish` — one report of the node's load.
-/

namespace Fleet

namespace Node

/-- Registers peers that are known from the start; they are not available before they connect. -/
def addPeers (n : Node) (peers : List Identity) : Node :=
  { n with roster := n.roster.registerAll peers }

/-- The node of a configuration, with a budget for services, before it has reported its load. -/
def ofConfig (c : NodeConfig) (memory : UInt64) : Node :=
  (Node.new c.identity memory (c.queryTimeout.toNat * 1000)).withListeners.addPeers c.peers

/-- A peer has connected. -/
def connected (n : Node) (peer : Identity) : Node :=
  if peer.id = n.id then n
  else
    let known := match n.roster.find? peer.id with
      | some _ => n.roster
      | none => match n.roster.register peer with
        | .ok (_, r) => r
        | .error _ => n.roster
    match known.markConnected peer.id true with
    | .ok roster => { n with roster }
    | .error _ => { n with roster := known }

/-- A peer has gone away. -/
def disconnected (n : Node) (id : String) : Node :=
  let roster := match n.roster.markConnected id false with
    | .ok r => r
    | .error _ => n.roster
  { n with
    roster
    inbound := (n.inbound.close id).2
    messenger := (n.messenger.failPending id).2 }

end Node

namespace Site

variable {σ : Type}

/-- What an event means to a node. -/
def handle (s : Site σ) : TransportEvent → Site σ
  | .connected peer => { s with node := s.node.connected peer }
  | .disconnected id => { s with node := s.node.disconnected id }
  | .message m => s.receive m

/-- Stores the node's own load. -/
def storeOwn (s : Site σ) (l : Load) : Site σ :=
  match s.node.roster.report s.node.id l with
  | .ok roster => s.withRoster roster
  | .error _ => s

/-- Stores the node's load and reports it to all peers, given a reading of the processors; tells how
many peers it was sent to. -/
def publish [Transport σ] (s : Site σ) (cpu : Binary64) : Nat × Site σ :=
  let l := s.node.ledger.load cpu s.now
  let s := s.storeOwn l
  match Message.new? reportChannel s.node.id [.all] l.toJson.write with
  | .ok m => s.send m
  | .error _ => (0, s)

end Site

end Fleet
