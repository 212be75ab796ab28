import Fleet.Member
import Fleet.Wire.Frame

/-!
# Transports

A transport holds the connections between nodes.  It writes a message to one connected node, and
tells each node through its mailbox what happens on its connections.

## Main definitions

* `TransportError`, `TransportEvent` — what can go wrong, and what can happen.
* `Transport` — what the rest of a node needs of its connections.
-/

namespace Fleet

/-- Why a message cannot be written. -/
inductive TransportError where
  | notConnected (id : String)
  | closed
  | io
  | frame (e : FrameError)
deriving DecidableEq

/-- The wording of a failure; what the machine would add is left out. -/
def TransportError.message : TransportError → String
  | .notConnected id => s!"Node '{id}' is not connected"
  | .closed => "Connection closed"
  | .io => "IO error"
  | .frame e => s!"Codec error: {e.message}"

/-- What happens on the connections of a node. -/
inductive TransportEvent where
  /-- A peer has introduced itself. -/
  | connected (peer : Identity)
  /-- The connection to a peer was lost. -/
  | disconnected (id : String)
  | message (m : Message)
deriving DecidableEq

/-- The number of events that fit into a mailbox. -/
def mailboxCapacity : Nat := 1024

/-- The connections between nodes; nodes are named by id and mailboxes by number. -/
class Transport (σ : Type) where
  /-- The peers that a node is connected to. -/
  connections : σ → String → List Identity
  /-- Writes a message from one node to another. -/
  write : σ → String → String → Message → Except TransportError Unit × σ
  /-- Takes the next event out of a mailbox. -/
  take? : σ → Nat → Option (TransportEvent × σ)
  /-- Whether nothing will come into a mailbox any more. -/
  ended : σ → Nat → Bool
  /-- Stops receiving. -/
  hangUp : σ → Nat → σ

end Fleet
