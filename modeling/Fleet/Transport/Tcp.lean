import Fleet.Table
import Fleet.Transport
import Fleet.Wire.Stream

/-!
# Connections over TCP

Both ends of a connection introduce themselves first.  A node keeps one connection to each peer in a
table; a connection to a peer that has one already is dropped, as is one to the node itself.  Each
connection has a task that reads and a writer.  The task enters the connection into the table,
announces the peer, passes on its messages until reading ends, takes the connection out of the table
and announces that the peer is gone; each of these is a step of its own, and the steps of different
connections come in any order.  The writer takes frames from a queue and stops at the first one that
it cannot write.

## Main definitions

* `Tcp` — the connections of a node.
* `Tcp.establish`, `Tcp.arrive`, `Tcp.breakWriter` — what happens to the node from outside.
* `Tcp.greet?`, `Tcp.announce?`, `Tcp.read?`, `Tcp.release?`, `Tcp.depart?`, `Tcp.writeNext?` — the
  steps of its tasks; a step that has to wait is none.
* `Tcp.sendTo?` — writing a message to a peer.
-/

namespace Fleet

/-- The milliseconds a peer has to introduce itself. -/
def greetingMillis : Nat := 5000

/-- The number of frames that wait for a writer. -/
def outboundCapacity : Nat := 256

namespace Tcp

/-- What arrives on a connection. -/
inductive Arrival where
  | frame (bytes : Bytes)
  /-- Reading fails. -/
  | failure
  /-- The peer has closed the connection. -/
  | close
deriving DecidableEq

/-- How far the task of a connection has come. -/
inductive Phase where
  /-- The peer has not introduced itself. -/
  | greeting
  /-- The connection is in the table, with the number of its entry. -/
  | entered (peer : Identity) (number : UInt64)
  | reading (peer : Identity) (number : UInt64)
  /-- Reading has ended; the connection may still be in the table. -/
  | leaving (peer : Identity) (number : UInt64)
  /-- The connection is out of the table; that the peer is gone has not been announced. -/
  | left (peer : Identity)
  | ended
deriving DecidableEq

/-- What the writer of a connection does. -/
inductive Writer where
  | notStarted
  | running
  | stopped
deriving DecidableEq

/-- A connection. -/
structure Connection where
  phase : Phase
  /-- What has arrived and has not been read, in order. -/
  arrivals : List Arrival
  writer : Writer
  /-- The frames that wait for the writer, in order. -/
  outbound : List Bytes
  /-- The frames that have been written, in order. -/
  written : List Bytes

/-- An entry of the table: a peer, its connection, and the number it got when it was entered. -/
structure Entry where
  peer : Identity
  connection : Nat
  number : UInt64

end Tcp

/-- The connections of a node. -/
structure Tcp where
  self : Identity
  /-- The connections by the id of the peer. -/
  table : Table String Tcp.Entry
  /-- All connections there have been. -/
  connections : List Tcp.Connection
  /-- The number of the next entry; after the last number the first one comes again. -/
  nextNumber : UInt64
  /-- The node's mailbox. -/
  events : List TransportEvent

namespace Tcp

/-- A node without connections. -/
def new (self : Identity) : Tcp := ⟨self, .empty, [], 0, []⟩

/-- The peers that the node is connected to. -/
def peers (t : Tcp) : List Identity := t.table.values.map (·.peer)

/-- Changes a connection. -/
def modify (t : Tcp) (n : Nat) (f : Connection → Connection) : Tcp :=
  { t with connections := t.connections.modify n f }

/-- Brings the task of a connection to a phase. -/
def enter (t : Tcp) (n : Nat) (phase : Phase) : Tcp := t.modify n fun c => { c with phase }

/-- Puts an event into the mailbox, which has to have room for it. -/
def post? (t : Tcp) (e : TransportEvent) : Option Tcp :=
  if t.events.length < mailboxCapacity then some { t with events := t.events ++ [e] } else none

/-! ## From outside -/

/-- A connection is opened, by the peer or by the node; the node introduces itself. -/
def establish (t : Tcp) : Nat × Tcp :=
  (t.connections.length,
    { t with connections :=
        t.connections ++ [⟨.greeting, [], .notStarted, [], [(Frame.hello t.self).encode]⟩] })

/-- Something arrives on a connection. -/
def arrive (t : Tcp) (n : Nat) (a : Arrival) : Tcp :=
  t.modify n fun c => { c with arrivals := c.arrivals ++ [a] }

/-- The peer has not introduced itself in time. -/
def expire (t : Tcp) (n : Nat) : Tcp :=
  t.modify n fun c => if c.phase = .greeting then { c with phase := .ended } else c

/-- Writing on a connection fails. -/
def breakWriter (t : Tcp) (n : Nat) : Tcp :=
  t.modify n fun c =>
    if c.writer = .running then { c with writer := .stopped, outbound := [] } else c

/-- A node dials a peer only while it has no connection to it. -/
def dials (t : Tcp) (peer : Identity) : Bool := !t.table.contains peer.id

/-- The node takes the next event out of its mailbox. -/
def take? (t : Tcp) : Option (TransportEvent × Tcp) :=
  match t.events with
  | [] => none
  | e :: rest => some (e, { t with events := rest })

/-! ## The task of a connection -/

/-- A peer has introduced itself: it gets the connection unless it is the node itself or has one. -/
def introduce (t : Tcp) (n : Nat) (peer : Identity) : Tcp :=
  if peer.id = t.self.id then t.enter n .ended
  else
    let number := t.nextNumber
    let t := { t with nextNumber := number + 1 }
    if t.table.contains peer.id then t.enter n .ended
    else
      { t with table := t.table.insert peer.id ⟨peer, n, number⟩ }.enter n (.entered peer number)

/-- Takes the next arrival of a connection. -/
def nextArrival? (t : Tcp) (n : Nat) : Option (Arrival × Tcp) :=
  match t.connections[n]? with
  | some { arrivals := a :: rest, .. } =>
    some (a, t.modify n fun c => { c with arrivals := rest })
  | _ => none

/-- The first arrival has to be an introduction. -/
def greet? (t : Tcp) (n : Nat) : Option Tcp := do
  if (← t.connections[n]?).phase ≠ .greeting then none
  let (a, t) ← t.nextArrival? n
  match a with
  | .frame b =>
    match Frame.decode b with
    | .ok (.hello peer) => some (t.introduce n peer)
    | _ => some (t.enter n .ended)
  | _ => some (t.enter n .ended)

/-- Announces the peer, and starts the writer. -/
def announce? (t : Tcp) (n : Nat) : Option Tcp := do
  match (← t.connections[n]?).phase with
  | .entered peer number =>
    let t ← t.post? (.connected peer)
    some (t.modify n fun c => { c with phase := .reading peer number, writer := .running })
  | _ => none

/-- Reads the next arrival: a message is passed on, what is no message is skipped, and a failure or
a close ends the reading. -/
def read? (t : Tcp) (n : Nat) : Option Tcp := do
  match (← t.connections[n]?).phase with
  | .reading peer number =>
    let (a, t) ← t.nextArrival? n
    match a with
    | .frame b =>
      match Frame.decode b with
      | .ok (.message m) => t.post? (.message m)
      | _ => some t
    | _ => some (t.enter n (.leaving peer number))
  | _ => none

/-- Stops the writer and takes the connection out of the table, unless its entry is another one by
now. -/
def release? (t : Tcp) (n : Nat) : Option Tcp := do
  match (← t.connections[n]?).phase with
  | .leaving peer number =>
    let t := t.modify n fun c => { c with writer := .stopped, outbound := [] }
    match t.table.get? peer.id with
    | some e =>
      if e.number = number then
        let t := { t with table := t.table.erase peer.id }
        some (t.enter n (.left peer))
      else some (t.enter n .ended)
    | none => some (t.enter n .ended)
  | _ => none

/-- Announces that the peer is gone. -/
def depart? (t : Tcp) (n : Nat) : Option Tcp := do
  match (← t.connections[n]?).phase with
  | .left peer =>
    let t ← t.post? (.disconnected peer.id)
    some (t.enter n .ended)
  | _ => none

/-! ## The writer of a connection -/

/-- Writes the next frame; one that is too long stops the writer, and the connection stays open. -/
def writeNext? (t : Tcp) (n : Nat) : Option Tcp := do
  match ← t.connections[n]? with
  | { writer := .running, outbound := b :: rest, .. } =>
    some (t.modify n fun c =>
      if (Stream.wrap? b).isSome then { c with outbound := rest, written := c.written ++ [b] }
      else { c with writer := .stopped, outbound := [] })
  | _ => none

/-- Writes a message to a peer: its frame is put into the queue of the writer, and none if it has to
wait for room there. -/
def sendTo? (t : Tcp) (id : String) (m : Message) : Option (Except TransportError Unit × Tcp) :=
  match t.table.get? id with
  | none => some (.error (.notConnected id), t)
  | some e =>
    match t.connections[e.connection]? with
    | none => some (.error .closed, t)
    | some c =>
      if c.writer = .stopped then some (.error .closed, t)
      else if c.outbound.length < outboundCapacity then
        some (.ok (), t.modify e.connection fun c =>
          { c with outbound := c.outbound ++ [(Frame.message m).encode] })
      else none

/-! ## Runs -/

/-- A step of one of the tasks of the node. -/
inductive Task where
  | greet (connection : Nat)
  | announce (connection : Nat)
  | read (connection : Nat)
  | release (connection : Nat)
  | depart (connection : Nat)
  | write (connection : Nat)
deriving DecidableEq

/-- The connections after a step, none if the step has to wait. -/
def step? (t : Tcp) : Task → Option Tcp
  | .greet n => t.greet? n
  | .announce n => t.announce? n
  | .read n => t.read? n
  | .release n => t.release? n
  | .depart n => t.depart? n
  | .write n => t.writeNext? n

/-- What can happen to the connections of a node. -/
inductive Step : Tcp → Tcp → Prop where
  | task {t t' : Tcp} (k : Task) (h : t.step? k = some t') : Step t t'
  | opened (t : Tcp) : Step t t.establish.2
  | arrived (t : Tcp) (n : Nat) (a : Arrival) : Step t (t.arrive n a)
  | expired (t : Tcp) (n : Nat) : Step t (t.expire n)
  | broken (t : Tcp) (n : Nat) : Step t (t.breakWriter n)
  | sent {t t' : Tcp} (id : String) (m : Message) (r : Except TransportError Unit)
      (h : t.sendTo? id m = some (r, t')) : Step t t'
  | taken {t t' : Tcp} (e : TransportEvent) (h : t.take? = some (e, t')) : Step t t'

/-- The connections that a node can come to have. -/
inductive Reachable (self : Identity) : Tcp → Prop where
  | new : Reachable self (.new self)
  | step {t t' : Tcp} (h : Reachable self t) (s : Step t t') : Reachable self t'

end Tcp

end Fleet
