import Fleet.Messenger.Event
import Fleet.Messenger.Inbound
import Fleet.Messenger.Listeners

/-!
# Messengers

A messenger keeps the queries that wait for a response, by correlation id, and the outcome of those
that have got one until the waiting task picks it up.  Whoever takes a query out of the table of
pending ones decides its outcome: a response, the end of its time, or the loss of its target.

## Main definitions

* `Handler` — what a listener does.
* `Messenger` — the state of a messenger.
* `resolve` — the connections that targets stand for.
* `Messenger.openQuery`, `Messenger.complete`, `Messenger.failPending`, `Messenger.takeReply`,
  `Messenger.claimAnswer` — the operations.
-/

namespace Fleet

/-- The milliseconds a query waits unless configured otherwise. -/
def defaultQueryMillis : Nat := 5000

/-- What a listener does with an event. -/
inductive Handler where
  /-- Answers with each content in turn and leaves a record under its label. -/
  | recorder (label : String) (answers : List Bytes)
  /-- Stores the load that a member reports. -/
  | storeLoad
  /-- Starts a service on this node. -/
  | startHere
  /-- Places a service as the head does. -/
  | startAsHead

/-- The outcome of a query. -/
inductive Reply where
  | answer (m : Message)
  /-- The target went away. -/
  | gone

/-- The state of a messenger. -/
structure Messenger where
  listeners : Listeners Handler
  /-- The target of every query that waits for a response. -/
  pending : Table Uuid String
  /-- Outcomes that the waiting tasks have not picked up yet. -/
  replies : Table Uuid Reply
  /-- The tickets of messages that have been answered. -/
  answered : List Nat
  /-- The next ticket. -/
  nextTicket : Nat
  /-- The milliseconds a query waits unless it says otherwise. -/
  timeout : Nat

/-- The connections that one target stands for. -/
def Target.matching (connections : List String) (t : Target) : List String :=
  match t.kind with
  | .node => connections.filter fun c => some c = t.value
  | .service | .group | .all => connections

/-- Adds the texts that are not in a list yet, in their order. -/
def appendNew (known : List String) (texts : List String) : List String :=
  texts.foldl (fun known s => if s ∈ known then known else known ++ [s]) known

/-- The connections that targets stand for, each once, in the order of the targets. -/
def resolve (connections : List String) (targets : List Target) : List String :=
  targets.foldl (fun found t => appendNew found (t.matching connections)) []

namespace Messenger

/-- A messenger with nothing to do. -/
def new (timeout : Nat) : Messenger := ⟨.empty, .empty, .empty, [], 0, timeout⟩

/-- Registers a listener. -/
def listen (m : Messenger) (channel : String) (priority : Int) (h : Handler) : Messenger :=
  { m with listeners := m.listeners.register channel priority h }

/-- Gives a message that has arrived its ticket. -/
def stamp (m : Messenger) (message : Message) : Delivery × Messenger :=
  (⟨message, m.nextTicket⟩, { m with nextTicket := m.nextTicket + 1 })

/-- Notes that a query to a target waits. -/
def openQuery (m : Messenger) (id : Uuid) (target : String) : Messenger :=
  { m with pending := m.pending.insert id target }

/-- Stops waiting for a query. -/
def dropQuery (m : Messenger) (id : Uuid) : Messenger := { m with pending := m.pending.erase id }

/-- Hands an outcome to the task that waits for it. -/
def deliver (m : Messenger) (id : Uuid) (r : Reply) : Messenger :=
  { m with replies := m.replies.insert id r }

/-- Hands a response to the query that waits for it. -/
def complete (m : Messenger) (response : Message) : Except ProtocolError Messenger :=
  match response.correlation with
  | none => .error (.noCorrelation response.channel)
  | some id =>
    if m.pending.contains id then .ok ((m.dropQuery id).deliver id (.answer response))
    else .error (.unknownCorrelation id)

/-- The queries that wait for a node. -/
def waitingFor (m : Messenger) (target : String) : List Uuid :=
  (m.pending.entries.filter fun e => e.2 = target).map Prod.fst

/-- Ends every query that waits for a node, and tells how many there were. -/
def failPending (m : Messenger) (target : String) : Nat × Messenger :=
  let ids := m.waitingFor target
  (ids.length, ids.foldl (fun m id => (m.dropQuery id).deliver id .gone) m)

/-- Picks up the outcome of a query. -/
def takeReply (m : Messenger) (id : Uuid) : Option (Reply × Messenger) :=
  (m.replies.get? id).map fun r => (r, { m with replies := m.replies.erase id })

/-- Takes the right to answer a message; none unless it is a query with a correlation id that has
not been answered. -/
def claimAnswer (m : Messenger) (d : Delivery) : Except ProtocolError Messenger :=
  if !d.message.query then .error (.notQuery d.message.channel)
  else if d.message.correlation.isNone then .error (.noCorrelation d.message.channel)
  else if d.ticket ∈ m.answered then .error (.alreadyAnswered d.message.channel)
  else .ok { m with answered := d.ticket :: m.answered }

end Messenger

end Fleet
