import Fleet.Table
import Fleet.Wire.Message

/-!
# Inbound queues

Messages that are no responses wait for their turn, those of one sender in one queue, and each queue
is worked on by a task of its own, one message after another.  When a sender goes away its queue is
closed: what waits there is still worked on, but the sender's next message opens a new queue.

## Main definitions

* `Delivery` — a message that has arrived, with the ticket for answering it.
* `Inbound` — the queues of a node.
* `Inbound.push`, `Inbound.close`, `Inbound.startNext`, `Inbound.setCurrent` — the operations.
-/

namespace Fleet

/-- A message that has arrived.  All copies of it share one ticket, and who takes the ticket first
has the right to answer. -/
structure Delivery where
  message : Message
  ticket : Nat

/-- A queue: what waits, and what is being done about the message taken last. -/
structure Inbound.Queue (ω : Type) where
  sender : String
  waiting : List Delivery
  current : Option ω

/-- The queues of a node, by number; the open ones also by sender. -/
structure Inbound (ω : Type) where
  bySender : Table String Nat
  queues : Table Nat (Inbound.Queue ω)
  /-- The number of the next queue. -/
  next : Nat

namespace Inbound

variable {ω : Type}

/-- No queues. -/
def empty : Inbound ω := ⟨.empty, .empty, 0⟩

/-- Puts a message at the end of a queue. -/
def Queue.push (q : Queue ω) (d : Delivery) : Queue ω := { q with waiting := q.waiting ++ [d] }

/-- Puts a message into its sender's open queue, opening one if there is none. -/
def push (b : Inbound ω) (d : Delivery) : Inbound ω :=
  let sender := d.message.sender
  match b.bySender.get? sender with
  | some n => { b with queues := b.queues.modify n (·.push d) }
  | none =>
    { bySender := b.bySender.insert sender b.next
      queues := b.queues.insert b.next ⟨sender, [d], none⟩
      next := b.next + 1 }

/-- Closes a sender's queue; tells whether there was one. -/
def close (b : Inbound ω) (sender : String) : Bool × Inbound ω :=
  (b.bySender.contains sender, { b with bySender := b.bySender.erase sender })

/-- Takes the next message of a queue up with some work. -/
def Queue.startNext (q : Queue ω) (work : Delivery → ω) : Queue ω :=
  match q.waiting with
  | [] => q
  | d :: rest => { q with waiting := rest, current := some (work d) }

/-- Takes the next message of a queue up with some work. -/
def startNext (b : Inbound ω) (n : Nat) (work : Delivery → ω) : Inbound ω :=
  { b with queues := b.queues.modify n (·.startNext work) }

/-- Sets what is being done in a queue. -/
def setCurrent (b : Inbound ω) (n : Nat) (work : Option ω) : Inbound ω :=
  { b with queues := b.queues.modify n ({ · with current := work }) }

end Inbound

end Fleet
