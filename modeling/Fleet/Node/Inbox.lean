import Fleet.Node.Dispatch

/-!
# Working through inbound queues

The task of a queue takes up one message after another; a message is taken up only when the work on
the one before has ended.

## Main definitions

* `Site.drainStep` — the next step on a queue.
-/

namespace Fleet

variable {σ : Type} [Transport σ]

/-- The next step on a queue. -/
def Site.drainStep (s : Site σ) (queue : Nat) : Site σ :=
  match s.node.inbound.queues.get? queue with
  | none => s
  | some q =>
    match q.current with
    | none => { s with node := { s.node with inbound := s.node.inbound.startNext queue .opening } }
    | some .done =>
      { s with node := { s.node with inbound := s.node.inbound.setCurrent queue none } }
    | some d =>
      let (d, s) := d.step s
      { s with node := { s.node with inbound := s.node.inbound.setCurrent queue (some d) } }

/-- Whether there is something to do on a queue. -/
def Node.canDrain (n : Node) (noticed : Nat) (queue : Nat) : Bool :=
  match n.inbound.queues.get? queue with
  | none => false
  | some q =>
    match q.current with
    | none => !q.waiting.isEmpty
    | some .done => true
    | some d => d.canStep n noticed

end Fleet
