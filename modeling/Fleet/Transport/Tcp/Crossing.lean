import Fleet.Transport.Tcp

/-!
# Connections between two nodes

Two nodes that dial each other may come to have more than one connection between them.  What one end
of a connection writes arrives at the other end in order, and an end whose task has ended is closed
for the other end once everything before has arrived.

## Main definitions

* `Crossing` — two nodes and the connections between them.
* `Crossing.crossed` — both have dialled at the same time.
* `Crossing.step?` — a step of a task of one of the nodes, or something that arrives.
-/

namespace Fleet

/-- One of two nodes. -/
inductive Side where
  | left
  | right
deriving DecidableEq

/-- The other one. -/
def Side.other : Side → Side
  | .left => .right
  | .right => .left

/-- A connection between two nodes: its number at each of them, and how much of what each end has
written has arrived; a close counts as one more frame. -/
structure Cable where
  number : Side → Nat
  arrived : Side → Nat

/-- Two nodes and the connections between them. -/
structure Crossing where
  node : Side → Tcp
  cables : List Cable

namespace Crossing

/-- Changes one of the nodes. -/
def withNode (x : Crossing) (s : Side) (t : Tcp) : Crossing :=
  { x with node := fun r => if r = s then t else x.node r }

/-- Opens a connection between the nodes. -/
def connect (x : Crossing) : Crossing :=
  let (n, left) := (x.node .left).establish
  let (m, right) := (x.node .right).establish
  let x := (x.withNode .left left).withNode .right right
  { x with cables := x.cables ++ [⟨fun | .left => n | .right => m, fun _ => 0⟩] }

/-- Both nodes have dialled at the same time, so that there is a connection in each direction. -/
def crossed (left right : Identity) : Crossing :=
  (connect ∘ connect) ⟨fun | .left => .new left | .right => .new right, []⟩

/-- What arrives next from an end of a connection. -/
def nextFrom? (x : Crossing) (s : Side) (c : Cable) : Option Tcp.Arrival := do
  let e ← (x.node s).connections[c.number s]?
  match e.written[c.arrived s]? with
  | some b => some (.frame b)
  | none => if e.phase = .ended ∧ c.arrived s = e.written.length then some .close else none

/-- What happens between two nodes. -/
inductive Happening where
  | task (s : Side) (k : Tcp.Task)
  /-- Something that one node has written arrives at the other one. -/
  | arrival (sender : Side) (cable : Nat)
deriving DecidableEq

/-- The nodes after something has happened, none if it cannot happen. -/
def step? (x : Crossing) : Happening → Option Crossing
  | .task s k => ((x.node s).step? k).map (x.withNode s)
  | .arrival s k => do
    let c ← x.cables[k]?
    let a ← x.nextFrom? s c
    let r := s.other
    let counted := fun c : Cable =>
      { c with arrived := fun q => if q = s then c.arrived q + 1 else c.arrived q }
    some { x.withNode r ((x.node r).arrive (c.number r) a) with
      cables := x.cables.modify k counted }

/-- The nodes after a list of happenings, none if one of them cannot happen. -/
def run? (x : Crossing) : List Happening → Option Crossing
  | [] => some x
  | h :: rest => (x.step? h).bind fun x => x.run? rest

/-- Nothing can happen any more. -/
def Settled (x : Crossing) : Prop := ∀ h, x.step? h = none

end Crossing

end Fleet
