import Fleet.Json.Reader
import Fleet.Json.Writer
import Fleet.Node.Query
import Fleet.Service.Encoding

/-!
# Creating services

A node that is not the head hands a request to the head.  The head starts the service itself or has
one other node start it.  A node that was asked as head never hands the request on, even if another
node is the head by then, so a request goes over at most two other nodes.

The head is read, the head's own load is refreshed and a node is chosen one after another, and what
the node knows of others may change in between.

## Main definitions

* `Route`, `Node.choose` — where a request goes from the head.
* `Node.headRoute`, `Node.route` — where a request goes from a node whose view stays as it is.
* `Creation.step` — the next step of a creation.
-/

namespace Fleet

/-- Where a request goes. -/
inductive Route where
  /-- This node starts the service. -/
  | here
  /-- This node is the head and has chosen another one. -/
  | remote (m : Member)
  /-- Another node is the head. -/
  | forward (head : Member)

namespace Node

/-- Raises the memory in the node's own load to what is reserved by now. -/
def refreshLoad (n : Node) (now : Instant) : Node :=
  match n.roster.self.load with
  | none => n
  | some l =>
    if n.ledger.reserved ≤ l.used then n
    else
      match n.roster.report n.id { l with used := n.ledger.reserved, at_ := now } with
      | .ok roster => { n with roster }
      | .error _ => n

/-- The node that the head chooses for a request. -/
def choose (n : Node) (spec : ServiceSpec) : Route :=
  match n.roster.select spec.demand with
  | some m => if m.id = n.id then .here else .remote m
  | none => .here

/-- Where the head sends a request, if nothing else happens. -/
def headRoute (n : Node) (spec : ServiceSpec) (now : Instant) : Route × Node :=
  let n := n.refreshLoad now
  (n.choose spec, n)

/-- Where a node sends a request, if nothing else happens.  The head is read once. -/
def route (n : Node) (spec : ServiceSpec) (now : Instant) : Route × Node :=
  let head := n.roster.head
  if head.id = n.id then n.headRoute spec now else (.forward head, n)

end Node

/-- The bytes of a specification on the wire. -/
def ServiceSpec.bytes (s : ServiceSpec) (o : Properties.Order) : Bytes := (s.toJson o).write

/-- Reads a specification off the wire. -/
def ServiceSpec.ofBytes? (b : Bytes) : Option ServiceSpec := (Json.read? b).bind ofJson?

/-- The bytes of a service on the wire. -/
def Service.bytes (s : Service) : Bytes := s.toJson.write

/-- Reads a service off the wire. -/
def Service.ofBytes? (b : Bytes) : Option Service := (Json.read? b).bind ofJson?

namespace Creation

variable {σ : Type}

/-- Starts the service on this node. -/
def startHere (spec : ServiceSpec) (s : Site σ) : Creation × Site σ :=
  let (r, s) := s.start spec
  (.done (r.mapError .refused), s)

/-- Asks a node on a channel. -/
def ask (channel node : String) (spec : ServiceSpec) (s : Site σ) : Creation :=
  match Message.new? channel s.node.id [.node node] (spec.bytes s.node.order) with
  | .ok m => .asking node (.opening m s.node.messenger.timeout)
  | .error _ => .done (.error (.invalidTarget node))

/-- Goes where a route leads. -/
def follow (spec : ServiceSpec) (s : Site σ) : Route → Creation × Site σ
  | .here => startHere spec s
  | .remote m => (ask startChannel m.id spec s, s)
  | .forward head => (ask placeChannel head.id spec s, s)

/-- Refuses a specification with a fault, else goes on. -/
def check (spec : ServiceSpec) (s : Site σ) (next : Creation × Site σ) : Creation × Site σ :=
  match spec.fault? with
  | some fault => (.done (.error (.refused (.invalid fault))), s)
  | none => next

/-- What the end of a query to a node means. -/
def conclude (node : String) : Except MessengerError (Option Message) → Except CreateError Service
  | .ok (some m) =>
    if m.content.isEmpty then .error (.noResponse node)
    else match Service.ofBytes? m.content with
      | some service => .ok service
      | none => .error .unreadable
  | .ok none => .error (.noResponse node)
  | .error (.invalidTarget ..) => .error (.invalidTarget node)
  | .error (.badMessage _) => .error (.invalidTarget node)
  | .error _ => .error (.noResponse node)

variable [Transport σ]

/-- The next step of a creation; a creation that has ended stays as it is. -/
def step (s : Site σ) : Creation → Creation × Site σ
  | .routing spec => check spec s <|
    let head := s.node.roster.head
    if head.id = s.node.id then (.placing spec, s) else follow spec s (.forward head)
  | .placing spec => check spec s (.choosing spec, { s with node := s.node.refreshLoad s.now })
  | .choosing spec => follow spec s (s.node.choose spec)
  | .asking node (.done r) => (.done (conclude node r), s)
  | .asking node q =>
    let (q, s) := q.step s
    (.asking node q, s)
  | .done r => (.done r, s)

/-- Whether a creation can go on. -/
def canStep (node : Node) (noticed : Nat) : Creation → Bool
  | .routing _ | .placing _ | .choosing _ | .asking _ (.done _) => true
  | .asking _ q => q.canStep node noticed
  | .done _ => false

/-- When the time of the query that a creation waits for is over. -/
def deadline? : Creation → Option Nat
  | .asking _ q => q.deadline?
  | _ => none

end Creation

end Fleet
