import Fleet.Node.Creation

/-!
# Working on messages

The listeners of a message's channel run one after another.  When they are through, a query is
answered with what they set, or with nothing, so that its sender does not wait for long.

## Main definitions

* `Dispatch.step` — the next step of the work on a message.
-/

namespace Fleet.Dispatch

variable {σ : Type}

/-- Lets a recording listener see an event. -/
def record (label : String) (answers : List Bytes) (e : Event) (s : Site σ) : Event × Site σ :=
  let (call, e) := e.record label answers
  (e, { s with calls := s.calls ++ [call] })

/-- Stores the load in a message as its sender's. -/
def storeLoad (m : Message) (s : Site σ) : Site σ :=
  match (Json.read? m.content).bind Load.ofJson? with
  | none => s
  | some l =>
    match s.node.roster.report m.sender l with
    | .ok roster => s.withRoster roster
    | .error _ => s

/-- The specification in a start request that is served: a query with a specification. -/
def request? (node : Node) (m : Message) : Option ServiceSpec :=
  if node.serves && m.query then ServiceSpec.ofBytes? m.content else none

/-- Answers a start request with the service that was created. -/
def answerWith (e : Event) : Except CreateError Service → Event
  | .ok service => e.tryAnswer service.bytes
  | .error _ => e

/-- Starts the service of a start request on this node. -/
def startHere (e : Event) (s : Site σ) : Event × Site σ :=
  match request? s.node e.message with
  | none => (e, s)
  | some spec =>
    let (r, s) := s.start spec
    (answerWith e (r.mapError .refused), s)

/-- Lets a listener run. -/
def fire (ticket : Nat) (e : Event) (rest : List Handler) (s : Site σ) :
    Handler → Dispatch × Site σ
  | .recorder label answers =>
    let (e, s) := record label answers e s
    (.firing ticket e rest, s)
  | .storeLoad => (.firing ticket e rest, storeLoad e.message s)
  | .startHere =>
    let (e, s) := startHere e s
    (.firing ticket e rest, s)
  | .startAsHead =>
    match request? s.node e.message with
    | none => (.firing ticket e rest, s)
    | some spec =>
      (.placing ticket e (.placing spec) rest,
        { s with node := { s.node with creations := s.node.creations + 1 } })

variable [Transport σ]

/-- The next step of the work on a message; work that has ended stays as it is. -/
def step (s : Site σ) : Dispatch → Dispatch × Site σ
  | .opening d =>
    (.firing d.ticket ⟨d.message, none⟩ (s.node.messenger.listeners.handlers d.message.channel), s)
  | .firing ticket e [] => (if e.message.query then .answering ticket e else .done, s)
  | .firing ticket e (h :: rest) => fire ticket e rest s h
  | .placing ticket e (.done r) rest =>
    (.firing ticket (answerWith e r) rest,
      { s with node := { s.node with creations := s.node.creations - 1 } })
  | .placing ticket e c rest =>
    let (c, s) := c.step s
    (.placing ticket e c rest, s)
  | .answering ticket e => (.done, (s.respond ⟨e.message, ticket⟩ (e.response.getD [])).2)
  | .done => (.done, s)

/-- Whether the work can go on. -/
def canStep (node : Node) (noticed : Nat) : Dispatch → Bool
  | .opening _ | .firing .. | .answering .. | .placing _ _ (.done _) _ => true
  | .placing _ _ c _ => c.canStep node noticed
  | .done => false

/-- When the time of the query that the work waits for is over. -/
def deadline? : Dispatch → Option Nat
  | .placing _ _ c _ => c.deadline?
  | _ => none

end Fleet.Dispatch
