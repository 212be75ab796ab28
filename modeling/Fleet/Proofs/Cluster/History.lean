import Fleet.Cluster.Schedule
import Fleet.Proofs.Instant
import Fleet.Proofs.Node.Moves
import Fleet.Proofs.Transport.Faithful

/-!
# Histories of clusters

A history is a cluster with notes of what its nodes have done, the newest first: who created
services, which queries were sent, taken up, answered and returned, and where services were started.
The notes of a step are read off the states before and after it; nothing depends on them.

A history goes on when a task takes its step, when a caller gives a node something to do, when a
node joins, or when the rest of the world moves: time goes by, links fail, messages are lost, and
what nodes know of each other changes.
-/

namespace Fleet

/-- Who is behind something that happens. -/
inductive Cause where
  /-- A call that creates a service, by the number of its job. -/
  | call (n : Nat)
  /-- Another job. -/
  | user (n : Nat)
  /-- Work on a query. -/
  | query (id : Uuid)
  | other
deriving DecidableEq

/-- The cause of what is done about a message. -/
def Message.cause (m : Message) : Cause :=
  if m.query then .query (m.correlation.getD .nil) else .other

/-- What a node has done. -/
inductive Note where
  /-- A caller asked a node to create a service. -/
  | called (n : Nat) (node : String) (spec : ServiceSpec)
  /-- A node read who the head is, to decide where a request goes. -/
  | read (cause : Cause) (node head : String)
  /-- A node chose, as the head, where a request goes; none if there is no candidate. -/
  | chose (cause : Cause) (node : String) (chosen : Option String)
  /-- A node entered a query to a connection and is about to write it. -/
  | asked (cause : Cause) (node : String) (id : Uuid) (target : String) (m : Message)
  /-- A node took a query up. -/
  | taken (node : String) (id : Uuid)
  /-- A listener answered a query. -/
  | set (id : Uuid) (content : Bytes)
  | started (cause : Cause) (node : String) (s : Service)
  /-- A query returned on the node that sent it. -/
  | returned (cause : Cause) (node : String) (id : Uuid) (result : Option Message)
  /-- A call that creates a service returned. -/
  | concluded (n : Nat) (result : Except CreateError Service)
deriving DecidableEq

/-! ### What tasks work on -/

/-- The query that a creation waits for. -/
def Creation.query? : Creation → Option Query
  | .asking _ q => some q
  | _ => none

/-- What a queue of a node is busy with. -/
def Node.current? (n : Node) (queue : Nat) : Option Dispatch :=
  (n.inbound.queues.get? queue).bind (·.current)

/-- The creation that a listener waits for. -/
def Dispatch.creation? : Dispatch → Option Creation
  | .placing _ _ c _ => some c
  | _ => none

/-- The cause of what is done about a message. -/
def Dispatch.cause (d : Dispatch) : Cause := (d.event?.map (·.message.cause)).getD .other

/-- The id of a query that was entered and has not returned. -/
def Query.id? : Query → Option Uuid
  | .writing id .. | .waiting id _ | .overdue id => some id
  | _ => none

namespace Work

def query? : Work → Option Query
  | .query q => some q
  | .creation c => c.query?
  | .dispatch d => d.creation?.bind Creation.query?

def creation? : Work → Option Creation
  | .creation c => some c
  | .dispatch d => d.creation?
  | .query _ => none

def event? : Work → Option Event
  | .dispatch d => d.event?
  | _ => none

/-- The cause of what a job does. -/
def cause (n : Nat) : Work → Cause
  | .query _ => .user n
  | .creation _ => .call n
  | .dispatch d => d.cause

end Work

/-! ### The notes of a step -/

/-- The note on the progress of a query. -/
def Query.notes (cause : Cause) (node : String) : Query → Query → List Note
  | .opening .., .writing id target m _ => [.asked cause node id target m]
  | q, .done (.ok r) => (q.id?.map fun id => .returned cause node id r).toList
  | _, _ => []

/-- The note on the end of a call. -/
def Creation.notes (n : Nat) : Creation → Creation → List Note
  | .done _, _ => []
  | _, .done r => [.concluded n r]
  | _, _ => []

/-- The note on an event that was answered. -/
def Event.notes (e e' : Event) : List Note :=
  match e.message.cause, e.response, e'.response with
  | .query id, none, some content => [.set id content]
  | _, _, _ => []

@[simp] theorem Event.notes_self (e : Event) : e.notes e = [] := by
  rw [notes]
  split
  · next hnone hsome =>
    rw [hnone] at hsome
    cases hsome
  · rfl

/-- The services of one ledger that another one does not have. -/
def Ledger.additions (l l' : Ledger) : List Service :=
  (l'.services.entries.filter fun e => e ∉ l.services.entries).map Prod.snd

/-- The note on what a node sees of the others in a step of a creation. -/
def Creation.sight (cause : Cause) (n : Node) : Creation → List Note
  | .routing spec => if spec.fault? = none then [.read cause n.id n.roster.head.id] else []
  | .choosing spec => [.chose cause n.id ((n.roster.select spec.demand).map (·.id))]
  | _ => []

theorem Creation.sight_of_decided {cause : Cause} {n : Node} {c : Creation}
    (h : c.undecided? = none) : c.sight cause n = [] := by
  cases c with
  | routing | choosing => cases h
  | placing | asking | done => rfl

theorem Creation.mem_sight {cause : Cause} {n : Node} {c : Creation} {x : Note}
    (h : x ∈ c.sight cause n) :
    (∃ head, x = .read cause n.id head) ∨ ∃ chosen, x = .chose cause n.id chosen := by
  cases c with
  | routing spec =>
    rw [sight] at h
    split at h
    · exact .inl ⟨_, List.mem_singleton.1 h⟩
    · cases h
  | choosing spec => exact .inr ⟨_, List.mem_singleton.1 h⟩
  | placing | asking | done => cases h

namespace Work

/-- The note on the end of a call in a step of its job. -/
def conclusion : Cause → Work → Work → List Note
  | .call n, .creation c, .creation c' => c.notes n c'
  | _, _, _ => []

/-- The note on an answer that a listener gives in a step. -/
def answers (work work' : Work) : List Note :=
  match work.event?, work'.event? with
  | some e, some e' => e.notes e'
  | _, _ => []

/-- The note on a query in a step. -/
def progress (cause : Cause) (node : String) (work work' : Work) : List Note :=
  match work.query?, work'.query? with
  | some q, some q' => q.notes cause node q'
  | _, _ => []

/-- The note on what a node sees of the others in a step. -/
def sight (cause : Cause) (n : Node) (work : Work) : List Note :=
  (work.creation?.map fun c => c.sight cause n).getD []

theorem mem_sight {cause : Cause} {n : Node} {work : Work} {x : Note}
    (h : x ∈ work.sight cause n) :
    (∃ head, x = .read cause n.id head) ∨ ∃ chosen, x = .chose cause n.id chosen := by
  rw [sight] at h
  cases hc : work.creation? with
  | none =>
    rw [hc] at h
    cases h
  | some c =>
    rw [hc] at h
    exact Creation.mem_sight h

/-- The notes of a step on a node. -/
def notes (cause : Cause) (n n' : Node) (work work' : Work) : List Note :=
  conclusion cause work work' ++ answers work work' ++
    (n.ledger.additions n'.ledger).map (.started cause n.id) ++
      progress cause n.id work work' ++ work.sight cause n

end Work

/-- The note on a message that is taken up. -/
def Cause.taken (node : String) : Cause → List Note
  | .query id => [.taken node id]
  | _ => []

namespace Cluster

variable {σ : Type}

/-- The notes of what a task did from one state to the next. -/
def notes (w w' : Cluster σ) : Task → List Note
  | .job n =>
    match w.jobs.get? n, w'.jobs.get? n with
    | some j, some j' =>
      match w.stations[j.station]?, w'.stations[j.station]? with
      | some s, some s' => j.work.notes (j.work.cause n) s.node s'.node j'.work
      | _, _ => []
    | _, _ => []
  | .drain place queue =>
    match w.stations[place]?, w'.stations[place]? with
    | some s, some s' =>
      match s.node.current? queue, s'.node.current? queue with
      | none, some d => d.cause.taken s.node.id
      | some d, some d' => (Work.dispatch d).notes d.cause s.node s'.node (.dispatch d')
      | _, _ => []
    | _, _ => []
  | .follow _ | .publish .. => []

end Cluster

/-- A cluster and what its nodes have done. -/
structure History (σ : Type) where
  cluster : Cluster σ
  notes : List Note

/-! ### How a history goes on -/

/-- What may change at a node between two steps of its tasks: what it knows of others, services that
are removed, its signals and publishers, the order in which it meets properties, and its listeners
as far as they are allowed to. -/
structure Station.Drift (P : Listeners Handler → Prop) (s s' : Station) : Prop where
  id : s'.node.id = s.node.id
  self : s'.node.roster.self.available = true
  host : s'.node.ledger.node = s.node.ledger.node
  services : ∀ e ∈ s'.node.ledger.services.entries, e ∈ s.node.ledger.services.entries
  listeners : P s'.node.messenger.listeners
  pending : s'.node.messenger.pending = s.node.messenger.pending
  replies : s'.node.messenger.replies = s.node.messenger.replies
  inbound : s'.node.inbound = s.node.inbound
  mailbox : s'.follower.map (·.mailbox) = s.follower.map (·.mailbox)

variable {σ : Type} [FaithfulTransport σ]

/-- What may change in a cluster between two steps of its tasks. -/
structure Cluster.Drift (P : Listeners Handler → Prop) (w w' : Cluster σ) : Prop where
  stations : List.Forall₂ (Station.Drift P) w.stations w'.stations
  links : FaithfulTransport.Weakens w.links w'.links
  jobs : w'.jobs = w.jobs
  nextJob : w'.nextJob = w.nextJob
  drawn : w'.drawn = w.drawn
  now : w'.now.Regular

/-- A node as it joins: nothing has come to it yet, and nobody else has its id or its mailbox. -/
structure Station.Fresh (P : Listeners Handler → Prop) (w : Cluster σ) (links : σ) (s : Station) :
    Prop where
  id : ∀ s' ∈ w.stations, s'.node.id ≠ s.node.id
  self : s.node.roster.self.available = true
  host : s.node.ledger.node = s.node.id
  services : s.node.ledger.services = .empty
  listeners : P s.node.messenger.listeners
  pending : s.node.messenger.pending = .empty
  replies : s.node.messenger.replies = .empty
  inbound : s.node.inbound = .empty
  transit : FaithfulTransport.transit links ≤ FaithfulTransport.transit w.links
  others : ∀ s' ∈ w.stations, ∀ f, s'.follower = some f → ∀ id,
    FaithfulTransport.box? links id = some f.mailbox →
      FaithfulTransport.box? w.links id = some f.mailbox
  mailbox : ∀ f, s.follower = some f →
    (∀ m, (f.mailbox, m) ∉ FaithfulTransport.transit links) ∧
      ∀ id, FaithfulTransport.box? links id = some f.mailbox → id = s.node.id

namespace History

/-- The ways in which a history goes on. -/
inductive Next (P : Listeners Handler → Prop) : History σ → History σ → Prop
  /-- A task takes its step. -/
  | task (h : History σ) (t : Task) :
      Next P h ⟨h.cluster.step t, h.cluster.notes (h.cluster.step t) t ++ h.notes⟩
  /-- A caller asks a node to create a service. -/
  | create (h : History σ) (place : Nat) (station : Station)
      (hplace : h.cluster.stations[place]? = some station) (spec : ServiceSpec) :
      Next P h ⟨(h.cluster.spawn place (.creation (.routing spec))).2,
        .called h.cluster.nextJob station.node.id spec :: h.notes⟩
  /-- A caller has a node send a query. -/
  | ask (h : History σ) (place : Nat) (station : Station)
      (hplace : h.cluster.stations[place]? = some station) (m : Message) (timeout : Nat) :
      Next P h ⟨(h.cluster.spawn place (.query (.opening m timeout))).2, h.notes⟩
  /-- A caller has a node send a plain message. -/
  | tell (h : History σ) (place : Nat) (station : Station)
      (hplace : h.cluster.stations[place]? = some station) (m : Message) (hquery : m.query = false)
      (hplain : m.correlation = none) (delivered : Nat) (w : Cluster σ)
      (hact : h.cluster.act place (·.send m) = some (delivered, w)) : Next P h ⟨w, h.notes⟩
  /-- A caller has a node start a service itself. -/
  | start (h : History σ) (place : Nat) (spec : ServiceSpec) (station : Station)
      (r : Except LedgerError Service) (w : Cluster σ)
      (hplace : h.cluster.stations[place]? = some station)
      (hact : h.cluster.act place (Site.start · spec) = some (r, w)) :
      Next P h ⟨w, r.toOption.toList.map (.started .other station.node.id) ++ h.notes⟩
  /-- A caller takes the result of a job. -/
  | collect (h : History σ) (n : Nat)
      (hended : ∀ j, h.cluster.jobs.get? n = some j → j.work.ended = true) :
      Next P h ⟨{ h.cluster with jobs := h.cluster.jobs.erase n }, h.notes⟩
  /-- The rest of the world moves. -/
  | drift (h : History σ) (w : Cluster σ) (hdrift : h.cluster.Drift P w) : Next P h ⟨w, h.notes⟩
  /-- A node joins. -/
  | join (h : History σ) (links : σ) (s : Station) (hfresh : s.Fresh P h.cluster links) :
      Next P h ⟨{ h.cluster with links, stations := h.cluster.stations ++ [s] }, h.notes⟩

/-- The histories of clusters that start without nodes and with nothing in transit. -/
inductive Reachable (P : Listeners Handler → Prop) : History σ → Prop
  | empty (w : Cluster σ) (hstations : w.stations = []) (hjobs : w.jobs = .empty)
      (htransit : FaithfulTransport.transit w.links = 0) (hnow : w.now.Regular) :
      Reachable P ⟨w, []⟩
  | next {h h' : History σ} (hr : Reachable P h) (hnext : Next P h h') : Reachable P h'

/-- A history in which tasks take their steps one after another. -/
def run (h : History σ) (tasks : List Task) : History σ :=
  tasks.foldl (fun h t => ⟨h.cluster.step t, h.cluster.notes (h.cluster.step t) t ++ h.notes⟩) h

theorem Reachable.run {P : Listeners Handler → Prop} {h : History σ} (hr : Reachable P h)
    (tasks : List Task) : Reachable P (h.run tasks) := by
  induction tasks generalizing h with
  | nil => exact hr
  | cons t rest ih => exact ih (.next hr (.task h t))

/-- A history in which a caller asks a node to create a service. -/
def call (h : History σ) (place : Nat) (spec : ServiceSpec) : History σ :=
  match h.cluster.stations[place]? with
  | some station => ⟨(h.cluster.spawn place (.creation (.routing spec))).2,
      .called h.cluster.nextJob station.node.id spec :: h.notes⟩
  | none => h

theorem Reachable.call {P : Listeners Handler → Prop} {h : History σ} (hr : Reachable P h)
    (place : Nat) (spec : ServiceSpec) : Reachable P (h.call place spec) := by
  rw [History.call]
  split
  · next station hplace => exact .next hr (.create h place station hplace spec)
  · exact hr

end History

end Fleet
