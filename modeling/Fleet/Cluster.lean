import Fleet.Node.Membership

/-!
# Clusters

Nodes run side by side.  The tasks of a node are the jobs that callers have given it, one task for
each inbound queue, one that follows the events in its mailbox, and publishers that report its load
at intervals.  Whether a task may go on is seen from the state alone, and which of those that may
takes its next step is open.

## Main definitions

* `Cluster` — nodes, connections, jobs and clocks.
* `Task` — the name of a task.
* `Cluster.canStep`, `Cluster.step` — whether a task may go on, and its next step.
-/

namespace Fleet

/-- A job that a caller has given to a node. -/
inductive Work where
  | query (q : Query)
  | creation (c : Creation)
  | dispatch (d : Dispatch)

/-- A job and the place of the node that does it. -/
structure Job where
  station : Nat
  work : Work

/-- A task that reports the load of a node at intervals. -/
structure Publisher where
  /-- The milliseconds between two reports. -/
  interval : Nat
  /-- When the next report is due; none before the first step. -/
  due : Option Nat := none
  /-- The number of signals that were looked at. -/
  seen : Nat
  running : Bool := true

/-- A task that follows the events of a node. -/
structure Follower where
  mailbox : Nat
  /-- The number of signals that were looked at. -/
  seen : Nat := 0
  running : Bool := true

/-- A node and its standing tasks. -/
structure Station where
  node : Node
  follower : Option Follower := none
  publishers : List Publisher := []
  /-- The number of signals given so far. -/
  signals : Nat := 0
  /-- Whether the last signal was to stop. -/
  stopping : Bool := false

/-- The name of a task; nodes, queues and publishers are named by their places. -/
inductive Task where
  | job (n : Nat)
  | drain (station queue : Nat)
  | follow (station : Nat)
  | publish (station publisher : Nat)
deriving DecidableEq

/-- Nodes that run side by side. -/
structure Cluster (σ : Type) where
  links : σ
  stations : List Station := []
  jobs : Table Nat Job := .empty
  /-- The number of the next job. -/
  nextJob : Nat := 0
  /-- Tasks that may go on, in the order in which they came to be able to. -/
  ready : List Task := []
  drawn : Nat := 0
  calls : List Call := []
  clock : Nat := 0
  noticed : Nat := 0
  now : Instant
  /-- The reading of the machine's processors. -/
  cpu : Binary64

namespace Work

/-- Whether a job can go on. -/
def canStep (node : Node) (noticed : Nat) : Work → Bool
  | .query q => q.canStep node noticed
  | .creation c => c.canStep node noticed
  | .dispatch d => d.canStep node noticed

/-- Whether a job has ended. -/
def ended : Work → Bool
  | .query (.done _) | .creation (.done _) | .dispatch .done => true
  | _ => false

/-- The next step of a job. -/
def step {σ : Type} [Transport σ] (s : Site σ) : Work → Work × Site σ
  | .query q => let (q, s) := q.step s; (.query q, s)
  | .creation c => let (c, s) := c.step s; (.creation c, s)
  | .dispatch d => let (d, s) := d.step s; (.dispatch d, s)

/-- When the time of the query that a job waits for is over. -/
def deadline? : Work → Option Nat
  | .query q => q.deadline?
  | .creation c => c.deadline?
  | .dispatch d => d.deadline?

end Work

namespace Cluster

variable {σ : Type}

/-- The node at a place, as a task works on it. -/
def site (w : Cluster σ) (s : Station) : Site σ :=
  { node := s.node, links := w.links, drawn := w.drawn, calls := w.calls, clock := w.clock,
    noticed := w.noticed, now := w.now }

/-- Puts back what a task has worked on. -/
def put (w : Cluster σ) (place : Nat) (station : Station) (s : Site σ) : Cluster σ :=
  { w with
    links := s.links
    drawn := s.drawn
    calls := s.calls
    stations := w.stations.set place { station with node := s.node } }

/-- Lets a node do something. -/
def act {α : Type} (w : Cluster σ) (place : Nat) (f : Site σ → α × Site σ) :
    Option (α × Cluster σ) :=
  w.stations[place]?.map fun station =>
    let (a, s) := f (w.site station)
    (a, w.put place station s)

variable [Transport σ]

/-- Whether the task that follows events has something to do. -/
def canFollow (w : Cluster σ) (station : Station) : Bool :=
  match station.follower with
  | none => false
  | some f => f.running &&
      ((Transport.take? w.links f.mailbox).isSome || f.seen ≠ station.signals ||
        Transport.ended w.links f.mailbox)

/-- Whether a publisher has something to do. -/
def canPublish (w : Cluster σ) (station : Station) (p : Publisher) : Bool :=
  p.running && (p.seen ≠ station.signals ||
    match p.due with
    | none => true
    | some due => due ≤ w.noticed)

/-- Whether a task may go on. -/
def canStep (w : Cluster σ) : Task → Bool
  | .job n =>
    match w.jobs.get? n with
    | none => false
    | some j =>
      match w.stations[j.station]? with
      | none => false
      | some station => j.work.canStep station.node w.noticed
  | .drain place queue =>
    match w.stations[place]? with
    | none => false
    | some station => station.node.canDrain w.noticed queue
  | .follow place =>
    match w.stations[place]? with
    | none => false
    | some station => w.canFollow station
  | .publish place k =>
    match w.stations[place]? with
    | none => false
    | some station =>
      match station.publishers[k]? with
      | none => false
      | some p => w.canPublish station p

/-- Takes note of the end of a job: a creation that has ended no longer keeps start requests
served. -/
def retire (before after : Work) (s : Site σ) : Site σ :=
  match before, after with
  | .creation _, .creation (.done _) =>
    if before.ended then s
    else { s with node := { s.node with creations := s.node.creations - 1 } }
  | _, _ => s

/-- The next step of a job. -/
def stepJob (w : Cluster σ) (n : Nat) (j : Job) (station : Station) : Cluster σ :=
  let (work, s) := j.work.step (w.site station)
  let w := w.put j.station station (retire j.work work s)
  { w with jobs := w.jobs.insert n { j with work } }

/-- The next step of the task that follows events: an event is handled before a signal is looked at.
The task ends with a signal to stop, or when nothing will come any more, and stops receiving. -/
def stepFollower (w : Cluster σ) (place : Nat) (station : Station) (f : Follower) : Cluster σ :=
  match Transport.take? w.links f.mailbox with
  | some (e, links) =>
    let w := { w with links }
    w.put place station ((w.site station).handle e)
  | none =>
    let keep (links : σ) (running : Bool) : Cluster σ :=
      let f := { f with seen := station.signals, running }
      { w with links, stations := w.stations.set place { station with follower := some f } }
    if f.seen ≠ station.signals && !station.stopping then keep w.links true
    else keep (Transport.hangUp w.links f.mailbox) false

/-- The next step of a publisher: a report that is due goes out before a signal is looked at. -/
def stepPublisher (w : Cluster σ) (place k : Nat) (station : Station) (p : Publisher) :
    Cluster σ :=
  let keep (w : Cluster σ) (station : Station) (p : Publisher) : Cluster σ :=
    { w with
      stations := w.stations.set place { station with publishers := station.publishers.set k p } }
  match p.due with
  | none => keep w station { p with due := some w.clock }
  | some due =>
    if due ≤ w.noticed then
      let (_, s) := (w.site station).publish w.cpu
      keep (w.put place station s) { station with node := s.node }
        { p with due := some (due + p.interval) }
    else
      keep w station { p with seen := station.signals, running := !station.stopping }

/-- The next step of a task; a task that may not go on does nothing. -/
def step (w : Cluster σ) (t : Task) : Cluster σ :=
  if w.canStep t then
    match t with
    | .job n =>
      match w.jobs.get? n with
      | none => w
      | some j =>
        match w.stations[j.station]? with
        | none => w
        | some station => w.stepJob n j station
    | .drain place queue =>
      match w.act place fun s => ((), s.drainStep queue) with
      | none => w
      | some (_, w) => w
    | .follow place =>
      match w.stations[place]? with
      | none => w
      | some station =>
        match station.follower with
        | none => w
        | some f => w.stepFollower place station f
    | .publish place k =>
      match w.stations[place]? with
      | none => w
      | some station =>
        match station.publishers[k]? with
        | none => w
        | some p => w.stepPublisher place k station p
  else w

end Cluster

end Fleet
