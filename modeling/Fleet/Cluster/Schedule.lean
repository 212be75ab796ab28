import Fleet.Cluster

/-!
# Schedules

One thread serves all tasks.  Those that may go on are served in the order in which they came to be
able to, each until it has to wait.  Time goes by only when nothing else is left to do; then the
deadlines that have passed are noticed, the earliest first.

## Main definitions

* `Cluster.wake` — noting which tasks may go on by now.
* `Cluster.settle` — serving all tasks until each of them waits.
* `Cluster.elapse`, `Cluster.advance` — letting time go by.
* `Cluster.spawn`, `Cluster.collect` — giving a job to a node, and its result.
-/

namespace Fleet.Cluster

variable {σ : Type}

/-- The tasks of the node at a place. -/
def tasksOf (place : Nat) (s : Station) : List Task :=
  (if s.follower.isSome then [.follow place] else []) ++
    (s.node.inbound.queues.keys.map fun q => .drain place q) ++
    (List.range s.publishers.length).map fun k => .publish place k

/-- All tasks. -/
def tasks (w : Cluster σ) : List Task :=
  w.jobs.keys.map .job ++ w.stations.zipIdx.flatMap fun (s, place) => tasksOf place s

variable [Transport σ]

/-- Notes which tasks may go on by now, but for one that is being served. -/
def wake (w : Cluster σ) (served : Option Task := none) : Cluster σ :=
  let woken := w.tasks.filter fun t => w.canStep t && t ∉ w.ready && some t ≠ served
  { w with ready := w.ready ++ woken }

/-- Serves a task until it has to wait, or for so many steps. -/
def serve (t : Task) : Nat → Cluster σ → Cluster σ
  | 0, w => w
  | steps + 1, w => if w.canStep t then serve t steps ((w.step t).wake (some t)) else w

/-- The steps after which a task, and the tasks after which a cluster, is taken to never come to
rest. -/
def patience : Nat := 1000000

/-- Serves the tasks that may go on, so many of them. -/
def serveAll : Nat → Cluster σ → Cluster σ
  | 0, w => w
  | turns + 1, w =>
    match w.ready with
    | [] => w
    | t :: rest => serveAll turns (serve t patience { w with ready := rest })

/-- Serves all tasks until each of them waits. -/
def settle (w : Cluster σ) : Cluster σ := serveAll patience w.wake

/-- When the next deadline of a task is. -/
def deadline (w : Cluster σ) : Task → Nat
  | .job n => ((w.jobs.get? n).bind fun j => j.work.deadline?).getD 0
  | .drain place queue => Option.getD (do
      let station ← w.stations[place]?
      let q ← station.node.inbound.queues.get? queue
      (← q.current).deadline?) 0
  | .follow _ => 0
  | .publish place k => Option.getD (do
      let station ← w.stations[place]?
      (← station.publishers[k]?).due) 0

/-- Lets time go by: tasks that may go on are served under the new time, and then the deadlines that
have passed are noticed. -/
def elapse (w : Cluster σ) (millis : Nat) : Cluster σ :=
  let w := serveAll patience { w with clock := w.clock + millis }
  let w := { w with noticed := w.clock }
  let woken := w.tasks.filter fun t => w.canStep t && t ∉ w.ready
  { w with ready := w.ready ++ woken.mergeSort fun a b => w.deadline a ≤ w.deadline b }

/-- Lets time go by and serves all tasks. -/
def advance (w : Cluster σ) (millis : Nat) : Cluster σ := (w.elapse millis).settle

/-- Gives a job to the node at a place. -/
def spawn (w : Cluster σ) (station : Nat) (work : Work) : Nat × Cluster σ :=
  let n := w.nextJob
  let stations := match work with
    | .creation _ => w.stations.modify station fun s =>
        { s with node := { s.node with creations := s.node.creations + 1 } }
    | _ => w.stations
  (n, { w with jobs := w.jobs.insert n ⟨station, work⟩, nextJob := n + 1, stations }.wake)

/-- Takes out the jobs that have ended, in the order of their numbers. -/
def collect (w : Cluster σ) : List (Nat × Work) × Cluster σ :=
  let ended := w.jobs.entries.filter fun e => e.2.work.ended
  (ended.map fun e => (e.1, e.2.work),
    { w with jobs := ended.foldl (fun jobs e => jobs.erase e.1) w.jobs })

/-- Adds a node. -/
def addStation (w : Cluster σ) (s : Station) : Nat × Cluster σ :=
  (w.stations.length, { w with stations := w.stations ++ [s] }.wake)

/-- Changes the node at a place and its standing tasks. -/
def modifyStation (w : Cluster σ) (place : Nat) (f : Station → Station) : Cluster σ :=
  { w with stations := w.stations.modify place f }.wake

/-- Gives the standing tasks of a node a signal. -/
def signal (w : Cluster σ) (place : Nat) (stop : Bool) : Cluster σ :=
  w.modifyStation place fun s => { s with signals := s.signals + 1, stopping := stop }

/-- Starts to report the load of a node at intervals. -/
def startPublisher (w : Cluster σ) (place interval : Nat) : Cluster σ :=
  w.modifyStation place fun s =>
    { s with publishers := s.publishers ++ [{ interval, seen := s.signals }] }

end Fleet.Cluster
