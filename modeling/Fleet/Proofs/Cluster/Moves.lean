import Fleet.Proofs.Cluster.History
import Fleet.Proofs.Node.Moves

/-!
# What the steps of a cluster do

The step of a task is one of a few moves: a job or the work on a message takes its own step, a queue
takes up its next message or puts the last one away, the follower takes an event, or something
happens that moves no message and no query. `Cluster.activity?` is what a task is busy with;
only the activity of the task that moves changes.
-/

namespace Fleet

variable {σ : Type}

/-- A job goes on. -/
inductive Work.Move [Transport σ] (s : Site σ) : Work → Work → Site σ → Prop
  | query {q q' : Query} {s' : Site σ} (hmove : Query.Move s q q' s') :
      Move s (.query q) (.query q') s'
  | creation {c c' : Creation} {s' : Site σ} (hmove : Creation.Move s c c' s') :
      Move s (.creation c) (.creation c') s'
  | dispatch {d d' : Dispatch} {s' : Site σ} (hmove : Dispatch.Move s d d' s') :
      Move s (.dispatch d) (.dispatch d') s'

theorem Work.move_step [Transport σ] (s : Site σ) (work : Work) :
    Move s work (work.step s).1 (work.step s).2 := by
  cases work with
  | query q => exact .query (Query.move_step s q)
  | creation c => exact .creation (Creation.move_step s c)
  | dispatch d => exact .dispatch (Dispatch.move_step s d)

namespace Site

/-- The site after the work in a queue has changed. -/
def setCurrent (s : Site σ) (queue : Nat) (d : Option Dispatch) : Site σ :=
  { s with node := { s.node with inbound := s.node.inbound.setCurrent queue d } }

/-- The site after the next message of a queue was taken up. -/
def takeUp (s : Site σ) (queue : Nat) : Site σ :=
  { s with node := { s.node with inbound := s.node.inbound.startNext queue .opening } }

end Site

namespace Cluster

/-- What the step of a task does to a cluster. -/
inductive Move [Transport σ] (w : Cluster σ) : Task → Cluster σ → Prop
  /-- A job takes its step. -/
  | job {n : Nat} {j : Job} {station : Station} {work : Work} {s : Site σ}
      (hjob : w.jobs.get? n = some j) (hplace : w.stations[j.station]? = some station)
      (hmove : Work.Move (w.site station) j.work work s) :
      Move w (.job n) { w.put j.station station (retire j.work work s) with
        jobs := w.jobs.insert n { j with work } }
  /-- The work on a message takes its step. -/
  | works {place queue : Nat} {station : Station} {q : Inbound.Queue Dispatch} {d d' : Dispatch}
      {s : Site σ} (hplace : w.stations[place]? = some station)
      (hqueue : station.node.inbound.queues.get? queue = some q) (hcurrent : q.current = some d)
      (hmove : Dispatch.Move (w.site station) d d' s) :
      Move w (.drain place queue) (w.put place station (s.setCurrent queue (some d')))
  /-- The work on a message has ended. -/
  | closes {place queue : Nat} {station : Station} {q : Inbound.Queue Dispatch}
      (hplace : w.stations[place]? = some station)
      (hqueue : station.node.inbound.queues.get? queue = some q)
      (hcurrent : q.current = some .done) :
      Move w (.drain place queue) (w.put place station ((w.site station).setCurrent queue none))
  /-- A queue takes up its next message. -/
  | takes {place queue : Nat} {station : Station} {sender : String} {d : Delivery}
      {rest : List Delivery} (hplace : w.stations[place]? = some station)
      (hqueue : station.node.inbound.queues.get? queue = some ⟨sender, d :: rest, none⟩) :
      Move w (.drain place queue) (w.put place station ((w.site station).takeUp queue))
  /-- The follower takes an event. -/
  | follows {place : Nat} {station : Station} {f : Follower} {e : TransportEvent} {links : σ}
      (hplace : w.stations[place]? = some station) (hfollower : station.follower = some f)
      (htake : Transport.take? w.links f.mailbox = some (e, links)) :
      Move w (.follow place)
        (({ w with links }).put place station ((({ w with links }).site station).handle e))
  /-- The follower looks at a signal that it has not seen, or finds that nothing will come any more;
  it may stop receiving. -/
  | looks {place : Nat} {station : Station} {f f' : Follower} {links : σ}
      (hplace : w.stations[place]? = some station) (hfollower : station.follower = some f)
      (hmailbox : f'.mailbox = f.mailbox)
      (hlinks : links = w.links ∨ links = Transport.hangUp w.links f.mailbox)
      (hseen : f'.seen = station.signals)
      (hwakes : f.seen ≠ station.signals ∨ Transport.ended w.links f.mailbox = true) :
      Move w (.follow place) { w with
        links, stations := w.stations.set place { station with follower := some f' } }
  /-- A publisher reports the load of its node. -/
  | reports {place k : Nat} {station : Station} (publishers : List Publisher)
      (hplace : w.stations[place]? = some station) :
      Move w (.publish place k)
        (w.put place { station with publishers } ((w.site station).publish w.cpu).2)
  /-- A publisher looks at a signal or at the clock. -/
  | waits {place k : Nat} {station : Station} (publishers : List Publisher)
      (hplace : w.stations[place]? = some station) :
      Move w (.publish place k)
        { w with stations := w.stations.set place { station with publishers } }
  /-- The task may not go on. -/
  | rests {t : Task} (hstep : w.canStep t = false) : Move w t w

variable [Transport σ] {w : Cluster σ}

private theorem move_drain {place queue : Nat} (hstep : w.canStep (.drain place queue) = true) :
    Move w (.drain place queue) (w.step (.drain place queue)) := by
  rw [step, if_pos hstep]
  simp only [canStep] at hstep
  cases hplace : w.stations[place]? with
  | none => simp [hplace] at hstep
  | some station =>
    simp only [hplace, Node.canDrain] at hstep
    cases hqueue : station.node.inbound.queues.get? queue with
    | none => simp [hqueue] at hstep
    | some q =>
      obtain ⟨sender, waiting, current⟩ := q
      have hqueue' : (w.site station).node.inbound.queues.get? queue =
        some ⟨sender, waiting, current⟩ := hqueue
      simp only [act, hplace, Option.map_some, Site.drainStep, hqueue']
      cases current with
      | none =>
        cases waiting with
        | nil => simp [hqueue] at hstep
        | cons d rest => exact .takes hplace hqueue
      | some d =>
        have hmove := Dispatch.move_step (w.site station) d
        cases d with
        | done => exact .closes hplace hqueue rfl
        | opening | firing | placing | answering => exact .works hplace hqueue rfl hmove

private theorem move_follow {place : Nat} (hstep : w.canStep (.follow place) = true) :
    Move w (.follow place) (w.step (.follow place)) := by
  rw [step, if_pos hstep]
  simp only [canStep] at hstep
  cases hplace : w.stations[place]? with
  | none => simp [hplace] at hstep
  | some station =>
    cases hfollower : station.follower with
    | none => simp [hplace, canFollow, hfollower] at hstep
    | some f =>
      simp only [hfollower, stepFollower]
      cases htake : Transport.take? w.links f.mailbox with
      | some p =>
        obtain ⟨e, links⟩ := p
        exact .follows hplace hfollower htake
      | none =>
        have hwakes : f.seen ≠ station.signals ∨ Transport.ended w.links f.mailbox = true := by
          simp only [hplace, canFollow, hfollower, htake] at hstep
          simpa using (Bool.and_eq_true_iff.1 hstep).2
        simp only
        split
        · exact .looks hplace hfollower rfl (.inl rfl) rfl hwakes
        · exact .looks hplace hfollower rfl (.inr rfl) rfl hwakes

private theorem move_publish {place k : Nat} (hstep : w.canStep (.publish place k) = true) :
    Move w (.publish place k) (w.step (.publish place k)) := by
  rw [step, if_pos hstep]
  simp only [canStep] at hstep
  cases hplace : w.stations[place]? with
  | none => simp [hplace] at hstep
  | some station =>
    simp only [hplace] at hstep
    cases hp : station.publishers[k]? with
    | none => simp [hp] at hstep
    | some p =>
      simp only [hp, stepPublisher]
      split
      · exact .waits _ hplace
      · split
        · next due hdue _ =>
          have hset : ∀ (node : Node) (publishers : List Publisher),
              (w.stations.set place { station with node }).set place
                { station with node, publishers } =
                  w.stations.set place { station with node, publishers } :=
            fun _ _ => List.set_set ..
          simp only [put, hset]
          exact .reports (station.publishers.set k { p with due := some (due + p.interval) }) hplace
        · exact .waits _ hplace

/-- The step of every task is one of the moves. -/
theorem move_step (w : Cluster σ) (t : Task) : Move w t (w.step t) := by
  cases hstep : w.canStep t with
  | false =>
    have hsame : w.step t = w := by simp [step, hstep]
    rw [hsame]
    exact .rests hstep
  | true =>
    cases t with
    | job n =>
      rw [step, if_pos hstep]
      simp only [canStep] at hstep
      cases hjob : w.jobs.get? n with
      | none => simp [hjob] at hstep
      | some j =>
        simp only [hjob] at hstep
        cases hplace : w.stations[j.station]? with
        | none => simp [hplace] at hstep
        | some station =>
          simp only [hplace]
          exact .job hjob hplace (Work.move_step _ _)
    | drain place queue => exact move_drain hstep
    | follow place => exact move_follow hstep
    | publish place k => exact move_publish hstep

end Cluster

end Fleet
