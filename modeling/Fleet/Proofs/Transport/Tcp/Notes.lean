import Fleet.Proofs.Transport.Tcp.Signals

/-!
# Notes about the connections of a node

The events of a node come from the tasks of its connections, in any order. A run is noted down here
connection by connection: what arrives on it, what its task reads, with the ids that are in the
table at that time, and the events that the task sends. What is read and sent in a step is what is
gone from the front of the arrivals, and what has come into the mailbox.

## Main definitions

* `Act`, `act?` — what can happen to a node, with names.
* `Noted` — the runs of a node with the notes about its connections.
* `arrivedOn`, `readOn`, `sentOn` — the notes about one connection.

## Main statements

* `Reachable.noted` — every run can be noted down.
* `Noted.logged` — the events in the notes are those that have come into the mailbox.
-/

namespace Fleet.Tcp

/-! ### Runs with notes -/

/-- Something that happens to a node. -/
inductive Act where
  | task (k : Task)
  | opened
  | arrived (n : Nat) (a : Arrival)
  | expired (n : Nat)
  | broken (n : Nat)
  | sent (id : String) (m : Message)
  | taken

/-- The node after something has happened, none if it cannot happen. -/
def act? (t : Tcp) : Act → Option Tcp
  | .task k => t.step? k
  | .opened => some t.establish.2
  | .arrived n a => if n < t.connections.length then some (t.arrive n a) else none
  | .expired n => some (t.expire n)
  | .broken n => some (t.breakWriter n)
  | .sent id m => (t.sendTo? id m).map (·.2)
  | .taken => t.take?.map (·.2)

/-- An arrival that has been read, and the ids that were in the table then. -/
structure Read where
  arrival : Arrival
  registered : List String
deriving DecidableEq

/-- A note about a connection. -/
inductive Note where
  | arrived (n : Nat) (a : Arrival)
  | read (n : Nat) (r : Read)
  | sent (n : Nat) (e : TransportEvent)

namespace Note

/-- The connection that a note is about. -/
def connection : Note → Nat
  | arrived n _ | read n _ | sent n _ => n

/-- What has arrived. -/
def arrival? : Note → Option Arrival
  | arrived _ a => some a
  | read .. | sent .. => none

/-- What has been read. -/
def read? : Note → Option Read
  | read _ r => some r
  | arrived .. | sent .. => none

/-- The event that has been sent. -/
def event? : Note → Option TransportEvent
  | sent _ e => some e
  | arrived .. | read .. => none

end Note

/-- What has arrived on a connection and has not been read. -/
def waiting (t : Tcp) (n : Nat) : List Arrival := (t.connections[n]?.map (·.arrivals)).getD []

/-- Notes about what the task of a connection reads and sends, with the ids in the table. -/
def taskNotes (n : Nat) (registered : List String) (read : List Arrival)
    (new : List TransportEvent) : List Note :=
  read.map (fun a => .read n ⟨a, registered⟩) ++ new.map (.sent n)

/-- What the task of a connection has read and sent in a step: what is gone from the front of its
arrivals, and what has come into the mailbox. -/
def doings (t : Tcp) (n : Nat) (t' : Tcp) : List Note :=
  taskNotes n t.table.keys
    ((t.waiting n).take ((t.waiting n).length - (t'.waiting n).length))
    (t'.events.drop t.events.length)

/-- The notes about something that happens. -/
def notes (t : Tcp) (t' : Tcp) : Act → List Note
  | .task k => t.doings k.connection t'
  | .arrived n a => [.arrived n a]
  | .opened | .expired _ | .broken _ | .sent .. | .taken => []

/-- The runs of a node with the notes about its connections. -/
inductive Noted (self : Identity) : Tcp → List Note → Prop
  | new : Noted self (.new self) []
  | act {t t' : Tcp} {log : List Note} (h : Noted self t log) (a : Act) (ha : t.act? a = some t') :
      Noted self t' (log ++ t.notes t' a)

/-- The notes about one connection. -/
def about (n : Nat) (log : List Note) : List Note := log.filter (·.connection = n)

/-- What has arrived on a connection. -/
def arrivedOn (n : Nat) (log : List Note) : List Arrival := (about n log).filterMap Note.arrival?

/-- What the task of a connection has read. -/
def readOn (n : Nat) (log : List Note) : List Read := (about n log).filterMap Note.read?

/-- The events that the task of a connection has sent. -/
def sentOn (n : Nat) (log : List Note) : List TransportEvent := (about n log).filterMap Note.event?

theorem Act.step {t t' : Tcp} {a : Act} (h : t.act? a = some t') : Step t t' := by
  cases a with
  | task k => exact .task k h
  | opened =>
    cases h
    exact .opened t
  | arrived n a =>
    rw [act?] at h
    split at h
    · cases h
      exact .arrived t n a
    · cases h
  | expired n =>
    cases h
    exact .expired t n
  | broken n =>
    cases h
    exact .broken t n
  | sent id m =>
    obtain ⟨⟨r, t'⟩, hr, rfl⟩ := Option.map_eq_some_iff.1 h
    exact .sent id m r hr
  | taken =>
    obtain ⟨⟨e, t'⟩, he, rfl⟩ := Option.map_eq_some_iff.1 h
    exact .taken e he

/-- Every step has a name, unless nothing changes. -/
theorem Step.act {t t' : Tcp} (h : Step t t') : t' = t ∨ ∃ a, t.act? a = some t' := by
  cases h with
  | task k h => exact .inr ⟨.task k, h⟩
  | opened => exact .inr ⟨.opened, rfl⟩
  | arrived n a =>
    by_cases hn : n < t.connections.length
    · exact .inr ⟨.arrived n a, if_pos hn⟩
    · exact .inl (modify_of_none _ (List.getElem?_eq_none (Nat.not_lt.1 hn)))
  | expired n => exact .inr ⟨.expired n, rfl⟩
  | broken n => exact .inr ⟨.broken n, rfl⟩
  | sent id m r h => exact .inr ⟨.sent id m, by rw [act?, h]; rfl⟩
  | taken e h => exact .inr ⟨.taken, by rw [act?, h]; rfl⟩

/-- Every run can be noted down. -/
theorem Reachable.noted {self : Identity} {t : Tcp} (h : Reachable self t) :
    ∃ log, Noted self t log := by
  induction h with
  | new => exact ⟨[], .new⟩
  | step _ s ih =>
    obtain ⟨log, hlog⟩ := ih
    rcases s.act with rfl | ⟨a, ha⟩
    · exact ⟨log, hlog⟩
    · exact ⟨_, hlog.act a ha⟩

theorem Noted.reachable {self : Identity} {t : Tcp} {log : List Note} (h : Noted self t log) :
    Reachable self t := by
  induction h with
  | new => exact .new
  | act _ a ha ih => exact ih.step (Act.step ha)

/-! ### Notes about one connection -/

section About

variable {n : Nat} {log new : List Note}

theorem about_append : about n (log ++ new) = about n log ++ about n new := List.filter_append ..

theorem about_eq_nil (h : ∀ note ∈ new, note.connection ≠ n) : about n new = [] :=
  List.filter_eq_nil_iff.2 fun note hnote => by simpa using h note hnote

theorem about_eq_self (h : ∀ note ∈ new, note.connection = n) : about n new = new :=
  List.filter_eq_self.2 fun note hnote => by simpa using h note hnote

theorem arrivedOn_append : arrivedOn n (log ++ new) = arrivedOn n log ++ arrivedOn n new := by
  simp [arrivedOn, about_append]

theorem readOn_append : readOn n (log ++ new) = readOn n log ++ readOn n new := by
  simp [readOn, about_append]

theorem sentOn_append : sentOn n (log ++ new) = sentOn n log ++ sentOn n new := by
  simp [sentOn, about_append]

theorem connection_of_mem_taskNotes {registered : List String} {read : List Arrival}
    {events : List TransportEvent} {note : Note} (h : note ∈ taskNotes n registered read events) :
    note.connection = n := by
  simp only [taskNotes, List.mem_append, List.mem_map] at h
  rcases h with ⟨a, -, rfl⟩ | ⟨e, -, rfl⟩ <;> rfl

theorem about_taskNotes (registered : List String) (read : List Arrival)
    (events : List TransportEvent) :
    about n (taskNotes n registered read events) = taskNotes n registered read events :=
  about_eq_self fun _ => connection_of_mem_taskNotes

theorem arrivedOn_taskNotes (registered : List String) (read : List Arrival)
    (events : List TransportEvent) : arrivedOn n (taskNotes n registered read events) = [] := by
  rw [arrivedOn, about_taskNotes]
  simp [taskNotes, Note.arrival?]

theorem readOn_taskNotes (registered : List String) (read : List Arrival)
    (events : List TransportEvent) :
    readOn n (taskNotes n registered read events) = read.map fun a => ⟨a, registered⟩ := by
  rw [readOn, about_taskNotes]
  simp [taskNotes, Note.read?, List.filterMap_append, List.filterMap_map, Function.comp_def]

theorem event?_taskNotes (registered : List String) (read : List Arrival)
    (events : List TransportEvent) :
    (taskNotes n registered read events).filterMap Note.event? = events := by
  simp [taskNotes, Note.event?, List.filterMap_append, List.filterMap_map, Function.comp_def]

theorem sentOn_taskNotes (registered : List String) (read : List Arrival)
    (events : List TransportEvent) : sentOn n (taskNotes n registered read events) = events := by
  rw [sentOn, about_taskNotes, event?_taskNotes]

end About

/-- The notes about a step of a task are those about what it reads and sends. -/
theorem doings_eq {t t' : Tcp} {n : Nat} {c c' : Connection} {read : List Arrival}
    {new : List TransportEvent} (hc : t.connections[n]? = some c)
    (hconnections : t'.connections = (t.set n c').connections)
    (harrivals : c.arrivals = read ++ c'.arrivals) (hevents : t'.events = t.events ++ new) :
    t.doings n t' = taskNotes n t.table.keys read new := by
  have hbefore : t.waiting n = read ++ c'.arrivals := by rw [waiting, hc]; exact harrivals
  have hafter : t'.waiting n = c'.arrivals := by
    rw [waiting, hconnections, getElem?_set_self c' hc]
    rfl
  have hread : (t.waiting n).length - (t'.waiting n).length = read.length := by
    rw [hbefore, hafter, List.length_append]
    omega
  rw [doings, hread, hbefore, List.take_left, hevents, List.drop_left]

/-- The events that have been noted down are those that have come into the mailbox. -/
theorem Noted.logged {self : Identity} {t : Tcp} {log : List Note} (h : Noted self t log) :
    Logged self t (log.filterMap Note.event?) := by
  induction h with
  | new => exact .new
  | @act t t' log hold a ha ih =>
    have hnew : (t.notes t' a).filterMap Note.event? = t'.events.drop t.events.length := by
      cases a with
      | task k => exact event?_taskNotes ..
      | opened | expired n | broken n =>
        cases ha
        exact (List.drop_length).symm
      | arrived n a =>
        rw [act?] at ha
        split at ha
        · cases ha
          exact (List.drop_length).symm
        · cases ha
      | sent id m =>
        obtain ⟨⟨r, t'⟩, hr, rfl⟩ := Option.map_eq_some_iff.1 ha
        rcases sendTo?_eq_some hr with rfl | ⟨n, c, hc, rfl⟩ <;> exact (List.drop_length).symm
      | taken =>
        obtain ⟨⟨e, t'⟩, he, rfl⟩ := Option.map_eq_some_iff.1 ha
        obtain ⟨rest, hevents, rfl⟩ := take?_eq_some he
        have hdrop : rest.drop t.events.length = [] := List.drop_of_length_le (by simp [hevents])
        exact hdrop.symm
    rw [List.filterMap_append, hnew]
    exact ih.step (Act.step ha)

/-! ### Runs that are played -/

/-- The state and the notes after one thing has happened after another. -/
def run? (self : Identity) (acts : List Act) : Option (Tcp × List Note) :=
  acts.foldlM (fun x a => (x.1.act? a).map fun t => (t, x.2 ++ x.1.notes t a)) (.new self, [])

theorem noted_run {self : Identity} {acts : List Act} {t : Tcp} {log : List Note}
    (h : run? self acts = some (t, log)) : Noted self t log := by
  induction acts using List.reverseRecOn generalizing t log with
  | nil =>
    cases h
    exact .new
  | append_singleton acts a ih =>
    rw [run?, List.foldlM_append] at h
    obtain ⟨⟨t₀, log₀⟩, hold, hlast⟩ := Option.bind_eq_some_iff.1 h
    rw [List.foldlM_cons] at hlast
    obtain ⟨x, hx, hnil⟩ := Option.bind_eq_some_iff.1 hlast
    obtain ⟨t₁, ht₁, rfl⟩ := Option.map_eq_some_iff.1 hx
    cases hnil
    exact (ih hold).act a ht₁

end Fleet.Tcp
