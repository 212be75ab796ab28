import Fleet.Service.Ledger

/-!
# Concurrent calls on a ledger

Starting and removing are not atomic: between two steps of one call other calls take steps of
theirs.  A call is the place it has reached, and a step does what comes next on the ledger.

## Main definitions

* `Ledger.Call` — a start or a removal on its way.
* `Ledger.Call.step` — the next step of a call.
* `Ledger.Call.held` — the memory that a call has reserved without a service to show for it.
-/

namespace Fleet.Ledger

/-- What a start needs to know. -/
structure Order where
  spec : ServiceSpec
  id : Uuid
  now : Instant

/-- Where a call stands. -/
inductive Call where
  /-- About to reserve memory. -/
  | reserving (o : Order)
  /-- About to take a number of its task. -/
  | counting (o : Order)
  /-- About to look whether the name of its number is in use. -/
  | checking (o : Order) (n : UInt32)
  /-- About to claim a name. -/
  | claiming (o : Order) (name : String)
  /-- About to give the memory back since the name was taken. -/
  | releasing (o : Order) (name : String)
  /-- About to enter the service. -/
  | entering (s : Service)
  | started (s : Service)
  | refused (e : LedgerError)
  /-- About to take a service out. -/
  | striking (id : Uuid)
  /-- About to free the name of a service taken out. -/
  | freeing (s : Service)
  /-- About to give back the memory of a service taken out. -/
  | returning (s : Service)
  | removed (s : Service)
  /-- There was no service to remove. -/
  | absent

namespace Call

/-- A call to start a service. -/
def ofOrder (o : Order) : Call :=
  match o.spec.fault? with
  | some fault => .refused (.invalid fault)
  | none => .reserving o

/-- The next step of a call; a call that has ended stays as it is. -/
def step (l : Ledger) : Call → Call × Ledger
  | .reserving o =>
    match l.reserve o.spec.memory with
    | .error e => (.refused e, l)
    | .ok l =>
      match o.spec.name with
      | some name => (.claiming o name, l)
      | none => (.counting o, l)
  | .counting o =>
    let (n, l) := l.takeIndex o.spec.task
    (.checking o n, l)
  | .checking o n =>
    let name := autoName o.spec.task n
    (if l.isTaken name then .counting o else .claiming o name, l)
  | .claiming o name =>
    match l.claim? name o.id with
    | none => (.releasing o name, l)
    | some l => (.entering (l.recordOf o.spec o.id name o.now), l)
  | .releasing o name => (.refused (.nameTaken name), l.release o.spec.memory)
  | .entering s => (.started s, l.enter s)
  | .striking id =>
    match l.strike? id with
    | none => (.absent, l)
    | some (s, l) => (.freeing s, l)
  | .freeing s => (.returning s, l.freeName s.name)
  | .returning s => (.removed s, l.release s.memory)
  | .started s => (.started s, l)
  | .refused e => (.refused e, l)
  | .removed s => (.removed s, l)
  | .absent => (.absent, l)

/-- Whether a call has ended. -/
def ended : Call → Bool
  | .started _ | .refused _ | .removed _ | .absent => true
  | _ => false

/-- The memory that a call has reserved and that no service in the ledger stands for. -/
def held : Call → Nat
  | .counting o | .checking o _ | .claiming o _ | .releasing o _ => o.spec.memory.toNat
  | .entering s | .freeing s | .returning s => s.memory.toNat
  | _ => 0

end Call

end Fleet.Ledger
