import Fleet.Service
import Fleet.Table

/-!
# Ledgers

The ledger of a node holds its services, the memory reserved for them and their names.  A service
without a name of its own is called after its task with a number; each task counts its numbers
upwards and never takes one twice, and numbers whose name is in use are skipped.

Every operation on the ledger is made of steps that touch one of its parts: starting reserves
memory, picks a name, claims it and enters the service, and gives the memory back if the name is
taken; removing takes these out again.

## Main definitions

* `Ledger`, `LedgerError` — the types.
* `Ledger.reserve`, `Ledger.takeIndex`, `Ledger.claim?`, `Ledger.release`, `Ledger.enter`,
  `Ledger.strike?`, `Ledger.freeName` — the steps.
* `Ledger.start`, `Ledger.remove` — the operations.
-/

namespace Fleet

/-- Why a service is not started. -/
inductive LedgerError where
  | noCapacity (requested available : UInt64)
  | nameTaken (name : String)
  | invalid (fault : SpecFault)
deriving DecidableEq

/-- The wording of a refusal. -/
def LedgerError.message : LedgerError → String
  | .noCapacity requested available =>
    s!"Not enough memory: requested {Decimal.text requested.toNat} MB, " ++
      s!"{Decimal.text available.toNat} MB available"
  | .nameTaken name => s!"Service '{name}' already exists on this node"
  | .invalid fault => s!"Invalid service configuration: {fault.message}"

/-- The services of one node. -/
structure Ledger where
  node : String
  /-- The memory that services may use. -/
  max : UInt64
  reserved : UInt64
  services : Table Uuid Service
  names : Table String Uuid
  /-- The last number taken for each task. -/
  counters : Table String UInt32

namespace Ledger

/-- A node without services. -/
def new (node : String) (max : UInt64) : Ledger := ⟨node, max, 0, .empty, .empty, .empty⟩

/-- The memory that is not reserved. -/
def spare (l : Ledger) : UInt64 := saturatingSub l.max l.reserved

/-- Sets memory aside if there is enough. -/
def reserve (l : Ledger) (memory : UInt64) : Except LedgerError Ledger :=
  if l.reserved.toNat + memory.toNat ≤ l.max.toNat then
    .ok { l with reserved := l.reserved + memory }
  else .error (.noCapacity memory l.spare)

/-- Gives memory back. -/
def release (l : Ledger) (memory : UInt64) : Ledger := { l with reserved := l.reserved - memory }

/-- The last number taken for a task, zero if none was. -/
def counter (l : Ledger) (task : String) : UInt32 := (l.counters.get? task).getD 0

/-- Sets the last number taken for a task. -/
def setCounter (l : Ledger) (task : String) (n : UInt32) : Ledger :=
  { l with counters := l.counters.insert task n }

/-- Takes the next number of a task. -/
def takeIndex (l : Ledger) (task : String) : UInt32 × Ledger :=
  let n := l.counter task + 1
  (n, l.setCounter task n)

/-- The name of a task's service with a number. -/
def autoName (task : String) (n : UInt32) : String := s!"{task}-{Decimal.text n.toNat}"

/-- Whether a name is in use. -/
def isTaken (l : Ledger) (name : String) : Bool := l.names.contains name

/-- Takes numbers of a task until one has a name that is not in use.  Among one number more than
there are names there is one. -/
def nextName (l : Ledger) (task : String) : String × Ledger :=
  search (l.names.size + 1) l
where
  search : Nat → Ledger → String × Ledger
    | 0, l => (autoName task (l.counter task), l)
    | rounds + 1, l =>
      let (n, l) := l.takeIndex task
      if l.isTaken (autoName task n) then search rounds l else (autoName task n, l)

/-- Takes a name into use for a service; none if it is in use. -/
def claim? (l : Ledger) (name : String) (id : Uuid) : Option Ledger :=
  if l.isTaken name then none else some { l with names := l.names.insert name id }

/-- Enters a service. -/
def enter (l : Ledger) (s : Service) : Ledger := { l with services := l.services.insert s.id s }

/-- Takes a service out; none if there is no service with the id. -/
def strike? (l : Ledger) (id : Uuid) : Option (Service × Ledger) :=
  (l.services.get? id).map fun s => (s, { l with services := l.services.erase id })

/-- Takes a name out of use. -/
def freeName (l : Ledger) (name : String) : Ledger := { l with names := l.names.erase name }

/-- The record of a service that is created for a specification. -/
def recordOf (l : Ledger) (spec : ServiceSpec) (id : Uuid) (name : String) (now : Instant) :
    Service :=
  { id, name, task := spec.task, node := l.node, lifecycle := .prepared, memory := spec.memory,
    groups := spec.groups, created := now }

/-- The name for a specification: its own, or the next one of its task. -/
def nameFor (l : Ledger) (spec : ServiceSpec) : String × Ledger :=
  match spec.name with
  | some name => (name, l)
  | none => l.nextName spec.task

/-- Starts a service under a new id; the ledger also changes if the name turns out to be taken,
for the number taken is not given back. -/
def start (l : Ledger) (spec : ServiceSpec) (id : Uuid) (now : Instant) :
    Except LedgerError Service × Ledger :=
  match spec.fault? with
  | some fault => (.error (.invalid fault), l)
  | none =>
    match l.reserve spec.memory with
    | .error e => (.error e, l)
    | .ok reserved =>
      let (name, named) := reserved.nameFor spec
      match named.claim? name id with
      | none => (.error (.nameTaken name), named.release spec.memory)
      | some claimed =>
        let s := claimed.recordOf spec id name now
        (.ok s, claimed.enter s)

/-- Removes a service, frees its name and gives its memory back; none if there is no service with
the id. -/
def remove (l : Ledger) (id : Uuid) : Option (Service × Ledger) :=
  (l.strike? id).map fun (s, l) => (s, (l.freeName s.name).release s.memory)

/-- The load of the node: what is reserved, with a reading of the processors. -/
def load (l : Ledger) (cpu : Binary64) (now : Instant) : Load := ⟨l.reserved, l.max, cpu, now⟩

end Ledger

end Fleet
