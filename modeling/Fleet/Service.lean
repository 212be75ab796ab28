import Fleet.Member.Placement
import Fleet.Service.Properties
import Fleet.Text.Blank
import Fleet.Uuid

/-!
# Services

An administrator asks for a service by a specification: the task it belongs to, its memory, and
optionally a name, groups, a port and properties.  A service that was created is described by a
record that names the node hosting it.

## Main definitions

* `ServiceSpec`, `Lifecycle`, `Service` — the types.
* `ServiceSpec.fault?` — what is wrong with a specification.
-/

namespace Fleet

/-- What an administrator asks for; memory counts in megabytes. -/
structure ServiceSpec where
  task : String
  name : Option String := none
  memory : UInt64
  groups : List String := []
  port : Option UInt16 := none
  properties : Properties := .empty
deriving DecidableEq

/-- What makes a specification unacceptable. -/
inductive SpecFault where
  | blankTask
  | blankName
deriving DecidableEq

/-- The wording of a fault. -/
def SpecFault.message : SpecFault → String
  | .blankTask => "task name must not be empty"
  | .blankName => "service name must not be empty"

namespace ServiceSpec

/-- The first fault of a specification: a blank task, then a blank name. -/
def fault? (s : ServiceSpec) : Option SpecFault :=
  if Text.Blank s.task then some .blankTask
  else match s.name with
    | some n => if Text.Blank n then some .blankName else none
    | none => none

/-- The part of a specification that placement looks at. -/
def demand (s : ServiceSpec) : Demand := ⟨s.memory⟩

end ServiceSpec

/-- How far a service has come. -/
inductive Lifecycle where
  /-- Registered, its process not started yet. -/
  | prepared
  | running
  | stopped
deriving DecidableEq

/-- A service that was created. -/
structure Service where
  id : Uuid
  name : String
  task : String
  /-- The node hosting the service. -/
  node : String
  lifecycle : Lifecycle
  /-- The memory reserved for the service. -/
  memory : UInt64
  groups : List String
  created : Instant
deriving DecidableEq

end Fleet
