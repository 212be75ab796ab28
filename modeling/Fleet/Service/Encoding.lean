import Fleet.Service
import Fleet.Member.Encoding

/-!
# Services in JSON

A specification leaves out a name or a port that it does not have; groups and properties may be
missing where one is read.  Properties are written in whatever order they are met, and read in any.

## Main definitions

* `ServiceSpec.toJson`, `Service.toJson` and their readers.
-/

namespace Fleet

/-- The value of properties that are met in an order. -/
def Properties.toJson (p : Properties) (o : Order) : Json :=
  .record ((o.arrange p.entries).map fun (k, v) => (k, .text v))

/-- Reads properties; the last value of a key counts. -/
def Properties.ofJson? : Json → Option Properties
  | .object members =>
    (members.mapM fun m : Option String × Json => do some (← m.1, ← m.2.text?)).map ofList
  | _ => none

/-- A list of texts. -/
def textsToJson (texts : List String) : Json := .array (texts.map .text)

/-- Reads a list of texts. -/
def textsOfJson? : Json → Option (List String) := Json.list? Json.text?

/-- The value of a specification. -/
def ServiceSpec.toJson (s : ServiceSpec) (o : Properties.Order) : Json :=
  .record <| [("taskName", .text s.task)] ++ (s.name.map fun n => ("name", .text n)).toList ++
    [("maxHeapMemoryMb", .word s.memory), ("groups", textsToJson s.groups)] ++
    (s.port.map fun p => ("port", .word p.toUInt64)).toList ++
    [("properties", s.properties.toJson o)]

/-- Reads a specification. -/
def ServiceSpec.ofJson? (j : Json) : Option ServiceSpec := do
  let [task, name, memory, groups, port, properties] ←
    j.fields? ["taskName", "name", "maxHeapMemoryMb", "groups", "port", "properties"] | none
  some {
    task := ← Json.required Json.text? task
    name := ← Json.optional Json.text? name
    memory := ← Json.required Json.word? memory
    groups := ← Json.withDefault [] textsOfJson? groups
    port := ← Json.optional Json.halfWord? port
    properties := ← Json.withDefault .empty Properties.ofJson? properties }

/-- The name of a stage in the life of a service. -/
def Lifecycle.name : Lifecycle → String
  | .prepared => "Prepared"
  | .running => "Running"
  | .stopped => "Stopped"

/-- The stage with a name. -/
def Lifecycle.ofName? : String → Option Lifecycle
  | "Prepared" => some .prepared
  | "Running" => some .running
  | "Stopped" => some .stopped
  | _ => none

/-- Reads an identifier. -/
def Uuid.ofJson? (j : Json) : Option Uuid := j.text?.bind Uuid.parse?

/-- The value of a service. -/
def Service.toJson (s : Service) : Json :=
  .record [("serviceId", .text s.id.text), ("name", .text s.name), ("taskName", .text s.task),
    ("nodeId", .text s.node), ("lifecycle", .text s.lifecycle.name), ("memoryMb", .word s.memory),
    ("groups", textsToJson s.groups), ("createdAt", .text s.created.text)]

/-- Reads a service. -/
def Service.ofJson? (j : Json) : Option Service := do
  let [id, name, task, node, lifecycle, memory, groups, created] ←
    j.fields? ["serviceId", "name", "taskName", "nodeId", "lifecycle", "memoryMb", "groups",
      "createdAt"] | none
  some {
    id := ← Json.required Uuid.ofJson? id
    name := ← Json.required Json.text? name
    task := ← Json.required Json.text? task
    node := ← Json.required Json.text? node
    lifecycle := ← Json.required (fun j => j.symbol?.bind Lifecycle.ofName?) lifecycle
    memory := ← Json.required Json.word? memory
    groups := ← Json.withDefault [] textsOfJson? groups
    created := ← Json.required Instant.ofJson? created }

end Fleet
