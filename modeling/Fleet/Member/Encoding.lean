import Fleet.Member.Placement
import Fleet.Instant.Reader
import Fleet.Json.Record

/-!
# Members in JSON

The fields are written in the order given here, and a member without a load leaves that field out.

## Main definitions

* `Identity.toJson`, `Load.toJson`, `Member.toJson`, `Demand.toJson` and their readers.
-/

namespace Fleet

/-- The value of an identity. -/
def Identity.toJson (i : Identity) : Json :=
  .record [("id", .text i.id), ("address", .text i.address)]

/-- Reads an identity. -/
def Identity.ofJson? (j : Json) : Option Identity := do
  let [id, address] ← j.fields? ["id", "address"] | none
  some ⟨← Json.required Json.text? id, ← Json.required Json.text? address⟩

/-- The value of a load. -/
def Load.toJson (l : Load) : Json :=
  .record [("usedMemoryMb", .word l.used), ("maxMemoryMb", .word l.max),
    ("systemCpuUsage", .number (.real l.cpu)), ("capturedAt", .text l.at_.text)]

/-- Reads an instant. -/
def Instant.ofJson? (j : Json) : Option Instant := j.text?.bind Instant.parse?

/-- Reads a load. -/
def Load.ofJson? (j : Json) : Option Load := do
  let [used, max, cpu, at_] ←
    j.fields? ["usedMemoryMb", "maxMemoryMb", "systemCpuUsage", "capturedAt"] | none
  some ⟨← Json.required Json.word? used, ← Json.required Json.word? max,
    ← Json.required Json.real? cpu, ← Json.required Instant.ofJson? at_⟩

/-- The value of a member. -/
def Member.toJson (m : Member) : Json :=
  .record <| ("identity", m.identity.toJson) ::
    (m.load.map fun l => ("snapshot", l.toJson)).toList ++ [("available", .bool m.available)]

/-- Reads a member. -/
def Member.ofJson? (j : Json) : Option Member := do
  let [identity, load, available] ← j.fields? ["identity", "snapshot", "available"] | none
  some ⟨← Json.required Identity.ofJson? identity, ← Json.optional Load.ofJson? load,
    ← Json.required Json.bool? available⟩

/-- The value of a demand. -/
def Demand.toJson (d : Demand) : Json := .record [("memoryMb", .word d.memory)]

/-- Reads a demand. -/
def Demand.ofJson? (j : Json) : Option Demand := do
  let [memory] ← j.fields? ["memoryMb"] | none
  some ⟨← Json.required Json.word? memory⟩

end Fleet
