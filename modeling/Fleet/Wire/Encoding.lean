import Fleet.Wire.Message
import Fleet.Member.Encoding
import Fleet.Service.Encoding

/-!
# Envelopes in JSON

The header of a frame names the kind of the frame and holds the fields of that kind beside it, so it
is read whole before it is known which fields it needs.  In a value that was read whole, a symbol
may also be given as an object whose only member is its name with an empty object.

## Main definitions

* `Target.toJson`, `Target.ofJson?` — targets.
* `Header` — the header of a frame.
* `Header.toJson`, `Header.ofJson?` — headers.
-/

namespace Fleet

/-- The value of a target; a target without a value leaves it out. -/
def Target.toJson (t : Target) : Json :=
  .record <| ("type", .text t.kind.name) :: (t.value.map fun v => ("value", .text v)).toList

/-- Reads a target, given a reader of symbols. -/
def Target.read? (symbol? : Json → Option String) (j : Json) : Option Target := do
  let [kind, value] ← j.fields? ["type", "value"] | none
  some ⟨← Json.required (fun j => (symbol? j).bind TargetKind.ofName?) kind,
    ← Json.optional Json.text? value⟩

/-- Reads a target. -/
def Target.ofJson? : Json → Option Target := Target.read? Json.symbol?

/-- A symbol in a value that was read whole. -/
def Json.keptSymbol? : Json → Option String
  | .object [(k, .object [])] => k
  | j => j.symbol?

/-- The header of a frame: a node that introduces itself, or a message without its content. -/
inductive Header where
  | hello (node : Identity)
  | message (channel sender : String) (targets : List Target) (query : Bool)
    (correlation : Option Uuid)
deriving DecidableEq

namespace Header

/-- The value of a header. -/
def toJson : Header → Json
  | .hello node => .record [("kind", .text "hello"), ("node", node.toJson)]
  | .message channel sender targets query correlation =>
    .record <| [("kind", .text "message"), ("channel", .text channel), ("sender", .text sender),
      ("targets", .array (targets.map Target.toJson)), ("query", .bool query)] ++
      (correlation.map fun id => ("correlationId", .text id.text)).toList

/-- The fields of a header that introduces a node. -/
def helloOfJson? (j : Json) : Option Header := do
  let [node] ← j.fields? ["node"] | none
  some (.hello (← Json.required Identity.ofJson? node))

/-- The fields of a message's header. -/
def messageOfJson? (j : Json) : Option Header := do
  let [channel, sender, targets, query, correlation] ←
    j.fields? ["channel", "sender", "targets", "query", "correlationId"] | none
  some (.message (← Json.required Json.text? channel) (← Json.required Json.text? sender)
    (← Json.required (Json.list? (Target.read? Json.keptSymbol?)) targets)
    (← Json.required Json.bool? query) (← Json.optional Uuid.ofJson? correlation))

/-- The kind that a header names, and the value that holds its fields: the other members of an
object, or the other items of an array whose first item is the kind. -/
def tagged? : Json → Option (String × Json)
  | .object members =>
    match Json.given "kind" members with
    | [.string (some kind)] => some (kind, .object (members.filter (·.1 ≠ some "kind")))
    | _ => none
  | .array (.string (some kind) :: items) => some (kind, .array items)
  | _ => none

/-- Reads a header. -/
def ofJson? (j : Json) : Option Header := do
  if !j.usable then none
  let (kind, fields) ← tagged? j
  match kind with
  | "hello" => helloOfJson? fields
  | "message" => messageOfJson? fields
  | _ => none

end Header

end Fleet
