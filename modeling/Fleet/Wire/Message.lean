import Fleet.Text.Utf8
import Fleet.Uuid

/-!
# Messages

A message travels on a named channel from a sender to its targets.  A query carries a correlation
id; its response carries the same one and is no query.

## Main definitions

* `Target`, `Message`, `MessageError` — the types.
* `Message.Valid` — the rules for messages.
* `Message.new?` — building a message that keeps them.
* `Message.intoQuery`, `Message.responseFor` — a query, and the response to one.
-/

namespace Fleet

/-- What a target names. -/
inductive TargetKind where
  /-- One node. -/
  | node
  /-- A service, wherever it runs. -/
  | service
  /-- Every service of a group. -/
  | group
  /-- Every node that is connected. -/
  | all
deriving DecidableEq

/-- The name of a kind. -/
def TargetKind.name : TargetKind → String
  | .node => "NODE"
  | .service => "SERVICE"
  | .group => "GROUP"
  | .all => "ALL"

/-- The kind with a name. -/
def TargetKind.ofName? : String → Option TargetKind
  | "NODE" => some .node
  | "SERVICE" => some .service
  | "GROUP" => some .group
  | "ALL" => some .all
  | _ => none

/-- Whom a message is for. -/
structure Target where
  kind : TargetKind
  value : Option String
deriving DecidableEq

namespace Target

/-- One node. -/
def node (id : String) : Target := ⟨.node, some id⟩

/-- Every node that is connected. -/
def all : Target := ⟨.all, none⟩

/-- A target that says whom it is for: every kind but `all` needs a value that is not empty. -/
def Valid (t : Target) : Prop := t.kind = .all ∨ ∃ v, t.value = some v ∧ v ≠ ""

instance (t : Target) : Decidable t.Valid :=
  match h : t.value with
  | none => decidable_of_iff (t.kind = .all) (by simp [Valid, h])
  | some v => decidable_of_iff (t.kind = .all ∨ v ≠ "") (by simp [Valid, h])

end Target

/-- Why a message cannot be built. -/
inductive MessageError where
  | emptyChannel
  | noTargets (channel : String)
  | missingValue (kind : TargetKind)
deriving DecidableEq

/-- The wording of a fault. -/
def MessageError.message : MessageError → String
  | .emptyChannel => "Message channel must not be empty"
  | .noTargets channel => s!"Message on channel '{channel}' has no targets"
  | .missingValue kind => s!"{kind.name} target requires a value"

/-- A message on a channel. -/
structure Message where
  channel : String
  sender : String
  targets : List Target
  content : Bytes
  query : Bool := false
  correlation : Option Uuid := none
deriving DecidableEq

namespace Message

/-- The rules for messages: a channel, at least one target, and every target says whom it is for. -/
def Valid (m : Message) : Prop := m.channel ≠ "" ∧ m.targets ≠ [] ∧ ∀ t ∈ m.targets, t.Valid

instance (m : Message) : Decidable m.Valid :=
  inferInstanceAs (Decidable (m.channel ≠ "" ∧ m.targets ≠ [] ∧ ∀ t ∈ m.targets, t.Valid))

/-- The first rule that a message breaks. -/
def fault? (m : Message) : Option MessageError :=
  if m.channel = "" then some .emptyChannel
  else if m.targets = [] then some (.noTargets m.channel)
  else (m.targets.find? fun t => ¬ t.Valid).map fun t => .missingValue t.kind

theorem fault?_eq_none_iff {m : Message} : m.fault? = none ↔ m.Valid := by
  unfold fault? Valid
  by_cases hc : m.channel = ""
  · simp [hc]
  · by_cases ht : m.targets = []
    · simp [hc, ht]
    · simp [hc, ht]

/-- A message that keeps the rules, or the first rule it breaks. -/
def checked (m : Message) : Except MessageError Message :=
  match m.fault? with
  | some e => .error e
  | none => .ok m

/-- A plain message. -/
def new? (channel sender : String) (targets : List Target) (content : Bytes) :
    Except MessageError Message :=
  checked { channel, sender, targets, content }

/-- The same message as a query. -/
def intoQuery (m : Message) (id : Uuid) : Message :=
  { m with query := true, correlation := some id }

/-- The response to a query, addressed to its sender. -/
def responseFor (query : Message) (sender : String) (content : Bytes) : Message :=
  { channel := query.channel, sender, targets := [.node query.sender], content,
    correlation := query.correlation }

/-- A message that answers an earlier query. -/
def isResponse (m : Message) : Bool := !m.query && m.correlation.isSome

end Message

end Fleet
