import Fleet.Messenger
import Fleet.Service.Ledger
import Fleet.Transport

/-!
# What a node is busy with

Sending a query, creating a service and working on a message take several steps, and other tasks run
in between.  Each of them is the place it has reached.

## Main definitions

* `Query` — a query on its way.
* `Creation` — the creation of a service somewhere in the cluster.
* `Dispatch` — the work on a message that has arrived.
* `MessengerError`, `CreateError` — how they fail.
-/

namespace Fleet

/-- Why a messenger refuses. -/
inductive MessengerError where
  /-- A query must go to exactly one connection. -/
  | invalidTarget (channel : String) (resolved : Nat)
  | protocol (e : ProtocolError)
  | badMessage (e : MessageError)
  | transport (e : TransportError)
deriving DecidableEq

/-- The wording of a refusal. -/
def MessengerError.message : MessengerError → String
  | .invalidTarget channel resolved =>
    s!"Query on channel '{channel}' resolved to {Decimal.text resolved} connections, " ++
      "expected exactly one"
  | .protocol e => s!"Protocol error: {e.message}"
  | .badMessage e => s!"Invalid message: {e.message}"
  | .transport e => s!"Transport error: {e.message}"

/-- A query: `Ok none` means that there was no response. -/
inductive Query where
  /-- About to look up its connection. -/
  | opening (m : Message) (timeout : Nat)
  /-- Pending, about to be written. -/
  | writing (id : Uuid) (target : String) (m : Message) (timeout : Nat)
  /-- Waiting for its outcome until a time. -/
  | waiting (id : Uuid) (deadline : Nat)
  /-- Out of time, with a response that somebody is about to hand over. -/
  | overdue (id : Uuid)
  | done (result : Except MessengerError (Option Message))

/-- Why a service is not created. -/
inductive CreateError where
  | noResponse (node : String)
  | invalidTarget (node : String)
  /-- This node refused to start it. -/
  | refused (e : LedgerError)
  /-- The response does not read as a service. -/
  | unreadable
deriving DecidableEq

/-- The wording of a failure; what a reader would add is left out. -/
def CreateError.message : CreateError → String
  | .noResponse node => s!"No response from node '{node}'"
  | .invalidTarget node => s!"Node '{node}' cannot be addressed"
  | .refused (.invalid fault) => s!"Invalid service configuration: {fault.message}"
  | .refused (.noCapacity requested available) =>
    s!"No capacity for the service: {(LedgerError.noCapacity requested available).message}"
  | .refused (.nameTaken name) =>
    s!"Starting the service locally failed: {(LedgerError.nameTaken name).message}"
  | .unreadable => "Failed to encode or decode service data"

/-- The creation of a service. -/
inductive Creation where
  /-- About to read who the head is, as the node that was asked first. -/
  | routing (spec : ServiceSpec)
  /-- About to refresh its own load as the head, whoever the head is by now. -/
  | placing (spec : ServiceSpec)
  /-- About to choose a node as the head. -/
  | choosing (spec : ServiceSpec)
  /-- Waiting for another node. -/
  | asking (node : String) (q : Query)
  | done (result : Except CreateError Service)

/-- The work on a message that has arrived. -/
inductive Dispatch where
  /-- About to look up the listeners. -/
  | opening (d : Delivery)
  /-- The listeners that are still to come. -/
  | firing (ticket : Nat) (event : Event) (rest : List Handler)
  /-- A listener is placing a service. -/
  | placing (ticket : Nat) (event : Event) (creation : Creation) (rest : List Handler)
  /-- About to answer the query. -/
  | answering (ticket : Nat) (event : Event)
  | done

end Fleet
