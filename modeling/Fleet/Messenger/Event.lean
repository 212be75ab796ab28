import Fleet.Wire.Message

/-!
# Events

A message that has arrived is an event to the listeners of its channel.  If it is a query, any of
them may answer it, and the first answer counts.

## Main definitions

* `Event` — a message and the answer it has got so far.
* `Event.answer` — answering it.
* `Call` — the record that a listener leaves.
-/

namespace Fleet

/-- A use of queries and responses that makes no sense. -/
inductive ProtocolError where
  | notQuery (channel : String)
  | alreadyAnswered (channel : String)
  | noCorrelation (channel : String)
  | unknownCorrelation (id : Uuid)
deriving DecidableEq

/-- The wording of a misuse. -/
def ProtocolError.message : ProtocolError → String
  | .notQuery channel => s!"Message on channel '{channel}' is not a query"
  | .alreadyAnswered channel => s!"Query on channel '{channel}' was already answered"
  | .noCorrelation channel => s!"Query on channel '{channel}' carries no correlation id"
  | .unknownCorrelation id => s!"No pending query with correlation id {id.text}"

/-- A message at its listeners. -/
structure Event where
  message : Message
  response : Option Bytes := none

namespace Event

/-- Answers the query of an event. -/
def answer (e : Event) (content : Bytes) : Except ProtocolError Event :=
  if !e.message.query then .error (.notQuery e.message.channel)
  else if e.response.isSome then .error (.alreadyAnswered e.message.channel)
  else .ok { e with response := some content }

/-- Answers the query of an event if that makes sense. -/
def tryAnswer (e : Event) (content : Bytes) : Event :=
  match e.answer content with
  | .ok e => e
  | .error _ => e

/-- Answers with each content in turn, noting what comes of each. -/
def answerAll (e : Event) : List Bytes → List (Option ProtocolError) × Event
  | [] => ([], e)
  | content :: rest =>
    match e.answer content with
    | .ok e =>
      let (results, e) := answerAll e rest
      (none :: results, e)
    | .error fault =>
      let (results, e) := answerAll e rest
      (some fault :: results, e)

end Event

/-- What a recording listener saw and did. -/
structure Call where
  label : String
  message : Message
  /-- What came of each answer; none if it counted. -/
  results : List (Option ProtocolError)
  /-- The answer that counts so far. -/
  response : Option Bytes

/-- Lets a recording listener see an event and answer it with each content in turn. -/
def Event.record (e : Event) (label : String) (answers : List Bytes) : Call × Event :=
  let (results, e) := e.answerAll answers
  (⟨label, e.message, results, e.response⟩, e)

end Fleet
