import Fleet.Table
import Fleet.Transport

/-!
# Scripted connections

The connections of one node, set by hand: a list of peers, failures by id, and a record of every
message that was written.

## Main definitions

* `Scripted` — the connections.
-/

namespace Fleet

/-- A message that was written, and whether that worked. -/
structure Attempt where
  receiver : String
  worked : Bool
  message : Message

/-- Connections set by hand. -/
structure Scripted where
  peers : Table String Identity
  failures : Table String TransportError
  attempts : List Attempt

namespace Scripted

/-- No connections. -/
def empty : Scripted := ⟨.empty, .empty, []⟩

/-- Adds a peer; a peer that is there keeps its place. -/
def connect (s : Scripted) (peer : Identity) : Scripted :=
  { s with peers := s.peers.insert peer.id peer }

/-- Takes a peer away. -/
def drop (s : Scripted) (id : String) : Scripted := { s with peers := s.peers.erase id }

/-- Lets writing to a peer fail, or work again. -/
def fail (s : Scripted) (id : String) : Option TransportError → Scripted
  | some e => { s with failures := s.failures.insert id e }
  | none => { s with failures := s.failures.erase id }

/-- What comes of writing to a peer. -/
def outcome (s : Scripted) (receiver : String) : Except TransportError Unit :=
  match s.failures.get? receiver with
  | some e => .error e
  | none => if s.peers.contains receiver then .ok () else .error (.notConnected receiver)

/-- Writes a message, and notes that it was written. -/
def write (s : Scripted) (receiver : String) (m : Message) :
    Except TransportError Unit × Scripted :=
  let r := s.outcome receiver
  (r, { s with attempts := s.attempts ++ [⟨receiver, r.isOk, m⟩] })

instance : Transport Scripted where
  connections s _ := s.peers.values
  write s _ receiver m := s.write receiver m
  take? _ _ := none
  ended _ _ := true
  hangUp s _ := s

end Scripted

end Fleet
