import Fleet.Table
import Fleet.Transport

/-!
# Networks of nodes in one process

Every node that has joined is linked to every other one until the link is cut.  What happens to a
node's links is put into its mailbox, and so are the messages written to it.  A node that joins
under an id that is in use takes the place of the one before, which keeps its mailbox but gets
nothing more.

## Main definitions

* `Network` — the nodes, the links that are cut, and the mailboxes.
* `Network.join`, `Network.leave`, `Network.cut`, `Network.heal` — the operations.
* `Network.linked` — whether two nodes reach each other.
-/

namespace Fleet

/-- A mailbox: its events in the order of arrival, and whether its owner still receives. -/
structure Mailbox where
  events : List TransportEvent
  receiving : Bool

/-- A node that has joined. -/
structure Endpoint where
  identity : Identity
  mailbox : Nat

/-- Nodes in one process. -/
structure Network where
  endpoints : Table String Endpoint
  /-- The links that are cut, each as a pair of ids in their order. -/
  severed : List (String × String)
  mailboxes : Table Nat Mailbox
  /-- The number of the next mailbox. -/
  next : Nat

namespace Network

/-- A network without nodes. -/
def empty : Network := ⟨.empty, [], .empty, 0⟩

/-- The name of the link between two nodes. -/
def link (a b : String) : String × String := if a ≤ b then (a, b) else (b, a)

/-- The identity under which an id is known. -/
def identity? (n : Network) (id : String) : Option Identity :=
  (n.endpoints.get? id).map (·.identity)

/-- Whether two nodes reach each other. -/
def linked (n : Network) (a b : String) : Bool :=
  a ≠ b && n.endpoints.contains a && n.endpoints.contains b && link a b ∉ n.severed

/-- Puts an event into a mailbox; it is lost if its owner no longer receives. -/
def post (n : Network) (mailbox : Nat) (e : TransportEvent) : Network :=
  { n with mailboxes := n.mailboxes.modify mailbox fun m =>
      if m.receiving then { m with events := m.events ++ [e] } else m }

/-- Puts an event into the mailbox of a node, if there is one. -/
def notify (n : Network) (id : String) (e : TransportEvent) : Network :=
  match n.endpoints.get? id with
  | some p => n.post p.mailbox e
  | none => n

/-- Adds a node and gives it a mailbox.  The nodes that are there are told about it, and it about
them. -/
def join (n : Network) (i : Identity) : Nat × Network :=
  let peers := n.endpoints.values
  let mine := n.next
  let joined : Network :=
    { n with
      endpoints := n.endpoints.insert i.id ⟨i, mine⟩
      mailboxes := n.mailboxes.insert mine ⟨[], true⟩
      next := mine + 1 }
  (mine, peers.foldl
    (fun n p => (n.post p.mailbox (.connected i)).post mine (.connected p.identity)) joined)

/-- Takes a node away, and tells the others. -/
def leave (n : Network) (id : String) : Network :=
  if n.endpoints.contains id then
    let rest := { n with endpoints := n.endpoints.erase id }
    rest.endpoints.values.foldl (fun n p => n.post p.mailbox (.disconnected id)) rest
  else n

/-- Cuts the link between two nodes, and tells both. -/
def cut (n : Network) (a b : String) : Network :=
  if link a b ∈ n.severed then n
  else
    let n := { n with severed := link a b :: n.severed }
    (n.notify a (.disconnected b)).notify b (.disconnected a)

/-- Tells a node that another one is connected, if that one is there. -/
def announce (n : Network) (receiver peer : String) : Network :=
  match n.identity? peer with
  | some i => n.notify receiver (.connected i)
  | none => n

/-- Restores a link that was cut, and tells both nodes. -/
def heal (n : Network) (a b : String) : Network :=
  if link a b ∈ n.severed then
    let n := { n with severed := n.severed.filter (· ≠ link a b) }
    (n.announce a b).announce b a
  else n

/-- The nodes that a node reaches. -/
def connections (n : Network) (id : String) : List Identity :=
  (n.endpoints.values.map (·.identity)).filter fun p => n.linked id p.id

/-- Writes a message from one node to another. -/
def write (n : Network) (sender receiver : String) (m : Message) :
    Except TransportError Unit × Network :=
  match if n.linked sender receiver then n.endpoints.get? receiver else none with
  | none => (.error (.notConnected receiver), n)
  | some p =>
    match n.mailboxes.get? p.mailbox with
    | some box =>
      if box.receiving then (.ok (), n.post p.mailbox (.message m)) else (.error .closed, n)
    | none => (.error .closed, n)

/-- Takes the next event out of a mailbox. -/
def take? (n : Network) (mailbox : Nat) : Option (TransportEvent × Network) :=
  match n.mailboxes.get? mailbox with
  | some ⟨e :: rest, receiving⟩ =>
    some (e, { n with mailboxes := n.mailboxes.insert mailbox ⟨rest, receiving⟩ })
  | _ => none

/-- Takes all events out of a mailbox. -/
def takeAll (n : Network) (mailbox : Nat) : List TransportEvent × Network :=
  match n.mailboxes.get? mailbox with
  | some box =>
    (box.events, { n with mailboxes := n.mailboxes.insert mailbox { box with events := [] } })
  | none => ([], n)

/-- Nothing will come into a mailbox any more: it is nobody's, and it is empty. -/
def ended (n : Network) (mailbox : Nat) : Bool :=
  !(n.endpoints.values.any fun p => p.mailbox == mailbox) && (n.take? mailbox).isNone

/-- Stops receiving; what is in the mailbox is lost. -/
def hangUp (n : Network) (mailbox : Nat) : Network :=
  { n with mailboxes := n.mailboxes.insert mailbox ⟨[], false⟩ }

instance : Transport Network where
  connections := connections
  write := write
  take? := take?
  ended := ended
  hangUp := hangUp

end Network

end Fleet
