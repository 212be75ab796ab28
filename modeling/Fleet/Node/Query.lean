import Fleet.Node

/-!
# Queries

A query goes to exactly one connection and waits there for its response.  It is pending from before
it is written, so that no response can come too early.

## Main definitions

* `Query.step` — the next step of a query.
* `Query.canStep` — whether there is one.
-/

namespace Fleet.Query

variable {σ : Type}

/-- The result that an outcome means. -/
def ofReply : Reply → Query
  | .answer m => .done (.ok (some m))
  | .gone => .done (.ok none)

/-- Looks whether the outcome is there, and goes on as given if it is not. -/
def poll (id : Uuid) (otherwise : Query × Site σ) (s : Site σ) : Query × Site σ :=
  match s.node.messenger.takeReply id with
  | some (r, messenger) => (ofReply r, s.withMessenger messenger)
  | none => otherwise

/-- What happens when the time of a query is over. -/
def expire (id : Uuid) (s : Site σ) : Query × Site σ :=
  if s.node.messenger.pending.contains id then
    (.done (.ok none), s.withMessenger (s.node.messenger.dropQuery id))
  else (.overdue id, s)

variable [Transport σ]

/-- The next step of a query; a query that has ended stays as it is. -/
def step (s : Site σ) : Query → Query × Site σ
  | .opening m timeout =>
    match s.resolve m.targets with
    | [target] =>
      let (id, s) := s.draw
      (.writing id target (m.intoQuery id) timeout,
        s.withMessenger (s.node.messenger.openQuery id target))
    | found => (.done (.error (.invalidTarget m.channel found.length)), s)
  | .writing id target m timeout =>
    match s.write target m with
    | (.ok _, s) => (.waiting id (s.clock + timeout), s)
    | (.error _, s) => (.done (.ok none), s.withMessenger (s.node.messenger.dropQuery id))
  | .waiting id deadline =>
    poll id (if deadline ≤ s.noticed then expire id s else (.waiting id deadline, s)) s
  | .overdue id => poll id (.overdue id, s) s
  | .done r => (.done r, s)

/-- Whether a query can go on. -/
def canStep (node : Node) (noticed : Nat) : Query → Bool
  | .opening .. | .writing .. => true
  | .waiting id deadline => node.messenger.replies.contains id || deadline ≤ noticed
  | .overdue id => node.messenger.replies.contains id
  | .done _ => false

/-- When the time of a query is over. -/
def deadline? : Query → Option Nat
  | .waiting _ deadline => some deadline
  | _ => none

end Fleet.Query
