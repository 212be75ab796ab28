import Fleet.Member.Roster

/-!
# The head of the cluster

Nothing is elected: among the members that a node counts as available, the one with the smallest id
is the head.  When it goes away the next smallest takes its place with the next decision.

## Main definitions

* `firstLeast` — the first element of a list that no other one precedes.
* `headOf` — the head among members.
* `Roster.head`, `Roster.isSelfHead` — the head in one node's view.
-/

namespace Fleet

/-- The first of the least elements of a list: a later element takes over only if it is strictly
smaller than the one held. -/
def firstLeast {α : Type} (compare : α → α → Ordering) : List α → Option α
  | [] => none
  | a :: rest => some (rest.foldl (fun best x => if compare best x = .gt then x else best) a)

/-- The available member with the smallest id. -/
def headOf (members : List Member) : Option Member :=
  firstLeast (fun a b => compare a.id b.id) (members.filter (·.available))

namespace Roster

/-- The head in this node's view; there always is one, since the node itself is available. -/
def head (r : Roster) : Member := (headOf r.members).getD r.self

/-- The node itself is the head. -/
def isSelfHead (r : Roster) : Bool := r.head.id = r.selfId

end Roster

end Fleet
