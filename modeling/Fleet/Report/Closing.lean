import Fleet.Node.Membership
import Fleet.Report
import Fleet.Transport.Scripted

/-!
# The report of a node that stops

A node that stops says how it saw the cluster last: the members that it knew, and which of them was
the head.

## Main definitions

* `Node.closingReport?` — the report.
* `NodeConfig.aloneReport?` — the report of a node that never met another one.
-/

namespace Fleet

/-- How a node sees the cluster when it stops. -/
def Node.closingReport? (n : Node) : Option String :=
  (Report.members? n.roster.members n.roster.head.id).map (· ++ "\n")

/-- The report of a node that has taken its own load once and met nobody, given a reading of the
processors and the time of day. -/
def NodeConfig.aloneReport? (c : NodeConfig) (memory : UInt64) (cpu : Binary64) (now : Instant) :
    Option String :=
  let site : Site Scripted :=
    { node := .ofConfig c memory, links := .empty, drawn := 0, calls := [], clock := 0,
      noticed := 0, now }
  (site.publish cpu).2.node.closingReport?

end Fleet
