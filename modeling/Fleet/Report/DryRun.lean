import Fleet.Config
import Fleet.Member.Head

/-!
# Dry runs

What a node would do is shown without starting it: who it is, its limits, its peers, and the head of
the cluster once every peer is connected.

## Main definitions

* `programName`, `programVersion` — what the program calls itself.
* `NodeConfig.expectedHead` — the head once every peer is connected.
* `Report.dryRun` — the report.
-/

namespace Fleet

/-- The name of the program. -/
def programName : String := "cloudmesh"

/-- The version of the program. -/
def programVersion : String := "0.1.0"

/-- The smallest id of the node and its peers. -/
def NodeConfig.expectedHead (c : NodeConfig) : String :=
  (firstLeast compare (c.peers.map (·.id) ++ [c.id])).getD c.id

/-- What a node with a configuration would do; `path` is where the configuration comes from and
`memory` the budget for services. -/
def Report.dryRun (c : NodeConfig) (path : String) (memory : UInt64) : String :=
  s!"{programName} v{programVersion} - Dry Run Mode\n\n" ++
  s!"Config: {path}\n\n" ++
  "Node:\n" ++
  s!"  id:        {c.id}\n" ++
  s!"  listen:    {c.listen}\n" ++
  s!"  advertise: {c.identity.address}\n" ++
  s!"  memory:    {Decimal.text memory.toNat} MB for services\n" ++
  s!"  timeouts:  query {Decimal.text c.queryTimeout.toNat}s, " ++
    s!"snapshot every {Decimal.text c.reportInterval.toNat}s\n\n" ++
  s!"Peers ({Decimal.text c.peers.length}):\n" ++
  String.join (c.peers.map fun p => s!"  - {p.id} @ {p.address}\n") ++
  s!"\nHead when all peers are up: {c.expectedHead}\n"

end Fleet
