import Fleet.Member.Head

/-!
# Placement

A new service goes to the member that would use the least memory with it.  Readings of the
processors break a tie, but only if every tied member gives one; otherwise the first of them in
the order of the list is taken.  Only available members that have reported a load take part.

## Main definitions

* `projected` — the memory a member would use with the service.
* `compareLoads` — the ranking of two loads.
* `selectFrom` — the member that is chosen.
-/

namespace Fleet

/-- What placement looks at in a request, in megabytes. -/
structure Demand where
  memory : UInt64
deriving DecidableEq

/-- The memory a node would use with the service, capped at the greatest amount. -/
def projected (l : Load) (d : Demand) : UInt64 := saturatingAdd l.used d.memory

/-- The ranking of two loads, the preferred one first: less projected memory, then less processor
load if both readings are known. -/
def compareLoads (a b : Load) (d : Demand) : Ordering :=
  match compare (projected a d) (projected b d) with
  | .eq => if a.cpuKnown && b.cpuKnown then (a.cpu.compare? b.cpu).getD .eq else .eq
  | order => order

/-- The available members that have reported a load, with it. -/
def candidates (members : List Member) : List (Member × Load) :=
  (members.filter (·.available)).filterMap fun m => m.load.map fun l => (m, l)

/-- The candidates whose projected memory is least. -/
def tied (members : List Member) (d : Demand) : List (Member × Load) :=
  let cs := candidates members
  match firstLeast compare (cs.map fun c => projected c.2 d) with
  | none => []
  | some lowest => cs.filter fun c => projected c.2 d = lowest

/-- The member that a service goes to. -/
def selectFrom (members : List Member) (d : Demand) : Option Member :=
  let best := tied members d
  if best.all fun c => c.2.cpuKnown then
    (firstLeast (fun a b => compareLoads a.2 b.2 d) best).map Prod.fst
  else best.head?.map Prod.fst

/-- The member that a service goes to in one node's view. -/
def Roster.select (r : Roster) (d : Demand) : Option Member := selectFrom r.members d

end Fleet
