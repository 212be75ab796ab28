import Fleet.Number.Binary64
import Fleet.Instant

/-!
# Members of the cluster

A node is known by its identity, an id and the address where it accepts connections.  Each node
reports its load from time to time, and a member is what one node knows of another: its identity,
the newest load it reported, and whether a connection to it exists.

## Main definitions

* `Identity`, `Load`, `Member` — the types.
* `Load.cpuKnown`, `Load.free` — what a load says.
-/

namespace Fleet

/-- Who a node is. -/
structure Identity where
  id : String
  address : String
deriving DecidableEq, Inhabited

/-- The resources of a node at one instant.  Memory counts in megabytes; a negative reading of the
processors means that the machine gives none. -/
structure Load where
  used : UInt64
  max : UInt64
  cpu : Binary64
  at_ : Instant
deriving DecidableEq

/-- The least sum that memory counters do not reach. -/
def memoryBound : Nat := 1 <<< 64

/-- The sum of two amounts of memory, or the greatest amount if there is no room for the sum. -/
def saturatingAdd (a b : UInt64) : UInt64 :=
  (min (a.toNat + b.toNat) (memoryBound - 1)).toUInt64

theorem toNat_saturatingAdd (a b : UInt64) :
    (saturatingAdd a b).toNat = min (a.toNat + b.toNat) (memoryBound - 1) := by
  have h : min (a.toNat + b.toNat) (memoryBound - 1) < 2 ^ 64 := by
    simp only [memoryBound]; omega
  simpa [saturatingAdd] using Nat.mod_eq_of_lt h

/-- What is left of one amount of memory after another, zero if that is more. -/
def saturatingSub (a b : UInt64) : UInt64 := (a.toNat - b.toNat).toUInt64

theorem toNat_saturatingSub (a b : UInt64) :
    (saturatingSub a b).toNat = a.toNat - b.toNat := by
  have h : a.toNat - b.toNat < 2 ^ 64 := Nat.lt_of_le_of_lt (Nat.sub_le ..) a.toNat_lt
  simpa [saturatingSub] using Nat.mod_eq_of_lt h

namespace Load

/-- What stands for a reading of the processors where there is none. -/
def unknownCpu : Binary64 := .ofInt (-1)

/-- The node gives a reading of its processors. -/
def cpuKnown (l : Load) : Bool := l.cpu.atLeastZero

/-- The memory that is left for new services. -/
def free (l : Load) : UInt64 := saturatingSub l.max l.used

end Load

/-- What a node knows of a node. -/
structure Member where
  identity : Identity
  load : Option Load
  available : Bool
deriving DecidableEq

namespace Member

/-- A node that is not connected and has not reported yet. -/
def new (identity : Identity) : Member := ⟨identity, none, false⟩

/-- The id of a member. -/
def id (m : Member) : String := m.identity.id

/-- Whether a load may take the place of the one stored: it is not older. -/
def accepts (m : Member) (l : Load) : Bool :=
  match m.load with
  | none => true
  | some old => old.at_.le l.at_

/-- A member with a load it accepts; an older load changes nothing. -/
def report (m : Member) (l : Load) : Member :=
  if m.accepts l then { m with load := some l } else m

@[simp] theorem identity_report (m : Member) (l : Load) : (m.report l).identity = m.identity := by
  unfold report
  split <;> rfl

@[simp] theorem available_report (m : Member) (l : Load) :
    (m.report l).available = m.available := by
  unfold report
  split <;> rfl

end Member

end Fleet
