import Fleet.Table

/-!
# Listeners

Each channel has listeners, ordered by priority, the lower first, and among equal priorities by the
order of their registration. Registrations on all channels are numbered in one sequence, and each
one sorts its channel by priority and number.

## Main definitions

* `Listeners` — the listeners of all channels, each with the number of its registration.
* `Listeners.register`, `Listeners.unregister`, `Listeners.count`, `Listeners.fire` — what is done
  with them.
-/

namespace Fleet

/-- The priority of a listener that comes before all others. -/
def highestPriority : Int := -64

/-- The priority of an ordinary listener. -/
def normalPriority : Int := 0

/-- The priority of a listener that comes after all others. -/
def lowestPriority : Int := 64

/-- A listener and its priority. -/
structure Listener (α : Type) where
  priority : Int
  handler : α

/-- A listener and the number of its registration. -/
structure Listeners.Entry (α : Type) extends Listener α where
  number : Nat

/-- The listeners of each channel. -/
structure Listeners (α : Type) where
  channels : Table String (List (Listeners.Entry α))
  /-- The number of the next registration, on whatever channel; for a count of 64 bits see
  `Listeners.entries_register_wrapped`. -/
  next : Nat

namespace Listeners

variable {α : Type}

/-- No listeners. -/
def empty : Listeners α := ⟨.empty, 0⟩

/-- The entries of a channel, in their order. -/
def entries (ls : Listeners α) (channel : String) : List (Entry α) :=
  (ls.channels.get? channel).getD []

/-- Whether an entry may stand before another: the priority decides, and among equal priorities the
number. -/
def Entry.before (a b : Entry α) : Bool :=
  a.priority < b.priority || a.priority = b.priority && a.number ≤ b.number

/-- The entry that a listener gets, with the next number. -/
def entry (ls : Listeners α) (l : Listener α) : Entry α := { l with number := ls.next }

/-- Registers a listener: it comes last, and the listeners of its channel are sorted anew. -/
def register (ls : Listeners α) (channel : String) (priority : Int) (handler : α) : Listeners α :=
  let registered := ls.entries channel ++ [ls.entry ⟨priority, handler⟩]
  ⟨ls.channels.insert channel (registered.mergeSort Entry.before), ls.next + 1⟩

/-- Takes all listeners of a channel away, and tells how many there were. -/
def unregister (ls : Listeners α) (channel : String) : Nat × Listeners α :=
  ((ls.entries channel).length, { ls with channels := ls.channels.erase channel })

/-- The number of listeners of a channel. -/
def count (ls : Listeners α) (channel : String) : Nat := (ls.entries channel).length

/-- The handlers of a channel, in their order. -/
def handlers (ls : Listeners α) (channel : String) : List α := (ls.entries channel).map (·.handler)

/-- Calls the handlers of a channel one after another, each with what the one before has left, and
tells how many there were. -/
def fire {β : Type} (ls : Listeners α) (channel : String) (call : β → α → β) (b : β) : Nat × β :=
  let called := ls.handlers channel
  (called.length, called.foldl call b)

end Listeners

end Fleet
