import Fleet.Text.Utf8
import Fleet.Number.Binary64

/-!
# JSON values

A value keeps what a reader of a typed record has to know: the members of an object in the order of
the text with repetitions, and for a literal that has no value (half of a surrogate pair, a number
too large for binary64) the fact that it was there.  Such a literal does no harm where the value is
ignored and refuses the text where it is used.

## Main definitions

* `Json` — a value.
* `Json.Exact` — a value all of whose literals have a value.
* `Json.depth` — how many arrays and objects lie inside each other.
* `Json.sorted` — the value with the members of every object in the order of their keys.
-/

namespace Fleet

/-- The value of a number literal: whole numbers of 64 bits are kept exactly, all others are
binary64. -/
inductive Json.Number where
  /-- A whole number without sign. -/
  | natural (n : UInt64)
  /-- A negative whole number, at least `-2 ^ 63`. -/
  | negative (n : Int)
  | real (x : Binary64)
  /-- A literal beyond the range of binary64. -/
  | tooLarge
deriving DecidableEq, Inhabited

/-- A JSON value. -/
inductive Json where
  | null
  | bool (b : Bool)
  | number (n : Json.Number)
  /-- A string; none if the literal stands for no text. -/
  | string (text : Option String)
  | array (items : List Json)
  | object (members : List (Option String × Json))
deriving Inhabited

namespace Json

/-- A string that is a text. -/
def text (s : String) : Json := .string (some s)

/-- A whole number of 64 bits. -/
def word (n : UInt64) : Json := .number (.natural n)

/-- An object with these members, in this order. -/
def record (members : List (String × Json)) : Json :=
  .object (members.map fun (k, v) => (some k, v))

mutual

/-- How many arrays and objects lie inside each other. -/
def depth : Json → Nat
  | .array items => 1 + depthItems items
  | .object members => 1 + depthMembers members
  | _ => 0

/-- The greatest depth of the items of an array. -/
def depthItems : List Json → Nat
  | [] => 0
  | v :: rest => max v.depth (depthItems rest)

/-- The greatest depth of the members of an object. -/
def depthMembers : List (Option String × Json) → Nat
  | [] => 0
  | (_, v) :: rest => max v.depth (depthMembers rest)

end

mutual

/-- Every literal in the value has a value of its own. -/
def exact : Json → Bool
  | .number .tooLarge => false
  | .string none => false
  | .array items => exactItems items
  | .object members => exactMembers members
  | _ => true

/-- Every item of an array is exact. -/
def exactItems : List Json → Bool
  | [] => true
  | v :: rest => v.exact && exactItems rest

/-- Every member of an object is exact, its key included. -/
def exactMembers : List (Option String × Json) → Bool
  | [] => true
  | (k, v) :: rest => k.isSome && v.exact && exactMembers rest

end

mutual

/-- The value with the members of every object in the order of their keys. -/
def sorted : Json → Json
  | .array items => .array (sortedItems items)
  | .object members =>
    .object ((sortedMembers members).mergeSort fun a b => decide (a.1.getD "" ≤ b.1.getD ""))
  | j => j

/-- The items of an array, each of them sorted. -/
def sortedItems : List Json → List Json
  | [] => []
  | v :: rest => v.sorted :: sortedItems rest

/-- The members of an object in the order of the text, the value of each of them sorted. -/
def sortedMembers : List (Option String × Json) → List (Option String × Json)
  | [] => []
  | (k, v) :: rest => (k, v.sorted) :: sortedMembers rest

end

/-- A text may nest arrays and objects this deep where all of it is used. -/
def maxDepth : Nat := 127

/-- A value that can be kept whole: its literals have values and it is not too deep. -/
def usable (j : Json) : Bool := j.exact && j.depth ≤ maxDepth

end Json

end Fleet
