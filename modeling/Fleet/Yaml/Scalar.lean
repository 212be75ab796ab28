import Fleet.Yaml.Place

/-!
# Gaps inside scalars

Where a scalar goes over several lines, the gap between two words is folded: a single line break
stands for a space, of several breaks the first one is dropped, and spaces beside a break do not
count.  A gap without a break stands for itself.

## Main definitions

* `ScalarStyle` — the ways to write a scalar.
* `Gap` — what has been read since the last word.
* `Gap.folded` — the text that a gap stands for.
-/

namespace Fleet.Yaml

/-- The ways to write a scalar. -/
inductive ScalarStyle where
  | plain
  | quoted
  | literal
  | folded
deriving DecidableEq

/-- What has been read since the last word of a scalar. -/
inductive Gap where
  | none
  /-- Spaces, the last one first. -/
  | spaces (cs : List Char)
  /-- Line breaks: the first one unless it was escaped, and the others, the last one first. -/
  | lines (first : Option Char) (more : List Char)

namespace Gap

/-- Something stands between the words. -/
def isOpen : Gap → Bool
  | none => false
  | _ => true

/-- A line ended between the words. -/
def hasBreak : Gap → Bool
  | lines _ _ => true
  | _ => false

/-- The gap with another space or line break. -/
def push (c : Char) : Gap → Gap
  | none => if isBreak c then lines (some c) [] else spaces [c]
  | spaces cs => if isBreak c then lines (some c) [] else spaces (c :: cs)
  | lines first more => if isBreak c then lines first (c :: more) else lines first more

/-- The text that a gap stands for, its last character first. -/
def folded : Gap → List Char
  | none => []
  | spaces cs => cs
  | lines first more =>
    if first = some '\n' then (if more.isEmpty then [' '] else more) else more ++ first.toList

end Gap

end Fleet.Yaml
