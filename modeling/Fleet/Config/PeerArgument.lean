import Fleet.Member
import Fleet.Text.Blank

/-!
# Peers on the command line

A peer is given as `ID=ADDRESS`.  The first equals sign separates the two, and blank characters
around them do not count.

## Main definitions

* `Identity.ofArgument?` — the peer that an argument stands for.
* `badPeerMessage` — the wording for an argument that stands for none.
-/

namespace Fleet

/-- The parts of a text before and after the first equals sign. -/
def splitAtEquals? : List Char → Option (List Char × List Char)
  | [] => none
  | c :: rest =>
    if c = '=' then some ([], rest)
    else (splitAtEquals? rest).map fun (before, after) => (c :: before, after)

/-- The peer that an argument stands for. -/
def Identity.ofArgument? (arg : String) : Option Identity := do
  let (before, after) ← splitAtEquals? arg.toList
  let id := Text.trim (String.ofList before)
  let address := Text.trim (String.ofList after)
  if id = "" ∨ address = "" then none else some ⟨id, address⟩

/-- The wording for an argument that stands for no peer. -/
def badPeerMessage (arg : String) : String := s!"Invalid peer '{arg}', expected ID=ADDRESS"

end Fleet
