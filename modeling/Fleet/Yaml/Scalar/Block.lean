import Fleet.Yaml.Scalar

/-!
# Block scalars

A block scalar is the indented lines after its header.  The header may say how far they are
indented, else the first line that is not empty says it, and what becomes of the line breaks at the
end.  In a literal scalar line breaks stand for themselves; in a folded one a break between two
lines stands for a space unless one of them starts with more space.

## Main definitions

* `Chomping` — what becomes of the line breaks at the end.
* `readHeader?` — the header after its first character.
* `readBlock?` — the lines.
-/

namespace Fleet.Yaml

/-- What becomes of the line breaks at the end: only the first is kept, none, or all. -/
inductive Chomping where
  | clip
  | strip
  | keep
deriving DecidableEq

/-- The sign for what becomes of the line breaks at the end, and what follows it. -/
def readChomping : List Place → Option Chomping × List Place
  | [] => (none, [])
  | p :: rest =>
    if p.char == '+' then (some .keep, rest)
    else if p.char == '-' then (some .strip, rest)
    else (none, p :: rest)

/-- The digit for how far the lines are indented, and what follows it; zero is refused. -/
def readIncrement? : List Place → Option (Option Nat × List Place)
  | [] => some (none, [])
  | p :: rest =>
    if p.char == '0' then none
    else if p.char.isDigit then some (some (p.char.toNat - 48), rest)
    else some (none, p :: rest)

/-- The header of a block scalar, its two signs in either order, and the places of its lines. -/
def readHeader? (ps : List Place) : Option (Chomping × Option Nat × List Place) := do
  let (chomping, ps) := readChomping ps
  let (increment, ps) ← readIncrement? ps
  let (late, ps) :=
    if chomping.isNone && increment.isSome then readChomping ps else (none, ps)
  let ps ← skipLine ps
  some ((chomping.or late).getD .clip, increment, ps)

/-- What has been read of a block scalar: its text and the empty lines after it, the last character
first. -/
structure BlockText where
  text : List Char
  /-- The break at the end of the last line. -/
  ending : List Char
  /-- The breaks of the empty lines since then. -/
  blank : List Char
  /-- The last line starts with more space. -/
  indented : Bool

namespace BlockText

/-- Nothing has been read. -/
def empty : BlockText := ⟨[], [], [], false⟩

/-- Starts a line with its first character. -/
def startLine (literal : Bool) (c : Char) (b : BlockText) : BlockText :=
  let joined := !literal && b.ending == ['\n'] && !b.indented && !isSpace c
  let text :=
    if joined then (if b.blank.isEmpty then ' ' :: b.text else b.text) else b.ending ++ b.text
  ⟨c :: (b.blank ++ text), [], [], isSpace c⟩

/-- The whole text. -/
def finish (chomping : Chomping) (b : BlockText) : List Char :=
  match chomping with
  | .strip => b.text.reverse
  | .clip => (b.ending ++ b.text).reverse
  | .keep => (b.blank ++ b.ending ++ b.text).reverse

end BlockText

/-- Where the next character of a block scalar stands. -/
inductive BlockState where
  /-- Before the text of a line; the widest margin of the empty lines read so far. -/
  | margin (widest : Nat)
  /-- In the text of a line. -/
  | line

/-- Reads the lines of a block scalar, which are indented by `indent`, or by at least `least` if
that is not known yet. -/
def readBlock? (literal : Bool) (chomping : Chomping) (least : Nat) :
    Option Nat → BlockState → BlockText → List Place → Option (List Char × List Place)
  | _, _, b, [] => some (b.finish chomping, [])
  | indent, .line, b, p :: rest =>
    if isBreak p.char then
      readBlock? literal chomping least indent (.margin 0) { b with ending := [p.char] } rest
    else readBlock? literal chomping least indent .line { b with text := p.char :: b.text } rest
  | indent, .margin widest, b, p :: rest =>
    let inMargin := indent.all (p.column < ·)
    if inMargin && p.char == ' ' then
      readBlock? literal chomping least indent (.margin widest) b rest
    else if inMargin && p.char == '\t' then none
    else
      let widest := max widest p.column
      if isBreak p.char then
        readBlock? literal chomping least indent (.margin widest)
          { b with blank := p.char :: b.blank } rest
      else
        let found := indent.getD (max widest least)
        if p.column = found then
          readBlock? literal chomping least (some found) .line (b.startLine literal p.char) rest
        else some (b.finish chomping, p :: rest)

end Fleet.Yaml
