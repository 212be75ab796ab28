import Fleet.Yaml.Scalar

/-!
# Plain scalars

A plain scalar ends before a colon with a gap after it, before a comment, before the boundary of a
document and where a line is not indented enough; inside of brackets also before a comma or another
bracket.

## Main definitions

* `readPlain?` — reads a plain scalar.
-/

namespace Fleet.Yaml

/-- The brackets of flow collections and the comma between their items. -/
def isFlowSign (c : Char) : Bool := c == ',' || c == '[' || c == ']' || c == '{' || c == '}'

/-- A character ends a plain scalar, given what follows it. -/
def endsPlain (flow : Bool) (c : Char) (rest : List Place) : Bool :=
  (c == ':' && atGap rest) || (flow && isFlowSign c)

/-- A colon inside of brackets before a character that cannot follow it. -/
def badColon (flow : Bool) (c : Char) (rest : List Place) : Bool :=
  flow && c == ':' &&
    match rest with
    | [] => false
    | p :: _ => isFlowSign p.char || p.char == '?'

/-- A place where a new word cannot start. -/
def endsGap (flow : Bool) (least : Nat) (p : Place) (rest : List Place) : Bool :=
  p.char == '#' || (!flow && p.column < least) || atBoundary (p :: rest)

/-- Reads a plain scalar whose lines are indented by at least `least`; `text` is what has been read,
last character first.  Gives the text, what is left, and whether line breaks were read after it. -/
def readPlain? (flow : Bool) (least : Nat) :
    Gap → List Char → List Place → Option (List Char × List Place × Bool)
  | gap, text, [] => some (text.reverse, [], gap.hasBreak)
  | gap, text, p :: rest =>
    if isGap p.char then
      if gap.hasBreak && p.char == '\t' && p.column < least then none
      else readPlain? flow least (gap.push p.char) text rest
    else if (gap.isOpen && endsGap flow least p rest) || endsPlain flow p.char rest then
      some (text.reverse, p :: rest, gap.hasBreak)
    else if badColon flow p.char rest then none
    else readPlain? flow least .none (p.char :: (gap.folded ++ text)) rest

end Fleet.Yaml
