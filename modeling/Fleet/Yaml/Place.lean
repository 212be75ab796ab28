/-!
# Places in a YAML text

YAML is read by lines and columns, so a text is first laid out as a list of places: each character
with the line and column in which it stands.  A line may end in a line feed, a carriage return,
both, a next line, a line separator or a paragraph separator; the first four are read as one line
feed.

## Main definitions

* `Place` — a character and where it stands.
* `places?` — the places of a text, none if it holds a character that no YAML text may hold.
* `atGap`, `atMark` — what the next characters are.
-/

namespace Fleet.Yaml

/-- A character that ends a line. -/
def isBreak (c : Char) : Bool :=
  c == '\n' || c == '\r' || c == '\u0085' || c == '\u2028' || c == '\u2029'

/-- A space or a tabulator. -/
def isSpace (c : Char) : Bool := c == ' ' || c == '\t'

/-- A character that separates words. -/
def isGap (c : Char) : Bool := isSpace c || isBreak c

/-- The character that marks the byte order of a text. -/
def byteOrderMark : Char := '\uFEFF'

/-- A character that a text may hold. -/
def isAllowed (c : Char) : Bool :=
  let n := c.toNat
  n == 0x09 || n == 0x0A || n == 0x0D || (0x20 ≤ n && n ≤ 0x7E) || n == 0x85 ||
    (0xA0 ≤ n && n ≤ 0xFFFD) || 0x10000 ≤ n

/-- A character and where it stands: how many characters are before it in the text, how many lines
are before its line, and how many characters are before it in its line. -/
structure Place where
  char : Char
  index : Nat
  line : Nat
  column : Nat
deriving DecidableEq

/-- The ends of lines that are read as a line feed. -/
def plainBreak (c : Char) : Char := if c == '\r' || c == '\u0085' then '\n' else c

/-- Lays out a text from a place on. -/
def layOut (index line column : Nat) : List Char → List Place
  | [] => []
  | '\r' :: '\n' :: rest => ⟨'\n', index, line, column⟩ :: layOut (index + 2) (line + 1) 0 rest
  | c :: rest =>
    ⟨plainBreak c, index, line, column⟩ ::
      if isBreak c then layOut (index + 1) (line + 1) 0 rest
      else layOut (index + 1) line (column + 1) rest

/-- A text without the mark of its byte order. -/
def dropMark : List Char → List Char
  | [] => []
  | c :: rest => if c == byteOrderMark then rest else c :: rest

/-- The places of a text, none if it holds a character that no text may hold. -/
def places? (text : List Char) : Option (List Place) :=
  let text := dropMark text
  if text.all isAllowed then some (layOut 0 0 0 text) else none

/-- The next character separates words, or there is none. -/
def atGap : List Place → Bool
  | [] => true
  | p :: _ => isGap p.char

/-- The next character is this one. -/
def isNext (c : Char) : List Place → Bool
  | [] => false
  | p :: _ => p.char == c

/-- The line starts with three times the same character and a gap after them. -/
def atMark (c : Char) : List Place → Bool
  | p :: q :: r :: rest =>
    p.column == 0 && p.char == c && q.char == c && r.char == c && atGap rest
  | _ => false

/-- A document starts or ends at this line. -/
def atBoundary (ps : List Place) : Bool := atMark '-' ps || atMark '.' ps

/-- The places after the end of the line, none if there is more on it than spaces and a comment. -/
def skipLine (ps : List Place) : Option (List Place) :=
  let ps := ps.dropWhile (isSpace ·.char)
  let ps := if isNext '#' ps then ps.dropWhile (!isBreak ·.char) else ps
  match ps with
  | [] => some []
  | p :: rest => if isBreak p.char then some rest else none

end Fleet.Yaml
