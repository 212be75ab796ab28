import Fleet.Yaml.Scalar
import Fleet.Yaml.Scalar.Core

/-!
# Writing scalars

A text is written plain where it reads back as itself.  A text with line feeds becomes a literal
block, one that would read as something else is put between single quotation marks, and what none
of these can hold goes between double ones, where every character has an escape.

## Main definitions

* `WrittenStyle` — the ways in which a text is written.
* `styleOf` — the way for a text.
* `writeText` — a text as the value of a key, up to the end of its last line.
-/

namespace Fleet.Yaml

/-- A character that may be written as it is. -/
def isPrintable (c : Char) : Bool :=
  let n := c.toNat
  n == 0x0A || (0x20 ≤ n && n ≤ 0x7E) || (0xA0 ≤ n && n ≤ 0xFFFD && n ≠ 0xFEFF) || 0x10000 ≤ n

/-- Two neighbours are of these two kinds. -/
def hasNeighbours (first second : Char → Bool) : List Char → Bool
  | a :: b :: rest => (first a && second b) || hasNeighbours first second (b :: rest)
  | _ => false

/-! ## Which way -/

/-- A space. -/
def isBlankSpace (c : Char) : Bool := c == ' '

/-- The character at the end of a text is of this kind. -/
def endsWith (kind : Char → Bool) (cs : List Char) : Bool := cs.getLast?.any kind

/-- A character that starts something else than a plain scalar. -/
def isStartSign (c : Char) : Bool :=
  ['#', ',', '[', ']', '\x7b', '\x7d', '&', '*', '!', '|', '>', '\'', '"', '%', '@',
    '\x60'].contains c

/-- The end of a text, or a character that separates words, is next. -/
def gapNext : List Char → Bool
  | [] => true
  | c :: _ => isGap c || c == '\x00'

/-- A sign at the start of a text makes it something else than a plain scalar. -/
def startsOtherwise : List Char → Bool
  | [] => false
  | c :: rest => isStartSign c || ((c == '?' || c == ':' || c == '-') && gapNext rest)

/-- A text starts as the boundary of a document does. -/
def startsAsBoundary (cs : List Char) : Bool :=
  ['-', '-', '-'].isPrefixOf cs || ['.', '.', '.'].isPrefixOf cs

/-- After the first character there is a colon before a gap or a number sign after one. -/
def isBroken : List Char → Bool
  | [] => false
  | [_] => false
  | c :: d :: rest =>
    (d == ':' && gapNext rest) || (d == '#' && gapNext [c]) || isBroken (d :: rest)

/-- Every character may be written as it is, and no line break has a space before it. -/
def isClean (cs : List Char) : Bool := cs.all isPrintable && !hasNeighbours isBlankSpace isBreak cs

/-- A text that a plain scalar can hold. -/
def allowsPlain (cs : List Char) : Bool :=
  isClean cs && !cs.any isBreak && !cs.head?.any isBlankSpace && !endsWith isBlankSpace cs &&
    !startsOtherwise cs && !startsAsBoundary cs && !isBroken cs

/-- A text that single quotation marks can hold. -/
def allowsSingle (cs : List Char) : Bool := isClean cs && !hasNeighbours isBreak isBlankSpace cs

/-- A text that a literal block can hold. -/
def allowsLiteral (cs : List Char) : Bool := isClean cs && !endsWith isBlankSpace cs

/-- The ways in which a text is written. -/
inductive WrittenStyle where
  | plain
  | single
  | double
  | literal
deriving DecidableEq

/-- The way in which a text is written. -/
def styleOf (cs : List Char) : WrittenStyle :=
  if cs.contains '\n' then (if allowsLiteral cs then .literal else .double)
  else if !isAmbiguous cs && allowsPlain cs then .plain
  else if allowsSingle cs then .single
  else .double

/-! ## Quoted -/

/-- A run of spaces. -/
def margin (n : Nat) : List Char := List.replicate n ' '

/-- A text between single quotation marks, after the first one; `broken` tells that the last
character ended a line. -/
def writeSingle (indent : Nat) : Bool → List Char → List Char
  | broken, [] => (if broken then margin indent else []) ++ ['\'']
  | broken, c :: rest =>
    if isBreak c then
      (if c == '\n' && !broken then ['\n', '\n'] else [c]) ++ writeSingle indent true rest
    else if c == ' ' then ' ' :: writeSingle indent broken rest
    else
      (if broken then margin indent else []) ++ (if c == '\'' then ['\'', '\''] else [c]) ++
        writeSingle indent false rest

/-- The escape of a character by its code. -/
def codeEscape (c : Char) : List Char :=
  let n := c.toNat
  if n < 0x100 then 'x' :: Digit.hexadecimal Digit.upper 2 n
  else if n < 0x10000 then 'u' :: Digit.hexadecimal Digit.upper 4 n
  else 'U' :: Digit.hexadecimal Digit.upper 8 n

/-- The escape of a character after its backslash. -/
def escapeOf (c : Char) : List Char :=
  match c with
  | '\x00' => ['0']
  | '\x07' => ['a']
  | '\x08' => ['b']
  | '\t' => ['t']
  | '\n' => ['n']
  | '\x0b' => ['v']
  | '\x0c' => ['f']
  | '\r' => ['r']
  | '\x1b' => ['e']
  | '"' => ['"']
  | '\\' => ['\\']
  | '\u0085' => ['N']
  | '\u2028' => ['L']
  | '\u2029' => ['P']
  | c => codeEscape c

/-- A character between double quotation marks. -/
def writeEscaped (c : Char) : List Char :=
  if !isPrintable c || isBreak c || c == '"' || c == '\\' then '\\' :: escapeOf c else [c]

/-- A text between double quotation marks. -/
def writeDouble (cs : List Char) : List Char := '"' :: cs.flatMap writeEscaped ++ ['"']

/-! ## Literal -/

/-- How far each collection is indented inside of the one around it. -/
def indentStep : Nat := 2

/-- The sign for how far a literal block is indented; it is needed only where the first line does
not show it. -/
def indentSign : List Char → List Char
  | [] => []
  | c :: _ => if c == ' ' || isBreak c then Decimal.digits indentStep else []

/-- The sign for what becomes of the line breaks at the end of a literal block. -/
def chompSign (cs : List Char) : List Char :=
  match cs.reverse with
  | [] => ['-']
  | [c] => if isBreak c then ['+'] else ['-']
  | c :: d :: _ => if !isBreak c then ['-'] else if isBreak d then ['+'] else []

/-- The lines of a literal block; `broken` tells that the last character ended a line. -/
def writeLines (indent : Nat) : Bool → List Char → List Char
  | _, [] => []
  | broken, c :: rest =>
    if isBreak c then c :: writeLines indent true rest
    else (if broken then margin indent else []) ++ c :: writeLines indent false rest

/-- A literal block. -/
def writeLiteral (indent : Nat) (cs : List Char) : List Char :=
  '|' :: indentSign cs ++ chompSign cs ++ '\n' :: writeLines indent true cs

/-! ## All -/

/-- A text as the value of a key, with the end of its last line; its other lines are indented. -/
def writeText (indent : Nat) (cs : List Char) : List Char :=
  match styleOf cs with
  | .plain => cs ++ ['\n']
  | .single => '\'' :: writeSingle indent false cs ++ ['\n']
  | .double => writeDouble cs ++ ['\n']
  | .literal => writeLiteral indent cs ++ if endsWith isBreak cs then [] else ['\n']

end Fleet.Yaml
