import Fleet.Yaml.Scalar.Block
import Fleet.Yaml.Scalar.Plain
import Fleet.Yaml.Scalar.Quoted
import Fleet.Yaml.Token.Property

/-!
# Reading tokens

Indentation opens and closes block collections.  A key needs no sign of its own: that a value was a
key shows only at the colon after it, so the reader remembers the last value that may have been one
and puts the tokens of the key before it when the colon comes.  Such a key must end on its line and
within 1024 characters.

## Main definitions

* `Reading` — what the reader remembers.
* `Reading.step?` — reads what stands at the next place.
* `tokens?` — the tokens of a text.
-/

namespace Fleet.Yaml

/-- A value that may turn out to be a key. -/
structure Candidate where
  /-- Nothing else than a key can stand there. -/
  required : Bool
  /-- How many tokens are before it. -/
  before : Nat
  place : Place

/-- What the reader of tokens remembers. -/
structure Reading where
  rest : List Place
  /-- The tokens read so far, the last one first. -/
  tokens : List Token
  /-- The columns of the open block collections, the innermost first. -/
  columns : List Nat
  /-- A key may start here without a sign. -/
  keyAllowed : Bool
  candidate : Option Candidate
  /-- The candidates before each of the open brackets, the innermost first. -/
  outer : List (Option Candidate)

/-- The greatest length of a key without a sign. -/
def maxKeyLength : Nat := 1024

/-- A candidate that can no longer be a key when the reader has come to a place. -/
def Candidate.isStale (c : Candidate) (p : Place) : Bool :=
  c.place.line < p.line || c.place.index + maxKeyLength < p.index

namespace Reading

/-- The start of a text. -/
def start (ps : List Place) : Reading := ⟨ps, [], [], true, none, []⟩

/-- The reader is inside of brackets. -/
def inFlow (s : Reading) : Bool := !s.outer.isEmpty

/-- The first column that is inside of the innermost block collection. -/
def inside (s : Reading) : Nat :=
  match s.columns with
  | [] => 0
  | n :: _ => n + 1

/-- Appends a token. -/
def emit (t : Token) (s : Reading) : Reading := { s with tokens := t :: s.tokens }

/-- Appends a token and goes on at another place. -/
def emitTo (t : Token) (rest : List Place) (s : Reading) : Reading :=
  { s with tokens := t :: s.tokens, rest := rest }

/-- Puts a token behind the first `before` ones. -/
def insert (before : Nat) (t : Token) (s : Reading) : Reading :=
  let (late, early) := s.tokens.splitAt (s.tokens.length - before)
  { s with tokens := late ++ t :: early }

/-- Says whether a key may start at the next place. -/
def allowKey (allowed : Bool) (s : Reading) : Reading := { s with keyAllowed := allowed }

/-! ## Space between tokens -/

/-- Skips spaces, comments and line breaks; `comment` tells that a comment has started.  Gives what
is left and whether a key may start there. -/
def skipSpace (flow : Bool) : Bool → Bool → List Place → List Place × Bool
  | allowed, _, [] => ([], allowed)
  | allowed, comment, p :: rest =>
    if isBreak p.char then skipSpace flow (allowed || !flow) false rest
    else if comment then skipSpace flow allowed true rest
    else if p.char == ' ' || (p.char == '\t' && (flow || !allowed)) ||
        (p.column == 0 && p.char == byteOrderMark) then
      skipSpace flow allowed false rest
    else if p.char == '#' then skipSpace flow allowed true rest
    else (p :: rest, allowed)

/-- Goes on to the next token. -/
def skip (s : Reading) : Reading :=
  let (rest, allowed) := skipSpace s.inFlow s.keyAllowed false s.rest
  { s with rest := rest, keyAllowed := allowed }

/-! ## Block collections -/

/-- Closes the block collections whose columns are at least `least`. -/
def closeBlocks (least : Nat) (s : Reading) : Reading :=
  if s.inFlow then s
  else
    let closed := s.columns.takeWhile (least ≤ ·)
    { s with
      columns := s.columns.drop closed.length
      tokens := List.replicate closed.length .blockEnd ++ s.tokens }

/-- Opens a block collection at a column unless one is open there. -/
def openBlock (column before : Nat) (t : Token) (s : Reading) : Reading :=
  if !s.inFlow && s.inside ≤ column then
    { s.insert before t with columns := column :: s.columns }
  else s

/-! ## Keys -/

/-- A candidate when the reader has come to a place; one that had to be a key refuses the text. -/
def ripen (p : Place) : Option Candidate → Option (Option Candidate)
  | none => some none
  | some c => if c.isStale p then (if c.required then none else some none) else some (some c)

/-- Gives up the candidates that can no longer be keys. -/
def dropStale? (p : Place) (s : Reading) : Option Reading := do
  let candidate ← ripen p s.candidate
  let outer ← s.outer.mapM (ripen p)
  some { s with candidate := candidate, outer := outer }

/-- Gives up the candidate; one that had to be a key refuses the text. -/
def dropCandidate? (s : Reading) : Option Reading :=
  if s.candidate.any (·.required) then none else some { s with candidate := none }

/-- Remembers that the next token may be a key or start one. -/
def saveCandidate? (p : Place) (s : Reading) : Option Reading :=
  if s.keyAllowed then do
    let required := !s.inFlow && s.columns.head? == some p.column
    let s ← s.dropCandidate?
    some { s with candidate := some ⟨required, s.tokens.length, p⟩ }
  else some s

/-! ## Tokens -/

/-- Starts a document, or ends one. -/
def mark? (t : Token) (rest : List Place) (s : Reading) : Option Reading := do
  let s ← (s.closeBlocks 0).dropCandidate?
  some ((s.allowKey false).emitTo t rest)

/-- A directive. -/
def directive? (rest : List Place) (s : Reading) : Option Reading := do
  let s ← (s.closeBlocks 0).dropCandidate?
  let (t, rest) ← readDirective? rest
  some ((s.allowKey false).emitTo t rest)

/-- An opening bracket. -/
def openFlow? (t : Token) (p : Place) (rest : List Place) (s : Reading) : Option Reading := do
  let s ← s.saveCandidate? p
  let s := { s with candidate := none, outer := s.candidate :: s.outer }
  some ((s.allowKey true).emitTo t rest)

/-- A closing bracket. -/
def closeFlow? (t : Token) (rest : List Place) (s : Reading) : Option Reading := do
  let s ← s.dropCandidate?
  let s :=
    match s.outer with
    | [] => s
    | c :: outer => { s with candidate := c, outer := outer }
  some ((s.allowKey false).emitTo t rest)

/-- A comma. -/
def flowEntry? (rest : List Place) (s : Reading) : Option Reading := do
  let s ← s.dropCandidate?
  some ((s.allowKey true).emitTo .flowEntry rest)

/-- Opens a block collection for a sign that stands where a key may start. -/
def openForSign? (t : Token) (p : Place) (s : Reading) : Option Reading :=
  if s.inFlow then some s
  else if s.keyAllowed then some (s.openBlock p.column s.tokens.length t)
  else none

/-- The dash before an item. -/
def blockEntry? (p : Place) (rest : List Place) (s : Reading) : Option Reading := do
  let s ← s.openForSign? .blockSequenceStart p
  let s ← s.dropCandidate?
  some ((s.allowKey true).emitTo .blockEntry rest)

/-- The question mark before a key. -/
def key? (p : Place) (rest : List Place) (s : Reading) : Option Reading := do
  let s ← s.openForSign? .blockMappingStart p
  let s ← s.dropCandidate?
  some ((s.allowKey !s.inFlow).emitTo .key rest)

/-- The colon before a value; the candidate before it becomes a key. -/
def value? (p : Place) (rest : List Place) (s : Reading) : Option Reading :=
  match s.candidate with
  | some c =>
    let s := (s.insert c.before .key).openBlock c.place.column c.before .blockMappingStart
    some (({ s with candidate := none }.allowKey false).emitTo .value rest)
  | none => do
    let s ← s.openForSign? .blockMappingStart p
    some ((s.allowKey !s.inFlow).emitTo .value rest)

/-- A token that may start a key, read by a reader of its own. -/
def property? (read? : List Place → Option (Token × List Place)) (p : Place) (rest : List Place)
    (s : Reading) : Option Reading := do
  let s ← s.saveCandidate? p
  let (t, rest) ← read? rest
  some ((s.allowKey false).emitTo t rest)

/-- A quoted scalar. -/
def quoted? (double : Bool) : Place → List Place → Reading → Option Reading :=
  property? fun ps => do
    let (text, rest) ← readQuoted? double (.text .none) [] ps
    some (.scalar .quoted text, rest)

/-- A block scalar. -/
def block? (literal : Bool) (rest : List Place) (s : Reading) : Option Reading := do
  let s ← s.dropCandidate?
  let (chomping, increment, rest) ← readHeader? rest
  let indent := increment.map (s.inside - 1 + ·)
  let (text, rest) ←
    readBlock? literal chomping (max s.inside 1) indent (.margin 0) .empty rest
  some ((s.allowKey true).emitTo (.scalar (if literal then .literal else .folded) text) rest)

/-- A plain scalar. -/
def plain? (p : Place) (rest : List Place) (s : Reading) : Option Reading := do
  let s ← s.saveCandidate? p
  let (text, rest, broken) ← readPlain? s.inFlow s.inside .none [] (p :: rest)
  some ((s.allowKey broken).emitTo (.scalar .plain text) rest)

/-- Reads the token that starts at a place. -/
def token? (p : Place) (rest : List Place) (s : Reading) : Option Reading :=
  if p.column = 0 ∧ p.char = '%' then s.directive? rest
  else if atMark '-' (p :: rest) then s.mark? .documentStart (rest.drop 2)
  else if atMark '.' (p :: rest) then s.mark? .documentEnd (rest.drop 2)
  else
    match p.char with
    | '[' => s.openFlow? .flowSequenceStart p rest
    | '{' => s.openFlow? .flowMappingStart p rest
    | ']' => s.closeFlow? .flowSequenceEnd rest
    | '}' => s.closeFlow? .flowMappingEnd rest
    | ',' => s.flowEntry? rest
    | '*' => s.property? (fun ps => (readName? ps).map fun (n, r) => (.alias n, r)) p rest
    | '&' => s.property? (fun ps => (readName? ps).map fun (n, r) => (.anchor n, r)) p rest
    | '!' => s.property? (readTag? s.inFlow) p rest
    | '\'' => s.quoted? false p rest
    | '"' => s.quoted? true p rest
    | '-' => if atGap rest then s.blockEntry? p rest else s.plain? p rest
    | '?' => if s.inFlow || atGap rest then s.key? p rest else s.plain? p rest
    | ':' => if s.inFlow || atGap rest then s.value? p rest else s.plain? p rest
    | '|' => if s.inFlow then none else s.block? true rest
    | '>' => if s.inFlow then none else s.block? false rest
    | '%' => none
    | '@' => none
    | '\x60' => none
    | c => if isGap c then none else s.plain? p rest

/-- Reads what stands at a place, after closing what ends before it. -/
def step? (p : Place) (rest : List Place) (s : Reading) : Option Reading := do
  let s ← s.dropStale? p
  (s.closeBlocks (p.column + 1)).token? p rest

/-- Ends the text. -/
def finish? (s : Reading) : Option (List Token) := do
  let s ← (s.closeBlocks 0).dropCandidate?
  some s.tokens.reverse

/-- Reads up to the end of the text, at most `fuel` tokens. -/
def run? : Nat → Reading → Option (List Token)
  | 0, _ => none
  | fuel + 1, s =>
    let s := s.skip
    match s.rest with
    | [] => s.finish?
    | p :: rest =>
      match s.step? p rest with
      | some s => s.run? fuel
      | none => none

end Reading

/-- The tokens of a text.  Each step takes a character, so that their number bounds the steps. -/
def tokens? (text : List Char) : Option (List Token) := do
  let ps ← places? text
  (Reading.start ps).run? (ps.length + 1)

end Fleet.Yaml
