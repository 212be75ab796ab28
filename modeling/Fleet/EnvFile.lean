import Fleet.Text.Blank

/-!
# Environment files

An environment file sets variables, one to a line: a name, an equals sign and a value, which may be
quoted and may refer to other variables.  A quoted value may go over several lines.  Nothing of the
program depends on the values, so a file only has to be well formed.

## Main definitions

* `EnvFile.isSound` — every line of a text is well formed.
-/

namespace Fleet.EnvFile

/-! ## Lines -/

/-- Where the next character of a line stands. -/
inductive Quoting where
  | bare
  /-- After a space; a comment may start here. -/
  | gap
  | escape
  | single
  | singleEscape
  | double
  | doubleEscape
deriving DecidableEq

/-- The place after a character. -/
def Quoting.next : Quoting → Char → Quoting
  | .bare, c =>
    if Text.isBlank c && c ≠ '\n' && c ≠ '\r' then .gap
    else if c = '\\' then .escape
    else if c = '"' then .double
    else if c = '\'' then .single else .bare
  | .gap, c =>
    if c = '\\' then .escape
    else if c = '"' then .double
    else if c = '\'' then .single else .bare
  | .escape, _ => .bare
  | .single, c => if c = '\\' then .singleEscape else if c = '\'' then .bare else .single
  | .singleEscape, _ => .single
  | .double, c => if c = '\\' then .doubleEscape else if c = '"' then .bare else .double
  | .doubleEscape, _ => .double

/-- A line that starts with a number sign is a comment as a whole. -/
def isComment (line : List Char) : Bool := (line.dropWhile Text.isBlank).head? = some '#'

/-- A line without the break at its end; both are given last character first. -/
def withoutBreak (line : List Char) : List Char :=
  match line with
  | '\r' :: rest => rest
  | line => line

/-- The rest of a text after its current line. -/
def afterLine : List Char → List Char
  | [] => []
  | c :: rest => if c = '\n' then rest else afterLine rest

/-- What is read of a text: the line so far, last character first, and where the next character
stands; after a comment nothing up to the end of the line counts. -/
structure Draft where
  line : List Char
  quoting : Quoting
  comment : Bool

/-- Splits a text into lines, none if the last one does not end properly. -/
def linesFrom? : Draft → List Char → Option (List (List Char))
  | d, [] =>
    if d.comment then some []
    else if d.line.isEmpty ∨ isComment d.line.reverse then some []
    else if d.quoting = .bare then some [d.line.reverse] else none
  | d, c :: rest =>
    if c = '\n' then
      if d.comment then linesFrom? ⟨[], .bare, false⟩ rest
      else
        let quoting := d.quoting.next c
        if isComment d.line.reverse then linesFrom? ⟨[], .bare, false⟩ rest
        else if quoting = .bare then
          (linesFrom? ⟨[], .bare, false⟩ rest).map ((withoutBreak d.line).reverse :: ·)
        else linesFrom? ⟨c :: d.line, quoting, false⟩ rest
    else if d.comment then linesFrom? d rest
    else if d.quoting = .gap ∧ c = '#' then
      (linesFrom? { d with comment := true } rest).map (d.line.reverse :: ·)
    else linesFrom? ⟨c :: d.line, d.quoting.next c, false⟩ rest

/-! ## Values -/

/-- Where the next character of a value stands. -/
inductive ValueState where
  | bare
  /-- After the value; only spaces and a comment may follow. -/
  | ended
  | single
  | double
  /-- After a backslash, inside of double quotation marks or not. -/
  | escape (quoted : Bool)
  /-- In the name of a variable, with whether it has a letter. -/
  | name (quoted started : Bool)
  /-- In the name of a variable between braces. -/
  | braces (quoted : Bool)

/-- A character that may be part of the name of a variable. -/
def isNameLetter (c : Char) : Bool := c.isAlphanum || 0x80 ≤ c.toNat

/-- The state inside of double quotation marks or outside. -/
def plainState (quoted : Bool) : ValueState := if quoted then .double else .bare

/-- A value is well formed. -/
def isSoundValue : ValueState → List Char → Bool
  | .single, [] => false
  | .double, [] => false
  | .braces _, [] => false
  | .escape quoted, [] => !quoted
  | .name quoted _, [] => !quoted
  | _, [] => true
  | .ended, c :: rest =>
    if c = ' ' ∨ c = '\t' then isSoundValue .ended rest else c = '#'
  | .escape quoted, c :: rest =>
    ['\\', '\'', '"', '$', ' ', 'n'].contains c && isSoundValue (plainState quoted) rest
  | .single, c :: rest => isSoundValue (if c = '\'' then .bare else .single) rest
  | .name quoted started, c :: rest =>
    if isNameLetter c then isSoundValue (.name quoted true) rest
    else if c = '\x7b' ∧ !started then isSoundValue (.braces quoted) rest
    else if c = '$' then isSoundValue (.name quoted false) rest
    else isSoundValue (plainState quoted) rest
  | .braces quoted, c :: rest =>
    isSoundValue (if c = '\x7d' then plainState quoted else .braces quoted) rest
  | .double, c :: rest =>
    isSoundValue
      (if c = '$' then .name true false
        else if c = '"' then .bare
        else if c = '\\' then .escape true else .double) rest
  | .bare, c :: rest =>
    isSoundValue
      (if c = '$' then .name false false
        else if c = '\'' then .single
        else if c = '"' then .double
        else if c = '\\' then .escape false
        else if c = ' ' ∨ c = '\t' then .ended else .bare) rest

/-! ## Assignments -/

/-- A name at the front of a line, and what follows it and its spaces. -/
def readName? (line : List Char) : Option (List Char × List Char) :=
  if line.head?.any fun c => c.isAlpha || c = '_' then
    let isPart (c : Char) : Bool := c.isAlphanum || c = '_' || c = '.'
    some (line.takeWhile isPart, (line.dropWhile isPart).dropWhile Text.isBlank)
  else none

/-- What follows the equals sign at the front of a line. -/
def afterEquals? : List Char → Option (List Char)
  | '=' :: rest => some (rest.dropWhile Text.isBlank)
  | _ => none

/-- The value that a line assigns; the word `export` may stand before the name. -/
def assigned? (line : List Char) : Option (List Char) := do
  let (name, rest) ← readName? line
  if name = "export".toList ∧ (afterEquals? rest).isNone then
    let (_, rest) ← readName? rest
    afterEquals? rest
  else afterEquals? rest

/-- A line is well formed: it is blank or a comment, or it assigns a value. -/
def isSoundLine (line : List Char) : Bool :=
  let line := line.dropWhile Text.isBlank
  line.isEmpty || line.head? = some '#' ||
    match assigned? line with
    | none => false
    | some value => value.isEmpty || value.head? = some '#' || isSoundValue .bare value

/-- A text without the mark of its byte order. -/
def dropMark : List Char → List Char
  | '\uFEFF' :: rest => rest
  | cs => cs

/-- Every line of a text is well formed. -/
def isSound (text : String) : Bool :=
  match linesFrom? ⟨[], .bare, false⟩ (dropMark text.toList) with
  | none => false
  | some lines => lines.all isSoundLine

end Fleet.EnvFile
