import Fleet.Number.Digit
import Fleet.Yaml.Token

/-!
# Anchors, tags and directives

Names are made of ASCII letters, digits, hyphens and underscores.  A tag is a URI, or the short form
of one; a percent sign in it starts the hexadecimal code of a byte, and such bytes come in groups
as UTF-8 groups them.

## Main definitions

* `readName?` — the name of an anchor or alias.
* `readTag?` — a tag after its exclamation mark.
* `readDirective?` — a directive after its percent sign.
-/

namespace Fleet.Yaml

/-- A character of a name. -/
def isName (c : Char) : Bool :=
  c.isDigit || ('A' ≤ c && c ≤ 'Z') || ('a' ≤ c && c ≤ 'z') || c == '_' || c == '-'

/-- A name, which may be empty, and what follows it. -/
def spanName (ps : List Place) : List Char × List Place :=
  ((ps.takeWhile (isName ·.char)).map (·.char), ps.dropWhile (isName ·.char))

/-- A character that may follow the name of an anchor. -/
def endsName : List Place → Bool
  | [] => true
  | p :: _ => isGap p.char || "?:,]\x7d%@\x60".toList.contains p.char

/-- The name of an anchor or alias. -/
def readName? (ps : List Place) : Option (List Char × List Place) :=
  let (name, rest) := spanName ps
  if name.isEmpty || !endsName rest then none else some (name, rest)

/-! ## Tags -/

/-- A character of a URI; the brackets and the comma count only where no collection can end. -/
def isUri (wide : Bool) (c : Char) : Bool :=
  isName c || ";/?:@&=+$.%!~*'()".toList.contains c || (wide && ",[]".toList.contains c)

/-- The byte of an ASCII character. -/
def byteOf (c : Char) : UInt8 := c.toNat.toUInt8

/-- How many bytes follow the first byte of a group. -/
def followers? (b : Nat) : Option Nat :=
  if b < 0x80 then some 0
  else if 0xC0 ≤ b && b < 0xE0 then some 1
  else if 0xE0 ≤ b && b < 0xF0 then some 2
  else if 0xF0 ≤ b && b < 0xF8 then some 3
  else none

/-- Where the next character of a URI stands; so many bytes of a group are still to come. -/
inductive UriState where
  | text (missing : Nat)
  | high (missing : Nat)
  /-- After the first digit of a code. -/
  | low (missing high : Nat)

/-- Reads a URI; `bytes` is what has been read, last byte first. -/
def readUri? (wide : Bool) : UriState → Bytes → List Place → Option (Bytes × List Place)
  | .text 0, bytes, [] => some (bytes.reverse, [])
  | _, _, [] => none
  | .text missing, bytes, p :: rest =>
    if p.char == '%' then readUri? wide (.high missing) bytes rest
    else if missing ≠ 0 then none
    else if isUri wide p.char then readUri? wide (.text 0) (byteOf p.char :: bytes) rest
    else some (bytes.reverse, p :: rest)
  | .high missing, bytes, p :: rest =>
    match Digit.value? 16 p.char with
    | some d => readUri? wide (.low missing d) bytes rest
    | none => none
  | .low missing high, bytes, p :: rest =>
    match Digit.value? 16 p.char with
    | none => none
    | some d =>
      let b := 16 * high + d
      let missing :=
        if missing = 0 then followers? b
        else if 0x80 ≤ b && b < 0xC0 then some (missing - 1) else none
      match missing with
      | some n => readUri? wide (.text n) (b.toUInt8 :: bytes) rest
      | none => none

/-- A URI that is not empty. -/
def readFullUri? (wide : Bool) (ps : List Place) : Option (Bytes × List Place) :=
  match readUri? wide (.text 0) [] ps with
  | some ([], _) => none
  | r => r

/-- The short form and the rest of a tag after its exclamation mark. -/
def readTagParts? (ps : List Place) : Option (List Char × Bytes × List Place) :=
  if isNext '<' ps then do
    let (uri, ps) ← readFullUri? true (ps.drop 1)
    if isNext '>' ps then some ([], uri, ps.drop 1) else none
  else
    let (name, rest) := spanName ps
    if isNext '!' rest then do
      let (uri, ps) ← readFullUri? false (rest.drop 1)
      some ('!' :: name ++ ['!'], uri, ps)
    else do
      let (uri, ps) ← readUri? false (.text 0) [] rest
      let suffix := name.map byteOf ++ uri
      if suffix.isEmpty then some ([], Text.ascii "!", ps) else some (['!'], suffix, ps)

/-- A tag after its exclamation mark; inside of brackets a comma may follow it. -/
def readTag? (flow : Bool) (ps : List Place) : Option (Token × List Place) := do
  let (handle, suffix, ps) ← readTagParts? ps
  if atGap ps || (flow && isNext ',' ps) then some (.tag handle suffix, ps) else none

/-! ## Directives -/

/-- The greatest number of digits in a version number. -/
def maxVersionDigits : Nat := 9

/-- One of the two numbers of a version. -/
def readVersionNumber? (ps : List Place) : Option (Nat × List Place) :=
  let ds := ps.takeWhile (·.char.isDigit)
  if ds.isEmpty || maxVersionDigits < ds.length then none
  else some (ds.foldl (fun n d => 10 * n + (d.char.toNat - 48)) 0, ps.drop ds.length)

/-- The version of YAML that a text claims. -/
def readVersion? (ps : List Place) : Option (Token × List Place) := do
  let (major, ps) ← readVersionNumber? ps
  if !isNext '.' ps then none
  let (minor, ps) ← readVersionNumber? (ps.drop 1)
  some (.version major minor, ps)

/-- A short form of tags and what it stands for. -/
def readHandle? (ps : List Place) : Option (Token × List Place) := do
  if !isNext '!' ps then none
  let (name, ps) := spanName (ps.drop 1)
  let (handle, ps) ←
    if isNext '!' ps then some ('!' :: name ++ ['!'], ps.drop 1)
    else if name.isEmpty then some (['!'], ps) else none
  if !ps.head?.any (isSpace ·.char) then none
  let (meaning, ps) ← readFullUri? true (ps.dropWhile (isSpace ·.char))
  if atGap ps then some (.handle handle meaning, ps) else none

/-- A directive after its percent sign, up to the end of its line. -/
def readDirective? (ps : List Place) : Option (Token × List Place) := do
  let (name, ps) := spanName ps
  if !atGap ps then none
  let body := ps.dropWhile (isSpace ·.char)
  let (token, ps) ←
    if name = "YAML".toList then readVersion? body
    else if name = "TAG".toList then readHandle? body
    else none
  let ps ← skipLine ps
  some (token, ps)

end Fleet.Yaml
