import Fleet.Json
import Fleet.Number.Digit
import Fleet.Number.Binary64.Scaled

/-!
# Reading JSON

The grammar of RFC 8259 without any leniency: no comments, no trailing commas, no leading zeros, no
bare control characters in strings.  White space may stand around the value and nothing else.  Each
reader takes what is left of the text and gives what it leaves.

## Main definitions

* `Json.readString` — a string after its opening quotation mark.
* `Json.readNumber` — a number literal.
* `Json.read?` — the value of a whole text.
-/

namespace Fleet.Json

/-- The four bytes that JSON counts as white space. -/
def isSpace (b : UInt8) : Bool := b == 0x20 || b == 0x0A || b == 0x0D || b == 0x09

/-- The text from its first byte that is no white space. -/
def skipSpace (b : Bytes) : Bytes := b.dropWhile isSpace

/-! ## Strings -/

/-- The number of four hexadecimal digits. -/
def hex4? (a b c d : UInt8) : Option Nat :=
  Digit.number? 16 ([a, b, c, d].map fun b => Char.ofNat b.toNat)

/-- The byte that a one-letter escape stands for. -/
def escaped? (b : UInt8) : Option UInt8 :=
  if b == 0x22 || b == 0x5C || b == 0x2F then some b
  else if b == 0x62 then some 0x08
  else if b == 0x66 then some 0x0C
  else if b == 0x6E then some 0x0A
  else if b == 0x72 then some 0x0D
  else if b == 0x74 then some 0x09
  else none

/-- What has been read of a string: its bytes, last one first, the first half of a surrogate pair
if one was read last, and whether everything so far stands for text. -/
structure Draft where
  bytes : Bytes
  half : Option Nat
  sound : Bool

/-- A first half that another character follows stands for no text. -/
def Draft.push (p : Draft) (b : UInt8) : Draft :=
  ⟨b :: p.bytes, none, p.sound && p.half.isNone⟩

/-- Takes one UTF-16 unit; two halves of a pair make one character. -/
def Draft.pushUnit (p : Draft) (u : Nat) : Draft :=
  let low := 0xDC00 ≤ u && u ≤ 0xDFFF
  let high := 0xD800 ≤ u && u ≤ 0xDBFF
  match p.half with
  | some h =>
    if low then
      let c := Char.ofNat (0x10000 + (h - 0xD800) * 0x400 + (u - 0xDC00))
      ⟨(String.utf8EncodeChar c).reverse ++ p.bytes, none, p.sound⟩
    else ⟨p.bytes, none, false⟩
  | none =>
    if low then ⟨p.bytes, none, false⟩
    else if high then ⟨p.bytes, some u, p.sound⟩
    else ⟨(String.utf8EncodeChar (Char.ofNat u)).reverse ++ p.bytes, none, p.sound⟩

/-- The text of a finished string, if it stands for one. -/
def Draft.finish (p : Draft) : Option String :=
  if p.sound && p.half.isNone then Text.ofUtf8? p.bytes.reverse else none

/-- Reads a string after its opening quotation mark. -/
def readString : Bytes → Draft → Option (Option String × Bytes)
  | [], _ => none
  | 0x5C :: 0x75 :: a :: b :: c :: d :: rest, p =>
    match hex4? a b c d with
    | some u => readString rest (p.pushUnit u)
    | none => none
  | 0x5C :: e :: rest, p =>
    match escaped? e with
    | some b => readString rest (p.push b)
    | none => none
  | b :: rest, p =>
    if b == 0x22 then some (p.finish, rest)
    else if b == 0x5C || b < 0x20 then none
    else readString rest (p.push b)

/-! ## Numbers -/

/-- An ASCII digit. -/
def isDigit (b : UInt8) : Bool := 0x30 ≤ b && b ≤ 0x39

/-- A run of digits and what follows it. -/
def spanDigits (b : Bytes) : List Nat × Bytes :=
  ((b.takeWhile isDigit).map fun d => d.toNat - 0x30, b.dropWhile isDigit)

/-- The largest significand that a number keeps. -/
def maxSignificand : Nat := (1 <<< 64) - 1

/-- Appends digits to a significand while it fits; gives the significand, how many digits were
appended and how many were left. -/
def appendDigits : Nat → List Nat → Nat → Nat × Nat × Nat
  | s, [], n => (s, n, 0)
  | s, d :: ds, n =>
    if 10 * s + d ≤ maxSignificand then appendDigits (10 * s + d) ds (n + 1)
    else (s, n, (d :: ds).length)

/-- Exponents beyond this are not computed. -/
def maxExponent : Nat := (1 <<< 31) - 1

/-- The parts of a number literal. -/
structure Literal where
  negative : Bool
  whole : List Nat
  fraction : Option (List Nat)
  /-- Whether the exponent is negative, and its digits. -/
  exponent : Option (Bool × List Nat)

/-- A binary64 number, or the fact that a literal is too large for one. -/
def Number.ofReal? : Option Binary64 → Number
  | some x => .real x
  | none => .tooLarge

/-- The value of a literal.  Digits that do not fit the significand are dropped; before the point
they count as powers of ten. -/
def Literal.value (l : Literal) : Number :=
  let (s, _, dropped) := appendDigits 0 l.whole 0
  match l.fraction, l.exponent with
  | none, none =>
    if dropped ≠ 0 then .ofReal? (Binary64.scaled? l.negative s dropped)
    else if !l.negative then .natural s.toUInt64
    else if s ≠ 0 ∧ s ≤ 1 <<< 63 then .negative (-(s : Int))
    else .real (Binary64.ofNat s).neg
  | fraction, exponent =>
    let (s, appended, _) := appendDigits s (fraction.getD []) 0
    let base : Int := (dropped : Int) - appended
    match exponent with
    | none => .ofReal? (Binary64.scaled? l.negative s base)
    | some (below, ds) =>
      let e := ds.foldl (fun n d => min (10 * n + d) (maxExponent + 1)) 0
      if maxExponent < e then
        if s ≠ 0 ∧ !below then .tooLarge else .real (Binary64.ofMagnitude l.negative 0)
      else .ofReal? (Binary64.scaled? l.negative s (if below then base - e else base + e))

/-- The whole part of a number: one zero, or digits that do not start with one. -/
def readWhole (b : Bytes) : Option (List Nat × Bytes) :=
  match spanDigits b with
  | ([], _) => none
  | (0 :: _ :: _, _) => none
  | r => some r

/-- The fraction of a number, if a point is next. -/
def readFraction : Bytes → Option (Option (List Nat) × Bytes)
  | 0x2E :: rest =>
    match spanDigits rest with
    | ([], _) => none
    | (ds, rest) => some (some ds, rest)
  | b => some (none, b)

/-- The digits of an exponent after its letter and sign. -/
def readExponentDigits (below : Bool) (b : Bytes) : Option (Option (Bool × List Nat) × Bytes) :=
  match spanDigits b with
  | ([], _) => none
  | (ds, rest) => some (some (below, ds), rest)

/-- The exponent of a number, if its letter is next. -/
def readExponent : Bytes → Option (Option (Bool × List Nat) × Bytes)
  | [] => some (none, [])
  | e :: rest =>
    if e == 0x65 || e == 0x45 then
      match rest with
      | 0x2B :: rest => readExponentDigits false rest
      | 0x2D :: rest => readExponentDigits true rest
      | rest => readExponentDigits false rest
    else some (none, e :: rest)

/-- A number after its sign. -/
def readUnsigned (negative : Bool) (b : Bytes) : Option (Number × Bytes) := do
  let (whole, b) ← readWhole b
  let (fraction, b) ← readFraction b
  let (exponent, b) ← readExponent b
  some (Literal.value ⟨negative, whole, fraction, exponent⟩, b)

/-- A number literal. -/
def readNumber : Bytes → Option (Number × Bytes)
  | 0x2D :: rest => readUnsigned true rest
  | b => readUnsigned false b

/-! ## Values -/

/-- Takes a key word off the front of a text. -/
def expect (word : String) (b : Bytes) : Option Bytes :=
  let w := Text.ascii word
  if w.isPrefixOf b then some (b.drop w.length) else none

mutual

/-- Reads a value at the front of a text, white space skipped. -/
def readValue : Nat → Bytes → Option (Json × Bytes)
  | 0, _ => none
  | fuel + 1, b =>
    match skipSpace b with
    | [] => none
    | 0x6E :: rest => (expect "ull" rest).map fun r => (.null, r)
    | 0x74 :: rest => (expect "rue" rest).map fun r => (.bool true, r)
    | 0x66 :: rest => (expect "alse" rest).map fun r => (.bool false, r)
    | 0x22 :: rest => (readString rest ⟨[], none, true⟩).map fun (s, r) => (.string s, r)
    | 0x5B :: rest =>
      match skipSpace rest with
      | 0x5D :: rest => some (.array [], rest)
      | rest => readItems fuel rest []
    | 0x7B :: rest =>
      match skipSpace rest with
      | 0x7D :: rest => some (.object [], rest)
      | rest => readMembers fuel rest []
    | b => (readNumber b).map fun (n, r) => (.number n, r)

/-- Reads the items of an array up to its closing bracket; `done` holds those read, last first. -/
def readItems : Nat → Bytes → List Json → Option (Json × Bytes)
  | 0, _, _ => none
  | fuel + 1, b, done =>
    match readValue fuel b with
    | none => none
    | some (v, rest) =>
      match skipSpace rest with
      | 0x2C :: rest => readItems fuel rest (v :: done)
      | 0x5D :: rest => some (.array (v :: done).reverse, rest)
      | _ => none

/-- Reads the members of an object up to its closing brace; `done` holds those read, last first. -/
def readMembers : Nat → Bytes → List (Option String × Json) → Option (Json × Bytes)
  | 0, _, _ => none
  | fuel + 1, b, done =>
    match skipSpace b with
    | 0x22 :: rest =>
      match readString rest ⟨[], none, true⟩ with
      | none => none
      | some (k, rest) =>
        match skipSpace rest with
        | 0x3A :: rest =>
          match readValue fuel rest with
          | none => none
          | some (v, rest) =>
            match skipSpace rest with
            | 0x2C :: rest => readMembers fuel rest ((k, v) :: done)
            | 0x7D :: rest => some (.object ((k, v) :: done).reverse, rest)
            | _ => none
        | _ => none
    | _ => none

end

/-- The value of a text that is one value with white space around it.  Two steps for each byte are
enough, since every second step takes a byte. -/
def read? (b : Bytes) : Option Json :=
  match readValue (2 * b.length + 2) b with
  | some (v, rest) => if (skipSpace rest).isEmpty then some v else none
  | none => none

end Fleet.Json
