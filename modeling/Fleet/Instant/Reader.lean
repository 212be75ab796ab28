import Fleet.Instant

/-!
# Reading instants

The form of RFC 3339 with some freedom: a space may stand for the `T`, fields may have fewer digits,
white space may surround the fields, and the offset may be written with or without a colon or be
`UTC`.  A year of more than four digits has a sign, a fraction is cut after nine digits, and the
second may be sixty.  Nothing may be missing but the fraction.

## Main definitions

* `Instant.parse?` — the instant that a text stands for.
-/

namespace Fleet.Instant

/-- A reader takes a value off the front of a text, or refuses. -/
abbrev Reader (α : Type) := List Char → Option (α × List Char)

/-- Takes one given character after white space. -/
def literal (c : Char) : Reader Unit := fun s =>
  match Text.trimLeft s with
  | d :: rest => if c = d then some ((), rest) else none
  | [] => none

/-- Takes one or more digits, at most `width` of them. -/
def number (width : Nat) : Reader Nat := fun s =>
  let ds := (s.take width).takeWhile Char.isDigit
  if ds.isEmpty then none else some (Decimal.accumulate 0 ds, s.drop ds.length)

/-- Takes digits of a signed year; more than eighteen of them do not fit. -/
def signedNumber : Reader Nat := fun s =>
  let ds := s.takeWhile Char.isDigit
  let n := Decimal.accumulate 0 ds
  if ds.isEmpty || 1 <<< 63 ≤ n then none else some (n, s.drop ds.length)

/-- Takes a number of at most two digits between two bounds, white space before it. -/
def field (least most : Nat) : Reader Nat := fun s => do
  let (n, s) ← number 2 (Text.trimLeft s)
  if least ≤ n ∧ n ≤ most then some (n, s) else none

/-- Takes a year: up to four digits, or any number of digits after a sign. -/
def year : Reader Int := fun s =>
  match Text.trimLeft s with
  | '-' :: rest => (signedNumber rest).map fun (n, s) => (-(n : Int), s)
  | '+' :: rest => (signedNumber rest).map fun (n, s) => ((n : Int), s)
  | s => (number 4 s).map fun (n, s) => ((n : Int), s)

/-- Takes a fraction of a second in nanoseconds if a point is next; digits after the ninth are
skipped. -/
def fraction : Reader Nat
  | '.' :: rest =>
    (number 9 rest).map fun (n, after) =>
      (n * Nat.pow 10 (9 - (rest.length - after.length)), after.dropWhile Char.isDigit)
  | s => some (0, s)

/-- Takes exactly two digits. -/
def twoDigits : Reader Nat
  | a :: b :: rest =>
    if a.isDigit && b.isDigit then some (Decimal.accumulate 0 [a, b], rest) else none
  | _ => none

/-- Takes hours and minutes of an offset after its sign, in seconds. -/
def offsetAmount : Reader Nat := fun s => do
  let (hours, s) ← twoDigits s
  let (minutes, s) ← twoDigits (s.dropWhile fun c => c == ':' || Text.isBlank c)
  if minutes < 60 then some (hours * 3600 + minutes * 60, s) else none

/-- Takes an offset from UTC, in seconds. -/
def offset : Reader Int
  | 'Z' :: rest => some (0, rest)
  | 'z' :: rest => some (0, rest)
  | '+' :: rest => (offsetAmount rest).map fun (n, s) => ((n : Int), s)
  | '-' :: rest => (offsetAmount rest).map fun (n, s) => (-(n : Int), s)
  | '−' :: rest => (offsetAmount rest).map fun (n, s) => (-(n : Int), s)
  | s =>
    if (s.take 3).map Char.toUpper = ['U', 'T', 'C'] then some (0, s.drop 3) else none

/-- The years that an instant may have. -/
def yearInRange (y : Int) : Bool := -262143 ≤ y && y ≤ 262142

/-- The instant of a date and a time of day at an offset. -/
def ofFields? (date : Date) (hour minute second nano : Nat) (offset : Int) : Option Instant :=
  let s := hour * 3600 + minute * 60 + min second 59
  let n := nano + if second = 60 then 1000000000 else 0
  if h : s < secondsPerDay ∧ n < 2000000000 then
    if offset.natAbs < secondsPerDay then
      let t := Instant.shift ⟨date, ⟨s, h.1⟩, ⟨n, h.2⟩⟩ (-offset)
      if yearInRange date.year && yearInRange t.date.year then some t else none
    else none
  else none

/-- Takes the date of an instant. -/
def calendarDate : Reader Date := fun s => do
  let (y, s) ← year s
  let (_, s) ← literal '-' s
  let (m, s) ← field 1 12 s
  let (_, s) ← literal '-' s
  let (d, s) ← field 1 31 s
  let date ← Date.of? y m d
  some (date, s)

/-- Takes what stands between date and time. -/
def separator : Reader Unit
  | c :: rest => if c = 'T' ∨ c = 't' ∨ c = ' ' then some ((), rest) else none
  | [] => none

/-- The instant that a list of characters stands for. -/
def ofChars? (s : List Char) : Option Instant := do
  let (date, s) ← calendarDate s
  let (_, s) ← separator s
  let (hour, s) ← field 0 23 s
  let (_, s) ← literal ':' s
  let (minute, s) ← field 0 59 s
  let (_, s) ← literal ':' s
  let (second, s) ← field 0 60 s
  let (nano, s) ← fraction s
  let (off, s) ← offset (Text.trimLeft s)
  if (Text.trimLeft s).isEmpty then ofFields? date hour minute second nano off else none

/-- The instant that a text stands for. -/
def parse? (s : String) : Option Instant := ofChars? s.toList

end Fleet.Instant
