import Fleet.Number.Binary64
import Fleet.Number.Decimal

/-!
# Decimal text of binary numbers

The shortest text of a number has the fewest digits that read back as the number when rounded to
nearest, and of those the ones closest to it.  The fixed text has one place and rounds the exact
value, ties to the even digit.

## Main definitions

* `Binary64.shortest` — the digits and the power of ten of the shortest text.
* `Binary64.text` — the shortest text, positional or with an exponent.
* `Binary64.fixedText` — the text with one place.
-/

namespace Fleet.Binary64

/-- `10 ^ k` times a quotient, as numerator and denominator. -/
def timesPow10 (num den : Nat) (k : Int) : Nat × Nat :=
  (num * Nat.pow 10 k.toNat, den * Nat.pow 10 (-k).toNat)

/-- Raises `k` while `10 ^ (k + 1)` does not exceed the quotient. -/
def raiseLog10 (num den : Nat) : Nat → Int → Int
  | 0, k => k
  | fuel + 1, k =>
    let (n, d) := timesPow10 num den (-(k + 1))
    if d ≤ n then raiseLog10 num den fuel (k + 1) else k

/-- The largest power of ten that does not exceed a positive quotient. -/
def log10 (num den : Nat) : Int :=
  let guess : Int := ((num.log2 : Int) - den.log2) * 1233 / 4096 - 2
  raiseLog10 num den 8 guess

/-- The reals that round to a number, four times the significand apart, ends included or not. -/
structure Interval where
  lower : Nat
  value : Nat
  upper : Nat
  exponent : Int
  closed : Bool

/-- The interval of a finite positive number: a half unit on either side, and a quarter unit below
a power of two, where the spacing changes. -/
def interval (x : Binary64) : Interval :=
  let (m, q) := x.parts
  let below := if m = 1 <<< 52 ∧ -1074 < q then 1 else 2
  ⟨4 * m - below, 4 * m, 4 * m + 2, q - 2, m % 2 == 0⟩

/-- Whether `n * 10 ^ k` lies in an interval. -/
def Interval.holds (i : Interval) (n : Nat) (k : Int) : Bool :=
  let (a, b) := timesPow10 n 1 k
  let (p, r) := shifted 1 1 i.exponent
  let a := a * r
  let b := b * p
  if i.closed then i.lower * b ≤ a && a ≤ i.upper * b else i.lower * b < a && a < i.upper * b

/-- The neighbour of an interval's value on the grid of multiples of `10 ^ k` that lies in the
interval, the nearer one if both do, the even one if they are equally near. -/
def Interval.onGrid? (i : Interval) (k : Int) : Option Nat :=
  let (p, r) := shifted i.value 1 i.exponent
  let (num, den) := timesPow10 p r (-k)
  let low := num / den
  let rest := 2 * (num % den)
  match i.holds low k, i.holds (low + 1) k with
  | true, true =>
    some (if rest < den then low else if den < rest then low + 1
      else if low % 2 = 0 then low else low + 1)
  | true, false => some low
  | false, true => some (low + 1)
  | false, false => none

/-- A number without its trailing zeros, and how many there were. -/
def dropZeros : Nat → Nat → Nat → Nat × Nat
  | 0, n, z => (n, z)
  | fuel + 1, n, z => if n % 10 = 0 ∧ n ≠ 0 then dropZeros fuel (n / 10) (z + 1) else (n, z)

/-- The first grid that meets the interval, from `steps` more grids on; the last one always does. -/
def Interval.search (i : Interval) : Nat → Int → Nat × Int
  | 0, k => ((i.onGrid? k).getD 0, k)
  | steps + 1, k =>
    match i.onGrid? k with
    | some n => (n, k)
    | none => i.search steps (k - 1)

/-- The digits and the power of ten of the shortest text of a finite positive number. -/
def shortest (x : Binary64) : Nat × Int :=
  let i := x.interval
  let (p, r) := shifted i.value 1 i.exponent
  let (n, k) := i.search 17 (log10 p r)
  let (n, z) := dropZeros 18 n 0
  (n, k + z)

/-- Values from `10 ^ -5` up to but not including `10 ^ 16` are written without an exponent. -/
def positional (leading : Int) : Bool := -5 ≤ leading && leading < 16

/-- A run of the digit zero. -/
def zeros (n : Int) : List Char := List.replicate n.toNat '0'

/-- The text of `digits * 10 ^ k`, always with a point or an exponent. -/
def textOf (digits : List Char) (k : Int) : List Char :=
  let point := digits.length + k
  let leading := point - 1
  if positional leading then
    if 0 ≤ k then digits ++ zeros k ++ ['.', '0']
    else if 0 < point then digits.take point.toNat ++ ['.'] ++ digits.drop point.toNat
    else ['0', '.'] ++ zeros (-point) ++ digits
  else
    let mantissa := match digits with
      | [] => []
      | [d] => [d]
      | d :: ds => d :: '.' :: ds
    mantissa ++ ['e', if leading < 0 then '-' else '+'] ++ Decimal.digits leading.natAbs

/-- The sign in front of a text. -/
def signed (x : Binary64) (cs : List Char) : List Char := if x.negative then '-' :: cs else cs

/-- The shortest text of a finite number that reads back as it. -/
def text (x : Binary64) : List Char :=
  x.signed <|
    if x.magnitude = 0 then ['0', '.', '0']
    else
      let (n, k) := x.shortest
      textOf (Decimal.digits n) k

/-- A number with one place, the exact value rounded with ties to the even digit; a word stands for
what is not finite. -/
def fixedText (x : Binary64) : List Char :=
  if x.isNaN then ['N', 'a', 'N']
  else if x.isFinite then
    let (m, q) := x.parts
    let (num, den) := shifted (10 * m) 1 q
    let tenths := roundEven num den
    x.signed (Decimal.digits (tenths / 10) ++ ['.'] ++ Decimal.digits (tenths % 10))
  else x.signed ['i', 'n', 'f']

end Fleet.Binary64
