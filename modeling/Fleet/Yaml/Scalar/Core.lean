import Fleet.Number.Decimal
import Fleet.Number.Digit

/-!
# What plain scalars read as

A plain scalar is null, a truth value, a number or a text.  Whole numbers are decimal, or
hexadecimal, octal or binary after a mark; a decimal numeral with a leading zero is a text.  The
other numbers are the decimal literals of finite binary64 numbers and the names of the rest.

## Main definitions

* `natural?` — the number of a numeral without sign up to a limit.
* `isAmbiguous` — the scalar would read as something else than a text, or nearly so.
-/

namespace Fleet.Yaml

/-- A word for null. -/
def isNull (cs : List Char) : Bool :=
  ["null", "Null", "NULL", "~"].any (·.toList == cs)

/-- A word for a truth value. -/
def isTruth (cs : List Char) : Bool :=
  ["true", "True", "TRUE", "false", "False", "FALSE"].any (·.toList == cs)

/-! ## Whole numbers -/

/-- The number of a numeral in a base, up to a limit. -/
def inBase? (base limit : Nat) (cs : List Char) : Option Nat := do
  if cs.isEmpty then none
  let n ← Digit.number? base cs
  if n ≤ limit then some n else none

/-- A text without a mark at its front, none if it starts otherwise. -/
def afterMark? : List Char → List Char → Option (List Char)
  | [], cs => some cs
  | _ :: _, [] => none
  | m :: mark, c :: cs => if m = c then afterMark? mark cs else none

/-- The numeral after the mark of its base. -/
def marked? (limit : Nat) (cs : List Char) : Option Nat :=
  ((afterMark? ['0', 'x'] cs).bind (inBase? 16 limit)).or <|
    ((afterMark? ['0', 'o'] cs).bind (inBase? 8 limit)).or <|
      (afterMark? ['0', 'b'] cs).bind (inBase? 2 limit)

/-- A text without the sign at its front. -/
def dropSign : List Char → List Char
  | [] => []
  | c :: cs => if c = '+' ∨ c = '-' then cs else c :: cs

/-- A decimal numeral with a leading zero, with or without a sign, is no number. -/
def isPadded (cs : List Char) : Bool :=
  match dropSign cs with
  | '0' :: c :: rest => (c :: rest).all Char.isDigit
  | _ => false

/-- The number of a numeral up to a limit; a plus sign may stand before it. -/
def natural? (limit : Nat) (cs : List Char) : Option Nat :=
  let body := (afterMark? ['+'] cs).getD cs
  (marked? limit body).or (if isPadded cs then none else inBase? 10 limit body)

/-- The number after a minus sign, up to a limit. -/
def opposite? (limit : Nat) (cs : List Char) : Option Nat := do
  let body ← afterMark? ['-'] cs
  (marked? limit body).or (if isPadded cs then none else inBase? 10 limit body)

/-- The scalar is a whole number of at most 128 bits. -/
def isWhole (cs : List Char) : Bool :=
  (natural? ((1 <<< 128) - 1) cs).isSome || (opposite? (1 <<< 127) cs).isSome

/-! ## Other numbers -/

/-- A decimal literal without sign, as a whole number and a power of ten. -/
def decimalParts? (cs : List Char) : Option (Nat × Int) :=
  let whole := cs.takeWhile Char.isDigit
  let rest := cs.dropWhile Char.isDigit
  let (fraction, rest) :=
    match rest with
    | '.' :: rest => (rest.takeWhile Char.isDigit, rest.dropWhile Char.isDigit)
    | rest => ([], rest)
  let digits := whole ++ fraction
  let parts (e : Int) : Option (Nat × Int) :=
    some (Decimal.accumulate 0 digits, e - fraction.length)
  if digits.isEmpty then none
  else
    match rest with
    | [] => parts 0
    | e :: rest =>
      if e ≠ 'e' ∧ e ≠ 'E' then none
      else
        match Decimal.value? (dropSign rest) with
        | none => none
        | some n => parts (if rest.head? = some '-' then -(n : Int) else n)

/-- The least number that is too large for a finite binary64 number is this one. -/
def overflow : Nat := ((1 <<< 54) - 1) <<< 970

/-- A whole number times a power of ten is small enough for a finite binary64 number.  Numbers of
other than 309 digits before the point are decided by how many they are. -/
def isFinite (m : Nat) (e : Int) : Bool :=
  let size : Int := e + (Decimal.digits m).length
  m = 0 || size ≤ 308 ||
    (size = 309 && (m * Nat.pow 10 e.toNat < overflow * Nat.pow 10 (-e).toNat : Bool))

/-- The scalar is a number that is not whole, or a name of one. -/
def isReal (cs : List Char) : Bool :=
  let body := (afterMark? ['+'] cs).getD cs
  let named := [".inf", ".Inf", ".INF"].any (·.toList == body) ||
    ["-.inf", "-.Inf", "-.INF", ".nan", ".NaN", ".NAN"].any (·.toList == cs)
  named ||
    match decimalParts? (dropSign cs) with
    | some (m, e) => isFinite m e
    | none => false

/-- The scalar is no text, or a numeral that only its leading zero makes one. -/
def isAmbiguous (cs : List Char) : Bool :=
  cs.isEmpty || isNull cs || isTruth cs || isWhole cs || isPadded cs || isReal cs

end Fleet.Yaml
