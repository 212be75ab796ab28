/-!
# Binary floating-point numbers

A binary64 number is held by its bits and all arithmetic on it is exact arithmetic on natural
numbers, rounded once.  Readings of a machine's load are such numbers, and they are compared, read
and written here without any other floating-point arithmetic.

## Main definitions

* `Binary64.key` — an integer that orders the numbers as their values do.
* `Binary64.compare?` — the order of two numbers, none if one of them is not a number.
* `Binary64.ofRatio` — the number nearest to a quotient, ties to the even neighbour.

## Main statements

* `compare?_swap` — swapping the operands swaps the result.
-/

namespace Fleet

/-- A binary64 number, by its bits: sign, eleven bits of exponent, fifty-two of fraction. -/
structure Binary64 where
  bits : UInt64
deriving DecidableEq, Inhabited

namespace Binary64

/-- Bits of positive infinity; the bits of the finite numbers lie below. -/
def infinityBits : Nat := 0x7FF0000000000000

/-- The weight of the sign bit. -/
def signBit : Nat := 1 <<< 63

/-- The bits without the sign. -/
def magnitude (x : Binary64) : Nat := x.bits.toNat % signBit

/-- The sign bit is set. -/
def negative (x : Binary64) : Bool := signBit ≤ x.bits.toNat

/-- The number with this sign and these other bits. -/
def ofMagnitude (negative : Bool) (m : Nat) : Binary64 :=
  ⟨(if negative then signBit + m else m).toUInt64⟩

/-- The bits stand for no number. -/
def isNaN (x : Binary64) : Bool := infinityBits < x.magnitude

/-- The bits stand for a real number. -/
def isFinite (x : Binary64) : Bool := x.magnitude < infinityBits

/-- The zero without a sign. -/
def zero : Binary64 := ⟨0⟩

/-- The same number with the other sign. -/
def neg (x : Binary64) : Binary64 := ofMagnitude (!x.negative) x.magnitude

/-- A number's place in the order of values; the two zeros share one place. -/
def key (x : Binary64) : Int := if x.negative then -(x.magnitude : Int) else x.magnitude

/-- The order of two values, none if one of them is not a number. -/
def compare? (x y : Binary64) : Option Ordering :=
  if x.isNaN || y.isNaN then none else some (Ord.compare x.key y.key)

/-- The value is at least zero; a number that is none is not. -/
def atLeastZero (x : Binary64) : Bool := !x.isNaN && 0 ≤ x.key

theorem compare?_swap (x y : Binary64) :
    compare? y x = (compare? x y).map Ordering.swap := by
  unfold compare?
  cases x.isNaN <;> cases y.isNaN <;> simp [Int.compare_swap]

theorem compare?_eq_some {x y : Binary64} (hx : x.atLeastZero = true) (hy : y.atLeastZero = true) :
    compare? x y = some (Ord.compare x.key y.key) := by
  simp only [atLeastZero, Bool.and_eq_true, Bool.not_eq_true'] at hx hy
  simp [compare?, hx.1, hy.1]

/-! ## Rounding -/

/-- Significand and exponent of two of a finite number without its sign. -/
def parts (x : Binary64) : Nat × Int :=
  let e : Nat := x.magnitude >>> 52
  let f : Nat := x.magnitude % (1 <<< 52)
  if e = 0 then (f, -1074) else (f + (1 <<< 52), (e : Int) - 1075)

/-- A quotient rounded to a whole number, ties to the even one. -/
def roundEven (num den : Nat) : Nat :=
  let m := num / den
  let r := num % den
  if 2 * r < den then m else if den < 2 * r then m + 1 else if m % 2 = 0 then m else m + 1

/-- The quotient of `num * 2 ^ shift` and `den`, as numerator and denominator. -/
def shifted (num den : Nat) (shift : Int) : Nat × Nat :=
  (num <<< shift.toNat, den <<< (-shift).toNat)

/-- The bits of the number nearest to a quotient, without sign: its significand has fifty-three
bits unless the exponent is the least one, and what is too large becomes infinite. -/
def ofRatio (num den : Nat) : Nat :=
  if num = 0 then 0
  else
    let guess : Int := (num.log2 : Int) - den.log2 - 52
    let (n, d) := shifted num den (-guess)
    let q : Int := max (if (n / d : Nat) < 1 <<< 52 then guess - 1 else guess) (-1074)
    let (n, d) := shifted num den (-q)
    min (((q + 1074).toNat <<< 52) + roundEven n d) infinityBits

/-- The number nearest to a natural number. -/
def ofNat (n : Nat) : Binary64 := ofMagnitude false (ofRatio n 1)

/-- The number nearest to an integer. -/
def ofInt (n : Int) : Binary64 := ofMagnitude (decide (n < 0)) (ofRatio n.natAbs 1)

/-- The product of two finite numbers, rounded. -/
def mul (x y : Binary64) : Binary64 :=
  let (m, p) := x.parts
  let (n, q) := y.parts
  let (num, den) := shifted (m * n) 1 (p + q)
  ofMagnitude (x.negative != y.negative) (ofRatio num den)

/-- The quotient of two finite numbers, rounded; the divisor is not zero. -/
def div (x y : Binary64) : Binary64 :=
  let (m, p) := x.parts
  let (n, q) := y.parts
  let (num, den) := shifted m n (p - q)
  ofMagnitude (x.negative != y.negative) (ofRatio num den)

end Binary64

end Fleet
