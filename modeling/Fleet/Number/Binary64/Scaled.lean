import Fleet.Number.Binary64

/-!
# Scaling by a power of ten

A decimal literal is read as a whole number and a power of ten.  The whole number is rounded to
binary64 first and the power is applied in at most a few steps, each rounded in turn: one step for
powers up to `10 ^ 308`, several for more.  Literals of up to fifteen digits with a small power read
as the nearest number; longer ones may miss it by a unit in the last place.

## Main definitions

* `Binary64.scaled?` — the value of a literal, none if it is too large.
-/

namespace Fleet.Binary64

/-- The largest power of ten that one step applies. -/
def maxStep : Nat := 308

/-- The number nearest to a power of ten. -/
def pow10 (k : Nat) : Binary64 := ofNat (Nat.pow 10 k)

/-- A number divided by a power of ten. -/
def scaleDown (x : Binary64) (k : Nat) : Binary64 :=
  if k ≤ maxStep then x.div (pow10 k)
  else if x.magnitude = 0 then x
  else scaleDown (x.div (pow10 maxStep)) (k - maxStep)
termination_by k
decreasing_by simp only [maxStep] at *; omega

/-- A number multiplied by a power of ten, none if the product is infinite. -/
def scaleUp? (x : Binary64) (k : Nat) : Option Binary64 :=
  if k ≤ maxStep then
    let y := x.mul (pow10 k)
    if y.isFinite then some y else none
  else if x.magnitude = 0 then some x
  else none

/-- The value of `significand * 10 ^ exponent` with the given sign. -/
def scaled? (negative : Bool) (significand : Nat) (exponent : Int) : Option Binary64 :=
  let x := ofNat significand
  let scaled :=
    if 0 ≤ exponent then scaleUp? x exponent.toNat else some (scaleDown x (-exponent).toNat)
  scaled.map fun y => ofMagnitude negative y.magnitude

end Fleet.Binary64
