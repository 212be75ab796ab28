/-!
# Digits

A digit of a base up to thirty-six is a decimal digit or a letter, of either case.

## Main definitions

* `Digit.value?` — the value of a digit.
* `Digit.lower`, `Digit.upper` — the digits of values below sixteen.
* `Digit.hexadecimal` — the last digits of a number in base sixteen.
-/

namespace Fleet.Digit

/-- The value of a digit of a base, of either case. -/
def value? (base : Nat) (c : Char) : Option Nat :=
  let n :=
    if '0' ≤ c ∧ c ≤ '9' then c.toNat - 48
    else if 'a' ≤ c ∧ c ≤ 'z' then c.toNat - 87
    else if 'A' ≤ c ∧ c ≤ 'Z' then c.toNat - 55
    else base
  if n < base then some n else none

/-- The digit of a value below sixteen, in lower case. -/
def lower (n : Nat) : Char := Char.ofNat (if n < 10 then 48 + n else 87 + n)

/-- The digit of a value below sixteen, in upper case. -/
def upper (n : Nat) : Char := Char.ofNat (if n < 10 then 48 + n else 55 + n)

theorem value?_lower : ∀ n < 16, value? 16 (lower n) = some n := by decide

theorem value?_upper : ∀ n < 16, value? 16 (upper n) = some n := by decide

/-- The last digits of a number in base sixteen, so many of them. -/
def hexadecimal (digit : Nat → Char) : Nat → Nat → List Char
  | 0, _ => []
  | width + 1, n => hexadecimal digit width (n / 16) ++ [digit (n % 16)]

theorem length_hexadecimal (digit : Nat → Char) (width n : Nat) :
    (hexadecimal digit width n).length = width := by
  induction width generalizing n with
  | zero => rfl
  | succ w ih => simp [hexadecimal, ih]

/-- The number that digits of a base stand for. -/
def number? (base : Nat) (cs : List Char) : Option Nat :=
  cs.foldlM (fun n c => (value? base c).map (base * n + ·)) 0

/-- The last digits of a number read back, whichever digits stand for the values. -/
theorem number?_hexadecimal {digit : Nat → Char} (hdigit : ∀ n < 16, value? 16 (digit n) = some n)
    (width n : Nat) :
    number? 16 (hexadecimal digit width n) = some (n % Nat.pow 16 width) := by
  induction width generalizing n with
  | zero => simp [hexadecimal, number?, Nat.mod_one]
  | succ w ih =>
    have step : number? 16 (hexadecimal digit w (n / 16) ++ [digit (n % 16)]) =
        (number? 16 (hexadecimal digit w (n / 16))).bind fun m =>
          (value? 16 (digit (n % 16))).map (16 * m + ·) := by
      simp [number?, List.foldlM_append]
    rw [hexadecimal, step, ih, hdigit _ (Nat.mod_lt _ (by omega))]
    simp only [Option.bind_some, Option.map_some, Option.some.injEq]
    rw [show Nat.pow 16 (w + 1) = 16 * Nat.pow 16 w from Nat.mul_comm .., Nat.mod_mul]
    omega

end Fleet.Digit
