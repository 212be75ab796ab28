/-!
# Decimal numerals

The numeral of a natural number has no leading zero, so that each number has one numeral and each
numeral reads back as its number.

## Main definitions

* `digits` — the numeral of a number.
* `value?` — the number of a run of digits, leading zeros allowed.

## Main statements

* `value?_digits` — a numeral reads back.
* `digits_injective` — different numbers have different numerals.
-/

namespace Fleet.Decimal

/-- The digit for a number below ten. -/
def digit (d : Nat) : Char := Char.ofNat (48 + d)

/-- The number that a digit stands for. -/
def digitValue (c : Char) : Nat := c.toNat - 48

theorem digit_spec : ∀ d < 10, (digit d).isDigit = true ∧ digitValue (digit d) = d := by decide

/-- The digits of a number in base ten, the most significant first. -/
def digits (n : Nat) : List Char :=
  if n < 10 then [digit n] else digits (n / 10) ++ [digit (n % 10)]
termination_by n
decreasing_by omega

/-- The numeral of a number, as a text. -/
def text (n : Nat) : String := String.ofList (digits n)

/-- What digits are worth when they follow a number. -/
def accumulate (start : Nat) (cs : List Char) : Nat :=
  cs.foldl (fun n c => 10 * n + digitValue c) start

/-- The number of a nonempty run of digits. -/
def value? (cs : List Char) : Option Nat :=
  if !cs.isEmpty && cs.all Char.isDigit then some (accumulate 0 cs) else none

theorem accumulate_digits (n : Nat) : accumulate 0 (digits n) = n := by
  induction n using digits.induct with
  | case1 n h =>
    rw [digits, if_pos h]
    simp [accumulate, (digit_spec n h).2]
  | case2 n h ih =>
    rw [digits, if_neg h]
    simp only [accumulate, List.foldl_append, List.foldl_cons, List.foldl_nil] at ih ⊢
    rw [ih, (digit_spec _ (Nat.mod_lt _ (by omega))).2]
    omega

theorem all_isDigit_digits (n : Nat) : (digits n).all Char.isDigit = true := by
  induction n using digits.induct with
  | case1 n h =>
    rw [digits, if_pos h]
    simp [(digit_spec n h).1]
  | case2 n h ih =>
    rw [digits, if_neg h]
    simp only [List.all_append, ih, List.all_cons, List.all_nil, Bool.and_true, Bool.true_and]
    exact (digit_spec _ (Nat.mod_lt _ (by omega))).1

theorem digits_ne_nil (n : Nat) : digits n ≠ [] := by
  rw [digits]
  split <;> simp

theorem value?_digits (n : Nat) : value? (digits n) = some n := by
  simp [value?, all_isDigit_digits, accumulate_digits, digits_ne_nil]

theorem digits_injective {m n : Nat} (h : digits m = digits n) : m = n := by
  rw [← accumulate_digits m, h, accumulate_digits]

end Fleet.Decimal
