import Fleet.Number.Decimal
import Mathlib.Algebra.Group.Nat.Defs

/-!
# The shape of numerals

A numeral has as many digits as it needs, and does not start with a zero unless it is zero.
-/

namespace Fleet.Decimal

theorem length_digits_le {width n : Nat} (hn : n < 10 ^ (width + 1)) :
    (digits n).length ≤ width + 1 := by
  induction width generalizing n with
  | zero =>
    rw [digits, if_pos (by simpa using hn)]
    exact Nat.le_refl _
  | succ width ih =>
    rw [digits]
    split
    · exact Nat.le_add_left _ _
    · have hdiv : n / 10 < 10 ^ (width + 1) := by
        rw [Nat.div_lt_iff_lt_mul (by omega), ← Nat.pow_succ]
        exact hn
      have hle := ih hdiv
      rw [List.length_append, List.length_singleton]
      omega

/-- The first digit of a number that is not zero. -/
theorem digits_eq_cons {n : Nat} (hn : 0 < n) :
    ∃ d rest, digits n = digit d :: rest ∧ 0 < d ∧ d < 10 := by
  induction n using digits.induct with
  | case1 n h =>
    rw [digits, if_pos h]
    exact ⟨n, [], rfl, hn, h⟩
  | case2 n h ih =>
    obtain ⟨d, rest, heq, hpos, hlt⟩ := ih (by omega)
    rw [digits, if_neg h, heq]
    exact ⟨d, rest ++ [digit (n % 10)], rfl, hpos, hlt⟩

theorem toNat_of_isDigit {c : Char} (hc : c.isDigit = true) : 48 ≤ c.toNat ∧ c.toNat ≤ 57 := by
  simpa [Char.isDigit, UInt32.le_iff_toNat_le] using hc

theorem isDigit_of_mem_digits {n : Nat} {c : Char} (h : c ∈ digits n) : c.isDigit = true :=
  List.all_eq_true.1 (all_isDigit_digits n) c h

/-- Leading zeros are worth nothing. -/
theorem accumulate_zeros (k : Nat) (cs : List Char) :
    accumulate 0 (List.replicate k '0' ++ cs) = accumulate 0 cs := by
  induction k with
  | zero => rfl
  | succ k ih => exact ih

end Fleet.Decimal
