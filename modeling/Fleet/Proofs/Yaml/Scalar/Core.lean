import Fleet.Proofs.Number.Decimal
import Fleet.Yaml.Scalar.Core

/-!
# Numerals as plain scalars

A numeral has neither a sign nor the mark of a base nor a leading zero, so that it reads as its
number wherever a number is asked for, and never as null.

## Main statements

* `natural?_digits` — a numeral reads back.
* `isNull_digits` — a numeral is no word for null.
-/

namespace Fleet.Yaml

variable {cs : List Char}

theorem number?_digits (n : Nat) : Digit.number? 10 (Decimal.digits n) = some n := by
  have hvalue : ∀ d < 10, Digit.value? 10 (Decimal.digit d) = some d := by decide
  induction n using Decimal.digits.induct with
  | case1 n h =>
    rw [Decimal.digits, if_pos h]
    simp [Digit.number?, hvalue n h]
  | case2 n h ih =>
    rw [Decimal.digits, if_neg h]
    rw [Digit.number?] at ih ⊢
    rw [List.foldlM_append, ih]
    simp [hvalue _ (Nat.mod_lt n (by omega))]
    omega

/-- What starts with another character than a mark does not have the mark. -/
theorem afterMark?_of_ne {m : Char} (mark : List Char) (h : ∀ c ∈ cs, c ≠ m) :
    afterMark? (m :: mark) cs = none := by
  cases cs with
  | nil => rfl
  | cons c cs => rw [afterMark?, if_neg fun heq => h c (.head _) heq.symm]

theorem marked?_of_isDigit {limit : Nat} (h : ∀ c ∈ cs, c.isDigit = true) :
    marked? limit cs = none := by
  have hmark : ∀ base, base.isDigit = false → afterMark? ['0', base] cs = none := by
    intro base hbase
    cases cs with
    | nil => rfl
    | cons c cs =>
      rw [afterMark?]
      split
      · refine afterMark?_of_ne [] fun d hd => ?_
        rintro rfl
        rw [h d (.tail _ hd)] at hbase
        cases hbase
      · rfl
  rw [marked?, hmark 'x' rfl, hmark 'o' rfl, hmark 'b' rfl]
  rfl

theorem isPadded_digits (n : Nat) : isPadded (Decimal.digits n) = false := by
  rcases Nat.eq_zero_or_pos n with rfl | hn
  · rw [Decimal.digits, if_pos (by omega)]
    rfl
  · obtain ⟨d, rest, heq, hpos, hlt⟩ := Decimal.digits_eq_cons hn
    have hfirst : ∀ d < 10, 0 < d → Decimal.digit d ≠ '+' ∧ Decimal.digit d ≠ '-' ∧
        Decimal.digit d ≠ '0' := by decide
    obtain ⟨hplus, hminus, hzero⟩ := hfirst d hlt hpos
    rw [heq, isPadded, dropSign, if_neg (by simp [hplus, hminus])]
    split
    · next h => exact absurd (List.cons.inj h).1 hzero
    · rfl

/-- A numeral reads as its number. -/
theorem natural?_digits {limit n : Nat} (h : n ≤ limit) :
    natural? limit (Decimal.digits n) = some n := by
  have hdigits : ∀ c ∈ Decimal.digits n, c.isDigit = true := fun _ => Decimal.isDigit_of_mem_digits
  have hplus : afterMark? ['+'] (Decimal.digits n) = none := by
    refine afterMark?_of_ne [] fun c hc => ?_
    rintro rfl
    cases hdigits _ hc
  have hbase : inBase? 10 limit (Decimal.digits n) = some n := by
    simp [inBase?, Decimal.digits_ne_nil, number?_digits, h]
  simp [natural?, hplus, marked?_of_isDigit hdigits, isPadded_digits, hbase]

theorem isNull_digits (n : Nat) : isNull (Decimal.digits n) = false := by
  refine Bool.eq_false_iff.2 fun hnull => ?_
  simp only [isNull, List.any_eq_true, beq_iff_eq] at hnull
  obtain ⟨word, hword, heq⟩ := hnull
  have hdigits := Decimal.all_isDigit_digits n
  rw [← heq] at hdigits
  have hwords : ∀ word ∈ ["null", "Null", "NULL", "~"],
      word.toList.all Char.isDigit = false := by decide
  rw [hwords word hword] at hdigits
  cases hdigits

end Fleet.Yaml
