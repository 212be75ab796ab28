import Fleet.Proofs.Instant
import Fleet.Proofs.Number.Decimal

/-!
# The written form of an instant reads back

Every field of the written form has its full number of digits, so that a reader that takes so many
digits takes the field and nothing else. Only the fraction and a year outside of four digits end
with the digits.
-/

namespace Fleet.Instant

/-! ### Digits -/

theorem isDigit_of_mem_padded {width n : Nat} {c : Char} (h : c ∈ padded width n) :
    c.isDigit = true := by
  rw [padded, List.mem_append] at h
  rcases h with h | h
  · rw [List.eq_of_mem_replicate h]
    rfl
  · exact Decimal.isDigit_of_mem_digits h

theorem length_padded {width n : Nat} (hn : n < 10 ^ (width + 1)) :
    (padded (width + 1) n).length = width + 1 := by
  have hle := Decimal.length_digits_le hn
  rw [padded, List.length_append, List.length_replicate]
  omega

theorem accumulate_padded (width n : Nat) : Decimal.accumulate 0 (padded width n) = n := by
  rw [padded, Decimal.accumulate_zeros, Decimal.accumulate_digits]

theorem padded_ne_nil (width n : Nat) : padded width n ≠ [] := by
  rw [padded]
  intro h
  exact Decimal.digits_ne_nil n (List.append_eq_nil_iff.1 h).2

theorem takeWhile_digits {ds rest : List Char} (hds : ∀ c ∈ ds, c.isDigit = true)
    (hrest : rest.takeWhile Char.isDigit = []) :
    (ds ++ rest).takeWhile Char.isDigit = ds := by
  rw [List.takeWhile_append_of_pos hds, hrest, List.append_nil]

/-- Digits are taken up to the width of the field or up to what is no digit. -/
theorem number_digits {width : Nat} {ds rest : List Char} (hds : ∀ c ∈ ds, c.isDigit = true)
    (hne : ds ≠ []) (hlen : ds.length ≤ width)
    (hrest : (rest.take (width - ds.length)).takeWhile Char.isDigit = []) :
    number width (ds ++ rest) = some (Decimal.accumulate 0 ds, rest) := by
  have htake : ((ds ++ rest).take width).takeWhile Char.isDigit = ds := by
    rw [List.take_append, List.take_of_length_le hlen]
    exact takeWhile_digits hds hrest
  simp [number, htake, hne]

theorem number_padded (width : Nat) {n : Nat} (hn : n < 10 ^ (width + 1)) (rest : List Char) :
    number (width + 1) (padded (width + 1) n ++ rest) = some (n, rest) := by
  have hlen := length_padded hn
  rw [number_digits (fun _ => isDigit_of_mem_padded) (padded_ne_nil _ n) (Nat.le_of_eq hlen)
    (by simp [hlen]), accumulate_padded]

/-! ### Fields -/

theorem isBlank_of_isDigit {c : Char} (hc : c.isDigit = true) : Text.isBlank c = false := by
  have hc := Decimal.toNat_of_isDigit hc
  simp only [Text.isBlank, Bool.or_eq_false_iff, Bool.and_eq_false_iff, decide_eq_false_iff_not,
    beq_eq_false_iff_ne]
  omega

theorem trimLeft_cons {c : Char} (hc : Text.isBlank c = false) (rest : List Char) :
    Text.trimLeft (c :: rest) = c :: rest := by
  simp [Text.trimLeft, hc]

theorem trimLeft_padded (width n : Nat) (rest : List Char) :
    Text.trimLeft (padded width n ++ rest) = padded width n ++ rest := by
  cases h : padded width n with
  | nil => exact absurd h (padded_ne_nil width n)
  | cons c cs =>
    have hmem : c ∈ padded width n := by simp [h]
    exact trimLeft_cons (isBlank_of_isDigit (isDigit_of_mem_padded hmem)) _

theorem literal_cons {c : Char} (hc : Text.isBlank c = false) (rest : List Char) :
    literal c (c :: rest) = some ((), rest) := by
  simp [literal, trimLeft_cons hc]

theorem field_padded {least most n : Nat} (hleast : least ≤ n) (hmost : n ≤ most) (hn : n < 100)
    (rest : List Char) : field least most (padded 2 n ++ rest) = some (n, rest) := by
  simp [field, trimLeft_padded, number_padded 1 hn, hleast, hmost]

theorem signedNumber_padded {n : Nat} (hn : n < 1 <<< 63) (rest : List Char) :
    signedNumber (padded 4 n ++ '-' :: rest) = some (n, '-' :: rest) := by
  have htake : (padded 4 n ++ '-' :: rest).takeWhile Char.isDigit = padded 4 n :=
    takeWhile_digits (fun _ => isDigit_of_mem_padded) rfl
  have hlt : ¬ 1 <<< 63 ≤ n := by omega
  simp only [signedNumber, htake, accumulate_padded]
  simp [padded_ne_nil, hlt, -Nat.reduceShiftLeft]

/-- A year without a sign starts with a digit. -/
theorem year_padded {n : Nat} (hn : n < 10000) (rest : List Char) :
    year (padded 4 n ++ rest) = some ((n : Int), rest) := by
  have hread := number_padded 3 hn rest
  have htrim := trimLeft_padded 4 n rest
  cases h : padded 4 n with
  | nil => exact absurd h (padded_ne_nil 4 n)
  | cons c cs =>
    have hc : c.isDigit = true := isDigit_of_mem_padded (h ▸ List.mem_cons_self)
    rw [h] at hread htrim
    rw [year, htrim]
    split
    · next heq =>
      cases heq
      cases hc
    · next heq =>
      cases heq
      cases hc
    · rw [hread]
      rfl

theorem year_yearText {y : Int} (hy : yearInRange y = true) (rest : List Char) :
    year (yearText y ++ '-' :: rest) = some (y, '-' :: rest) := by
  simp only [yearInRange, Bool.and_eq_true, decide_eq_true_eq] at hy
  by_cases hfour : 0 ≤ y ∧ y ≤ 9999
  · rw [yearText, if_pos hfour, year_padded (by omega), Int.toNat_of_nonneg hfour.1]
  · have hread := signedNumber_padded (n := y.natAbs) (by omega) rest
    rw [yearText, if_neg hfour, year]
    by_cases hneg : y < 0
    · rw [if_pos hneg, List.cons_append, trimLeft_cons rfl]
      simp only [hread, Option.map_some, Option.some.injEq, Prod.mk.injEq, and_true]
      omega
    · rw [if_neg hneg, List.cons_append, trimLeft_cons rfl]
      simp only [hread, Option.map_some, Option.some.injEq, Prod.mk.injEq, and_true]
      omega

/-- The digits after a point are worth as much as their number tells. -/
theorem fraction_padded {width n weight : Nat} (hn : n < 10 ^ (width + 1))
    (hwidth : width + 1 ≤ 9) (hweight : Nat.pow 10 (9 - (width + 1)) = weight) :
    fraction ('.' :: padded (width + 1) n ++ ['Z']) = some (n * weight, ['Z']) := by
  have hlen := length_padded hn
  have hrest : ∀ k, (['Z'].take k).takeWhile Char.isDigit = [] := by
    intro k
    cases k <;> rfl
  have hread : number 9 (padded (width + 1) n ++ ['Z']) = some (n, ['Z']) := by
    rw [number_digits (fun _ => isDigit_of_mem_padded) (padded_ne_nil _ n) (by omega) (hrest _),
      accumulate_padded]
  simp [fraction, hread, hlen, ← hweight]

theorem fraction_fractionText {nano : Nat} (hnano : nano < 1000000000) :
    fraction (fractionText nano ++ ['Z']) = some (nano, ['Z']) := by
  rw [fractionText]
  split
  · next h =>
    rw [h]
    rfl
  · split
    · next h =>
      rw [fraction_padded (by omega) (by omega) (show Nat.pow 10 6 = 1000000 from rfl),
        Nat.div_mul_cancel (Nat.dvd_of_mod_eq_zero h)]
    · split
      · next h =>
        rw [fraction_padded (by omega) (by omega) (show Nat.pow 10 3 = 1000 from rfl),
          Nat.div_mul_cancel (Nat.dvd_of_mod_eq_zero h)]
      · rw [fraction_padded (by omega) (by omega) (show Nat.pow 10 0 = 1 from rfl), Nat.mul_one]

/-! ### The whole -/

theorem shift_zero (t : Instant) : t.shift 0 = t := by
  have hlt : t.second.val < 86400 := t.second.isLt
  have hneg : ¬ (t.second.val : Int) + 0 < 0 := by omega
  have hday : ¬ (secondsPerDay : Int) ≤ (t.second.val : Int) + 0 := by
    simp only [secondsPerDay]
    omega
  have hmod : (((t.second.val : Int) + 0) % secondsPerDay).toNat = t.second.val := by
    simp only [secondsPerDay]
    omega
  simp only [shift, if_neg hneg, if_neg hday, hmod]

theorem ofFields?_self {t : Instant} (ht : t.Regular) :
    ofFields? t.date (t.second.val / 3600) (t.second.val / 60 % 60)
      (t.second.val % 60 + t.nano.val / 1000000000) (t.nano.val % 1000000000) 0 = some t := by
  have hlt : t.second.val < 86400 := t.second.isLt
  have hnano := t.nano.isLt
  have hleap := ht.2
  have hsecond : t.second.val / 3600 * 3600 + t.second.val / 60 % 60 * 60 +
      min (t.second.val % 60 + t.nano.val / 1000000000) 59 = t.second.val := by omega
  have hfraction : t.nano.val % 1000000000 +
      (if t.second.val % 60 + t.nano.val / 1000000000 = 60 then 1000000000 else 0) =
        t.nano.val := by
    split <;> omega
  have hbound : t.second.val < secondsPerDay ∧ t.nano.val < 2000000000 := ⟨hlt, hnano⟩
  simp only [ofFields?, hsecond, hfraction]
  rw [dif_pos hbound, if_pos (show Int.natAbs 0 < secondsPerDay by decide), Int.neg_zero]
  simp only [Fin.eta, shift_zero, ht.1, Bool.and_self, if_true]

theorem calendarDate_yearText {d : Date} (hd : yearInRange d.year = true) (rest : List Char) :
    calendarDate (yearText d.year ++ '-' :: (padded 2 d.month ++ '-' :: (padded 2 d.day ++ rest)))
      = some (d, rest) := by
  have hmonth := d.month_le
  have hday : d.day ≤ 31 := by
    have hle := d.day_le
    have hmost : daysInMonth d.year d.month ≤ 31 := by
      rw [daysInMonth]
      split <;> split <;> omega
    omega
  simp [calendarDate, year_yearText hd, literal_cons (c := '-') rfl,
    field_padded d.month_pos hmonth (by omega), field_padded d.day_pos hday (by omega)]

/-- An instant that a clock gives reads back. -/
theorem parse?_text {t : Instant} (ht : t.Regular) : parse? t.text = some t := by
  have hlt : t.second.val < 86400 := t.second.isLt
  have hnano := t.nano.isLt
  have hchars : t.chars = yearText t.date.year ++ '-' :: (padded 2 t.date.month ++ '-' ::
      (padded 2 t.date.day ++ 'T' :: (padded 2 (t.second.val / 3600) ++ ':' ::
        (padded 2 (t.second.val / 60 % 60) ++ ':' ::
          (padded 2 (t.second.val % 60 + t.nano.val / 1000000000) ++
            (fractionText (t.nano.val % 1000000000) ++ ['Z'])))))) := by
    simp [chars]
  have htrim : Text.trimLeft ['Z'] = ['Z'] := rfl
  have hend : Text.trimLeft [] = [] := rfl
  rw [parse?, text, String.toList_ofList, ofChars?, hchars]
  simp [calendarDate_yearText ht.1, separator, literal_cons (c := ':') rfl,
    field_padded (Nat.zero_le _) (show t.second.val / 3600 ≤ 23 by omega) (by omega),
    field_padded (Nat.zero_le _) (show t.second.val / 60 % 60 ≤ 59 by omega) (by omega),
    field_padded (Nat.zero_le _)
      (show t.second.val % 60 + t.nano.val / 1000000000 ≤ 60 by omega) (by omega),
    fraction_fractionText (Nat.mod_lt t.nano.val (show 0 < 1000000000 by omega)), offset, htrim,
    hend, ofFields?_self ht]

end Fleet.Instant
