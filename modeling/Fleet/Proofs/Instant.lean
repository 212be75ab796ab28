import Fleet.Instant.Reader
import Mathlib.Data.Int.Order.Basic
import Mathlib.Data.List.Lex

/-!
# Instants that clocks give, and their order

Instants are compared by their numbers, the weightiest first, and these tell instants apart.  So the
order is total and no two instants share a place in it.

## Main definitions

* `Instant.Regular` — the instant is one that a clock can give.
* The linear order of instants.
-/

namespace Fleet.Instant

/-- An instant that a clock can give: its year is one that instants may have, and a leap second
follows the last second of a minute. -/
def Regular (t : Instant) : Prop :=
  yearInRange t.date.year = true ∧ (1000000000 ≤ t.nano.val → t.second.val % 60 = 59)

instance (t : Instant) : Decidable t.Regular :=
  inferInstanceAs (Decidable (_ ∧ (_ → _)))

theorem le_iff_key_le {s t : Instant} : s ≤ t ↔ s.key ≤ t.key := by
  show (!t.key.lex s.key fun a b => decide (a < b)) = true ↔ _
  rw [Bool.not_eq_true', List.lex_eq_false_iff_not_lex, ← not_lt]
  simp only [decide_eq_true_eq]
  rfl

theorem key_injective : Function.Injective key := by
  rintro ⟨⟨year, month, day, _, _, _, _⟩, second, nano⟩ ⟨⟨year', month', day', _, _, _, _⟩, second',
    nano'⟩ h
  simp only [key, List.cons.injEq, Int.natCast_inj, Fin.val_inj, and_true] at h
  obtain ⟨rfl, rfl, rfl, rfl, rfl⟩ := h
  rfl

instance : LinearOrder Instant where
  le_refl s := le_iff_key_le.2 le_rfl
  le_trans s t u hst htu :=
    le_iff_key_le.2 ((le_iff_key_le.1 hst).trans (le_iff_key_le.1 htu))
  le_antisymm s t hst hts :=
    key_injective ((le_iff_key_le.1 hst).antisymm (le_iff_key_le.1 hts))
  le_total s t := (le_total s.key t.key).imp le_iff_key_le.2 le_iff_key_le.2
  toDecidableLE := inferInstance

end Fleet.Instant
