import Fleet.Table
import Mathlib.Algebra.BigOperators.Group.Multiset.Basic

/-!
# What tables hold

A table has a value for a key exactly when the two stand in it as an entry. The sum of a measure
over all entries splits into the part of one key and the rest, which is how a change at one key is
seen in the sum.
-/

namespace Fleet

/-! ### Sorting what is stored in any order -/

/-- A list that rises is what any arrangement of it is sorted into. -/
theorem mergeSort_eq_of_perm {α : Type} {le : α → α → Bool} {stored l : List α}
    (trans : ∀ a b c, le a b = true → le b c = true → le a c = true)
    (total : ∀ a b, (le a b || le b a) = true)
    (hl : l.Pairwise fun a b => le a b = true ∧ le b a = false) (hs : stored.Perm l) :
    stored.mergeSort le = l := by
  have hperm := (List.mergeSort_perm stored le).trans hs
  have hapart : l.Pairwise fun a b => ¬ (le a b = true ∧ le b a = true) :=
    hl.imp fun h hboth => by simp [h.2] at hboth
  have hsymm : Std.Symm fun a b => ¬ (le a b = true ∧ le b a = true) :=
    ⟨fun a b h hboth => h hboth.symm⟩
  refine hperm.eq_of_pairwise (fun a b ha hb hab hba => ?_)
    (List.pairwise_mergeSort trans total stored) (hl.imp And.left)
  by_contra hne
  exact hapart.forall (hperm.mem_iff.1 ha) hb hne ⟨hab, hba⟩

/-- Sorting depends only on how the members of the list compare. -/
theorem mergeSort_congr {α : Type} {le le' : α → α → Bool} {l : List α}
    (h : ∀ a ∈ l, ∀ b ∈ l, le a b = le' a b) : l.mergeSort le = l.mergeSort le' := by
  simpa using List.map_mergeSort (f := id) h

end Fleet

namespace Fleet.Table

variable {κ α : Type} [DecidableEq κ] {t : Table κ α} {k k' : κ} {v : α}

theorem get?_eq_some_iff : t.get? k = some v ↔ (k, v) ∈ t.entries := by
  obtain ⟨entries, nodup⟩ := t
  simp only [get?]
  induction entries with
  | nil => simp [lookup]
  | cons e rest ih =>
    obtain ⟨a, w⟩ := e
    obtain ⟨hfresh, hrest⟩ := List.nodup_cons.1 nodup
    by_cases h : k = a
    · subst h
      have hout : (k, v) ∉ rest := fun hm => hfresh (List.mem_map.2 ⟨_, hm, rfl⟩)
      simp [lookup, hout, eq_comm]
    · simp [lookup, h, ih hrest]

theorem contains_iff : t.contains k = true ↔ ∃ v, t.get? k = some v := by
  rw [contains, Option.isSome_iff_exists]

theorem contains_eq_false_iff : t.contains k = false ↔ t.get? k = none := by
  rw [contains, Option.isSome_eq_false_iff, Option.isNone_iff_eq_none]

theorem mem_keys_iff : k ∈ t.keys ↔ ∃ v, t.get? k = some v := by
  rw [← not_iff_not, ← get?_eq_none_iff, ← Option.not_isSome_iff_eq_none,
    Option.isSome_iff_exists]

theorem mem_values_iff : v ∈ t.values ↔ ∃ k, t.get? k = some v := by
  simp only [values, List.mem_map, get?_eq_some_iff]
  constructor
  · rintro ⟨⟨k, _⟩, he, rfl⟩
    exact ⟨k, he⟩
  · rintro ⟨k, hk⟩
    exact ⟨(k, v), hk, rfl⟩

/-- Entries that agree with the values of all keys are a table's entries in some order. -/
theorem entries_perm {l : List (κ × α)} (hl : l.Nodup)
    (h : ∀ k v, t.get? k = some v ↔ (k, v) ∈ l) : t.entries.Perm l := by
  refine (List.perm_ext_iff_of_nodup (List.Nodup.of_map _ t.nodup) hl).2 ?_
  rintro ⟨k, v⟩
  rw [← get?_eq_some_iff, h]

theorem entries_insert_new (h : t.get? k = none) :
    (t.insert k v).entries = t.entries ++ [(k, v)] := by
  rw [insert, dif_pos h]

theorem entries_modify (t : Table κ α) (k : κ) (f : α → α) :
    (t.modify k f).entries = t.entries.map fun e => if e.1 = k then (e.1, f e.2) else e := rfl

/-! ### Sums over all entries -/

variable {β : Type} (g : κ → α → Multiset β)

omit [DecidableEq κ] in
theorem mem_sum_map {f : α → Multiset β} {l : List α} {x : β} (h : x ∈ (l.map f).sum) :
    ∃ a ∈ l, x ∈ f a := by
  induction l with
  | nil => exact absurd h (Multiset.notMem_zero x)
  | cons a rest ih =>
    rw [List.map_cons, List.sum_cons, Multiset.mem_add] at h
    rcases h with h | h
    · exact ⟨a, List.mem_cons_self, h⟩
    · obtain ⟨b, hb, hx⟩ := ih h
      exact ⟨b, List.mem_cons_of_mem _ hb, hx⟩

/-- The sum of a measure over all entries. -/
def total (t : Table κ α) : Multiset β := (t.entries.map fun e => g e.1 e.2).sum

private theorem sum_filter_ne {entries : List (κ × α)} (hk : (entries.map Prod.fst).Nodup)
    (h : lookup k entries = some v) :
    (entries.map fun e => g e.1 e.2).sum =
      g k v + ((entries.filter fun e => e.1 ≠ k).map fun e => g e.1 e.2).sum := by
  induction entries with
  | nil => simp [lookup] at h
  | cons e rest ih =>
    obtain ⟨a, w⟩ := e
    obtain ⟨hfresh, hrest⟩ := List.nodup_cons.1 hk
    by_cases ha : k = a
    · subst ha
      have hw : w = v := by simpa [lookup] using h
      have hall : rest.filter (fun e => e.1 ≠ k) = rest := by
        refine List.filter_eq_self.2 fun e he => ?_
        have hne : e.1 ≠ k := fun heq => hfresh (heq ▸ List.mem_map.2 ⟨e, he, rfl⟩)
        simp [hne]
      rw [List.filter_cons_of_neg (by simp), hall, hw]
      rfl
    · have hv : lookup k rest = some v := by simpa [lookup, ha] using h
      have hne : a ≠ k := fun h => ha h.symm
      rw [List.filter_cons_of_pos (by simp [hne]), List.map_cons, List.map_cons, List.sum_cons,
        List.sum_cons, ih hrest hv, ← add_assoc, ← add_assoc, add_comm (g a w)]

/-- The part of one key and the rest. -/
theorem total_eq_add (h : t.get? k = some v) : t.total g = g k v + (t.erase k).total g :=
  sum_filter_ne g t.nodup h

theorem erase_of_get?_eq_none (h : t.get? k = none) : t.erase k = t := by
  obtain ⟨entries, nodup⟩ := t
  have hall : entries.filter (fun e => e.1 ≠ k) = entries := by
    refine List.filter_eq_self.2 fun e he => ?_
    have hne : e.1 ≠ k := fun heq => get?_eq_none_iff.1 h (heq ▸ List.mem_map.2 ⟨e, he, rfl⟩)
    simp [hne]
  simp only [erase, hall]

private theorem filter_modifyEntries (f : α → α) (entries : List (κ × α)) :
    (modifyEntries k f entries).filter (fun e => e.1 ≠ k) =
      entries.filter fun e => e.1 ≠ k := by
  induction entries with
  | nil => rfl
  | cons e rest ih =>
    simp only [modifyEntries, List.map_cons] at ih ⊢
    by_cases h : e.1 = k
    · simp only [h, if_true]
      rw [List.filter_cons_of_neg (by simp), List.filter_cons_of_neg (by simp [h]), ih]
    · simp only [h, if_false]
      rw [List.filter_cons_of_pos (by simp [h]), List.filter_cons_of_pos (by simp [h]), ih]

theorem modify_of_get?_eq_none {f : α → α} (h : t.get? k = none) : t.modify k f = t := by
  obtain ⟨entries, nodup⟩ := t
  have hsame : modifyEntries k f entries = entries := by
    refine (List.map_congr_left fun e he => ?_).trans (List.map_id entries)
    have hne : e.1 ≠ k := fun heq => get?_eq_none_iff.1 h (heq ▸ List.mem_map.2 ⟨e, he, rfl⟩)
    simp [hne]
  simp only [modify, hsame]

theorem erase_modify (f : α → α) : (t.modify k f).erase k = t.erase k := by
  simp only [erase, modify, filter_modifyEntries]

theorem erase_insert : (t.insert k v).erase k = t.erase k := by
  rw [insert]
  split
  · simp [erase, List.filter_append]
  · exact erase_modify _

theorem total_insert : (t.insert k v).total g = g k v + (t.erase k).total g := by
  have h : (t.insert k v).get? k = some v := by simp [get?_insert]
  rw [total_eq_add g h, erase_insert]

theorem total_insert_new (h : t.get? k = none) : (t.insert k v).total g = g k v + t.total g := by
  rw [total_insert, erase_of_get?_eq_none h]

theorem total_modify {f : α → α} (h : t.get? k = some v) :
    (t.modify k f).total g = g k (f v) + (t.erase k).total g := by
  have h' : (t.modify k f).get? k = some (f v) := by simp [get?_modify, h]
  rw [total_eq_add g h', erase_modify]

omit [DecidableEq κ] in
theorem total_singleton (t : Table κ α) :
    (t.total fun k v => {(k, v)}) = (t.entries : Multiset (κ × α)) := by
  rw [total, ← Multiset.sum_coe, ← Multiset.map_coe]
  exact Multiset.sum_map_singleton _

/-- A new key adds its entry. -/
theorem entries_insert (h : t.get? k = none) :
    ((t.insert k v).entries : Multiset (κ × α)) = (k, v) ::ₘ t.entries := by
  rw [← total_singleton, total_insert_new _ h, total_singleton, Multiset.singleton_add]

/-- A key that is taken out takes its entry along. -/
theorem entries_erase (h : t.get? k = some v) :
    (t.entries : Multiset (κ × α)) = (k, v) ::ₘ (t.erase k).entries := by
  rw [← total_singleton, total_eq_add _ h, total_singleton, Multiset.singleton_add]

end Fleet.Table
