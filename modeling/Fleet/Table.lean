/-!
# Tables

A table maps keys to values, each key once.  Its entries stand in the order in which their keys came
in; replacing a value keeps the entry's place.

## Main definitions

* `Table` — a table; that no key occurs twice is part of the type.
* `Table.get?`, `Table.insert`, `Table.erase`, `Table.modify` — the operations.

## Main statements

* `get?_insert`, `get?_erase`, `get?_modify` — what each operation does to every key.
-/

namespace Fleet

/-- A map from keys to values, in the order of the keys' arrival. -/
structure Table (κ α : Type) where
  entries : List (κ × α)
  nodup : (entries.map Prod.fst).Nodup

namespace Table

variable {κ α : Type}

/-- The table without entries. -/
def empty : Table κ α := ⟨[], List.nodup_nil⟩

instance : Inhabited (Table κ α) := ⟨empty⟩

/-- The number of entries. -/
def size (t : Table κ α) : Nat := t.entries.length

/-- The keys. -/
def keys (t : Table κ α) : List κ := t.entries.map Prod.fst

/-- The values. -/
def values (t : Table κ α) : List α := t.entries.map Prod.snd

variable [DecidableEq κ]

/-- The value of a key in a list of entries. -/
def lookup (k : κ) : List (κ × α) → Option α
  | [] => none
  | (k', v) :: rest => if k = k' then some v else lookup k rest

/-- The value of a key. -/
def get? (t : Table κ α) (k : κ) : Option α := lookup k t.entries

/-- Whether a key has a value. -/
def contains (t : Table κ α) (k : κ) : Bool := (t.get? k).isSome

/-- The entries with the value of one key changed. -/
def modifyEntries (k : κ) (f : α → α) (entries : List (κ × α)) : List (κ × α) :=
  entries.map fun e => if e.1 = k then (e.1, f e.2) else e

theorem keys_modifyEntries (k : κ) (f : α → α) (entries : List (κ × α)) :
    (modifyEntries k f entries).map Prod.fst = entries.map Prod.fst := by
  rw [modifyEntries, List.map_map]
  refine List.map_congr_left fun e _ => ?_
  simp only [Function.comp]
  split <;> rfl

/-- Changes the value of a key that has one. -/
def modify (t : Table κ α) (k : κ) (f : α → α) : Table κ α :=
  ⟨modifyEntries k f t.entries, by rw [keys_modifyEntries]; exact t.nodup⟩

/-- Takes a key out. -/
def erase (t : Table κ α) (k : κ) : Table κ α :=
  ⟨t.entries.filter (fun e => e.1 ≠ k), by
    have h : ((t.entries.filter fun e => e.1 ≠ k).map Prod.fst).Sublist (t.entries.map Prod.fst) :=
      List.filter_sublist.map _
    exact h.nodup t.nodup⟩

theorem lookup_eq_none_iff {k : κ} {entries : List (κ × α)} :
    lookup k entries = none ↔ k ∉ entries.map Prod.fst := by
  induction entries with
  | nil => simp [lookup]
  | cons e rest ih =>
    obtain ⟨k', v⟩ := e
    by_cases h : k = k' <;> simp [lookup, h, ih]

theorem get?_eq_none_iff {t : Table κ α} {k : κ} : t.get? k = none ↔ k ∉ t.keys :=
  lookup_eq_none_iff

/-- Gives a key a value: in place if it has one, else as the last entry. -/
def insert (t : Table κ α) (k : κ) (v : α) : Table κ α :=
  if h : t.get? k = none then
    ⟨t.entries ++ [(k, v)], by
      rw [List.map_append]
      refine List.nodup_append.2 ⟨t.nodup, by simp, ?_⟩
      intro a ha b hb hab
      simp only [List.map_cons, List.map_nil, List.mem_singleton] at hb
      exact get?_eq_none_iff.1 h (hb ▸ hab ▸ ha)⟩
  else t.modify k fun _ => v

theorem lookup_append (k : κ) (l r : List (κ × α)) :
    lookup k (l ++ r) = (lookup k l).or (lookup k r) := by
  induction l with
  | nil => simp [lookup]
  | cons e rest ih =>
    obtain ⟨k', v⟩ := e
    by_cases h : k = k' <;> simp [lookup, h, ih]

theorem lookup_modifyEntries (k k' : κ) (f : α → α) (entries : List (κ × α)) :
    lookup k' (modifyEntries k f entries) =
      if k' = k then (lookup k entries).map f else lookup k' entries := by
  induction entries with
  | nil => simp [modifyEntries, lookup]
  | cons e rest ih =>
    obtain ⟨a, v⟩ := e
    simp only [modifyEntries] at ih ⊢
    by_cases ha : a = k <;> by_cases hk : k' = k <;> by_cases hka : k' = a <;>
      simp_all [lookup]

theorem lookup_filter_ne (k k' : κ) (entries : List (κ × α)) :
    lookup k' (entries.filter fun e => e.1 ≠ k) = if k' = k then none else lookup k' entries := by
  induction entries with
  | nil => simp [lookup]
  | cons e rest ih =>
    obtain ⟨a, v⟩ := e
    by_cases ha : a = k <;> by_cases hk : k' = k <;> by_cases hka : k' = a <;>
      simp_all [lookup]

@[simp] theorem get?_empty (k : κ) : (empty : Table κ α).get? k = none := rfl

theorem get?_modify (t : Table κ α) (k k' : κ) (f : α → α) :
    (t.modify k f).get? k' = if k' = k then (t.get? k).map f else t.get? k' :=
  lookup_modifyEntries ..

theorem get?_erase (t : Table κ α) (k k' : κ) :
    (t.erase k).get? k' = if k' = k then none else t.get? k' :=
  lookup_filter_ne ..

theorem get?_insert (t : Table κ α) (k k' : κ) (v : α) :
    (t.insert k v).get? k' = if k' = k then some v else t.get? k' := by
  unfold insert
  split
  · next h =>
    show lookup k' (t.entries ++ [(k, v)]) = _
    rw [lookup_append]
    by_cases hk : k' = k
    · subst hk
      have : lookup k' t.entries = none := h
      simp [this, lookup]
    · simp [lookup, hk, get?]
  · next h =>
    rw [get?_modify]
    obtain ⟨w, hw⟩ := Option.ne_none_iff_exists'.1 h
    simp [hw]

end Table

end Fleet
