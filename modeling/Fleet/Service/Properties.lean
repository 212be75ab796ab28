/-!
# Properties

A property is a text under a key, each key once.  Properties stand in the order of their keys, so
that equal collections are equal values; whoever goes through them may meet them in any order.

## Main definitions

* `Properties` — a collection; order and uniqueness of the keys are part of the type.
* `Properties.insert`, `Properties.ofList` — building one; the last value given for a key counts.
* `Properties.Order` — an order in which the entries of collections are met.

## Main statements

* `get?_insert` — what inserting does to every key.
-/

namespace Fleet

/-- Texts by key, in the order of the keys. -/
structure Properties where
  entries : List (String × String)
  sorted : entries.Pairwise fun a b => a.1 < b.1
deriving DecidableEq

namespace Properties

/-- No properties. -/
def empty : Properties := ⟨[], .nil⟩

instance : Inhabited Properties := ⟨empty⟩

/-- The value of a key. -/
def get? (p : Properties) (k : String) : Option String :=
  (p.entries.find? fun e => e.1 = k).map Prod.snd

/-- The entries with one key given a value. -/
def insertEntry (k v : String) : List (String × String) → List (String × String)
  | [] => [(k, v)]
  | e :: rest =>
    if k < e.1 then (k, v) :: e :: rest
    else if k = e.1 then (k, v) :: rest
    else e :: insertEntry k v rest

theorem mem_insertEntry {k v : String} {e : String × String} {entries : List (String × String)}
    (h : e ∈ insertEntry k v entries) : e = (k, v) ∨ e ∈ entries := by
  induction entries with
  | nil => simpa [insertEntry] using h
  | cons a rest ih =>
    unfold insertEntry at h
    split at h
    · simpa using h
    · split at h
      · rcases List.mem_cons.1 h with h | h
        · exact .inl h
        · exact .inr (.tail _ h)
      · rcases List.mem_cons.1 h with h | h
        · exact .inr (h ▸ .head _)
        · exact (ih h).imp_right (.tail _)

theorem sorted_insertEntry (k v : String) {entries : List (String × String)}
    (h : entries.Pairwise fun a b => a.1 < b.1) :
    (insertEntry k v entries).Pairwise fun a b => a.1 < b.1 := by
  induction entries with
  | nil => simp [insertEntry]
  | cons a rest ih =>
    obtain ⟨ha, hr⟩ := List.pairwise_cons.1 h
    unfold insertEntry
    split
    · next hk =>
      refine List.pairwise_cons.2 ⟨fun e he => ?_, h⟩
      rcases List.mem_cons.1 he with rfl | he
      · exact hk
      · exact String.lt_trans hk (ha e he)
    · next hk =>
      split
      · next heq => exact List.pairwise_cons.2 ⟨fun e he => heq ▸ ha e he, hr⟩
      · next hne =>
        refine List.pairwise_cons.2 ⟨fun e he => ?_, ih hr⟩
        rcases mem_insertEntry he with rfl | he
        · exact Std.lt_of_le_of_ne hk (Ne.symm hne)
        · exact ha e he

/-- Gives a key a value. -/
def insert (p : Properties) (k v : String) : Properties :=
  ⟨insertEntry k v p.entries, sorted_insertEntry k v p.sorted⟩

theorem find?_insertEntry (k v k' : String) (entries : List (String × String)) :
    (insertEntry k v entries).find? (fun e => e.1 = k') =
      if k = k' then some (k, v) else entries.find? fun e => e.1 = k' := by
  induction entries with
  | nil => by_cases h : k = k' <;> simp [insertEntry, h]
  | cons a rest ih =>
    unfold insertEntry
    split
    · by_cases h : k = k' <;> simp [h]
    · split
      · next heq => by_cases h : k = k' <;> simp [← heq, h]
      · next hne =>
        by_cases ha : a.1 = k'
        · have h : k ≠ k' := fun h => hne (h.trans ha.symm)
          simp [ha, h]
        · simp [ha, ih]

theorem get?_insert (p : Properties) (k v k' : String) :
    (p.insert k v).get? k' = if k = k' then some v else p.get? k' := by
  simp only [get?, insert, find?_insertEntry]
  split <;> rfl

/-- The properties given one after another; the last value of a key counts. -/
def ofList (entries : List (String × String)) : Properties :=
  entries.foldl (fun p e => p.insert e.1 e.2) empty

/-- An order in which the entries of collections are met. -/
structure Order where
  arrange : List (String × String) → List (String × String)
  perm : ∀ entries, (arrange entries).Perm entries

namespace Order

/-- The order of the keys. -/
def byKey : Order := ⟨id, .refl⟩

/-- The last key first. -/
def reversed : Order := ⟨List.reverse, List.reverse_perm⟩

instance : Inhabited Order := ⟨byKey⟩

end Order

end Properties

end Fleet
