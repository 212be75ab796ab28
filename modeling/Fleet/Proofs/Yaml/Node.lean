import Fleet.Yaml.Node.Reader

/-!
# Values read back

A value is found from the tokens it starts with; what is known of the tokens after it says where it
ends.  The reader counts its steps, and three for each token are enough.

## Main definitions

* `ReadsAs`, `EntriesReadAs`, `ItemsReadAs` — tokens read as a value, as entries of a mapping, or as
  items of a sequence that is not indented, up to others.

## Main statements

* `readsAs_scalar`, `EntriesReadAs.mapping`, `ItemsReadAs.sequence`, `readsAs_brackets` — the
  values.
* `entriesReadAs_end`, `EntriesReadAs.cons`, `itemsReadAs_end`, `ItemsReadAs.cons` — their parts.
-/

namespace Fleet.Yaml

variable {handles : Handles} {atEntry : Bool} {ts rest more : List Token} {v : Node (List Char)}

/-- A list of tokens reads as a value up to the tokens in `rest`. -/
structure ReadsAs (handles : Handles) (atEntry : Bool) (ts : List Token) (v : Node (List Char))
    (rest : List Token) : Prop where
  shorter : rest.length < ts.length
  reads : ∀ fuel, 3 * ts.length ≤ fuel → readNode? handles fuel atEntry ts = some (v, rest)

/-- A list of tokens reads as entries of a block mapping, and its end, up to the tokens in
`rest`. -/
structure EntriesReadAs (handles : Handles) (ts : List Token)
    (entries : List (Node (List Char) × Node (List Char))) (rest : List Token) : Prop where
  shorter : rest.length < ts.length
  reads : ∀ fuel done, 3 * ts.length ≤ fuel →
    readEntries? handles fuel done ts = some (done.reverse ++ entries, rest)

/-- A list of tokens reads as items of a sequence that is not indented, up to the tokens in
`rest`. -/
structure ItemsReadAs (handles : Handles) (ts : List Token) (items : List (Node (List Char)))
    (rest : List Token) : Prop where
  shorter : rest.length ≤ ts.length
  reads : ∀ fuel done, 3 * ts.length ≤ fuel + 1 →
    readLooseItems? handles fuel done ts = some (done.reverse ++ items, rest)

/-! ### Scalars -/

theorem readsAs_scalar (style : ScalarStyle) (text : List Char) :
    ReadsAs handles atEntry (.scalar style text :: rest) (.scalar .empty style text) rest := by
  refine ⟨Nat.lt_succ_self _, fun fuel hfuel => ?_⟩
  obtain ⟨fuel, rfl⟩ : ∃ n, fuel = n + 1 := ⟨fuel - 1, by rw [List.length_cons] at hfuel; omega⟩
  cases atEntry <;> rfl

/-- A value that is not left out. -/
theorem readUnless?_eq {fuel : Nat} {ends : List Token} (h : ReadsAs handles atEntry ts v rest)
    (hends : isOneOf ends ts = false) (hfuel : 3 * ts.length < fuel) :
    readUnless? handles fuel atEntry ends ts = some (v, rest) := by
  obtain ⟨fuel, rfl⟩ : ∃ n, fuel = n + 1 := ⟨fuel - 1, by omega⟩
  rw [readUnless?, hends, if_neg (by simp), h.reads fuel (by omega)]

/-! ### Mappings -/

theorem entriesReadAs_end : EntriesReadAs handles (.blockEnd :: rest) [] rest := by
  refine ⟨Nat.lt_succ_self _, fun fuel done hfuel => ?_⟩
  obtain ⟨fuel, rfl⟩ : ∃ n, fuel = n + 1 := ⟨fuel - 1, by rw [List.length_cons] at hfuel; omega⟩
  simp [readEntries?]

theorem EntriesReadAs.cons {name : List Char} {entries : List (Node (List Char) × Node (List Char))}
    (h : EntriesReadAs handles more entries rest) (hvalue : ReadsAs handles true ts v more)
    (hends : isOneOf entryEnds ts = false) :
    EntriesReadAs handles (.key :: .scalar .plain name :: .value :: ts)
      ((.scalar .empty .plain name, v) :: entries) rest := by
  have hmore := hvalue.shorter
  have hrest := h.shorter
  refine ⟨by simp only [List.length_cons]; omega, fun fuel done hfuel => ?_⟩
  simp only [List.length_cons] at hfuel
  obtain ⟨fuel, rfl⟩ : ∃ n, fuel = n + 1 + 1 := ⟨fuel - 2, by omega⟩
  have hkey : readUnless? handles (fuel + 1) true entryEnds (.scalar .plain name :: .value :: ts) =
      some (.scalar .empty .plain name, .value :: ts) :=
    readUnless?_eq (readsAs_scalar ..) rfl (by simp only [List.length_cons]; omega)
  rw [readEntries?, hkey]
  dsimp only
  rw [readAfter?, readUnless?_eq hvalue hends (by omega)]
  dsimp only
  rw [h.reads _ _ (by omega)]
  simp

theorem EntriesReadAs.mapping {entries : List (Node (List Char) × Node (List Char))}
    (h : EntriesReadAs handles ts entries rest) :
    ReadsAs handles atEntry (.blockMappingStart :: ts) (.mapping .empty entries) rest := by
  refine ⟨Nat.lt_succ_of_lt h.shorter, fun fuel hfuel => ?_⟩
  rw [List.length_cons] at hfuel
  obtain ⟨fuel, rfl⟩ : ∃ n, fuel = n + 1 := ⟨fuel - 1, by omega⟩
  have hentries := h.reads fuel [] (by omega)
  cases atEntry <;> simp [readNode?, readProperties?, isOneOf, hentries]

/-! ### Sequences -/

theorem itemsReadAs_end (hne : ts ≠ []) (hends : isOneOf [.blockEntry] ts = false) :
    ItemsReadAs handles ts [] ts := by
  refine ⟨Nat.le_refl _, fun fuel done hfuel => ?_⟩
  obtain ⟨t, ts, rfl⟩ := List.exists_cons_of_ne_nil hne
  rw [List.length_cons] at hfuel
  obtain ⟨fuel, rfl⟩ : ∃ n, fuel = n + 1 := ⟨fuel - 1, by omega⟩
  rw [readLooseItems?, List.append_nil]
  rintro ts' hts
  cases hts
  cases hends

theorem ItemsReadAs.cons {items : List (Node (List Char))} (h : ItemsReadAs handles more items rest)
    (hvalue : ReadsAs handles false ts v more)
    (hends : isOneOf (.blockEntry :: entryEnds) ts = false) :
    ItemsReadAs handles (.blockEntry :: ts) (v :: items) rest := by
  have hmore := hvalue.shorter
  have hrest := h.shorter
  refine ⟨by rw [List.length_cons]; omega, fun fuel done hfuel => ?_⟩
  rw [List.length_cons] at hfuel
  obtain ⟨fuel, rfl⟩ : ∃ n, fuel = n + 1 := ⟨fuel - 1, by omega⟩
  rw [readLooseItems?, readUnless?_eq hvalue hends (by omega)]
  dsimp only
  rw [h.reads _ _ (by omega)]
  simp

/-- Items that are not indented, at least one, are the value of an entry. -/
theorem ItemsReadAs.sequence {items : List (Node (List Char))}
    (h : ItemsReadAs handles more items rest) (hvalue : ReadsAs handles false ts v more)
    (hends : isOneOf (.blockEntry :: entryEnds) ts = false) :
    ReadsAs handles true (.blockEntry :: ts) (.sequence .empty (v :: items)) rest := by
  have hmore := hvalue.shorter
  have hrest := h.shorter
  refine ⟨by rw [List.length_cons]; omega, fun fuel hfuel => ?_⟩
  rw [List.length_cons] at hfuel
  obtain ⟨fuel, rfl⟩ : ∃ n, fuel = n + 1 := ⟨fuel - 1, by omega⟩
  have hitems := (h.cons hvalue hends).reads fuel [] (by rw [List.length_cons]; omega)
  simp [readNode?, readProperties?, isOneOf, hitems]

theorem readsAs_brackets :
    ReadsAs handles atEntry (.flowSequenceStart :: .flowSequenceEnd :: rest) (.sequence .empty [])
      rest := by
  refine ⟨by simp only [List.length_cons]; omega, fun fuel hfuel => ?_⟩
  simp only [List.length_cons] at hfuel
  obtain ⟨fuel, rfl⟩ : ∃ n, fuel = n + 1 + 1 := ⟨fuel - 2, by omega⟩
  cases atEntry <;> simp [readNode?, readProperties?, isOneOf, readFlowItems?]

end Fleet.Yaml
