import Fleet.Proofs.Yaml.Token.Entry

/-!
# The tokens of a sequence

A sequence as the value of a key is written with one dash for each item, at the column of the key,
so that no collection starts with it.  An empty one is a pair of brackets.

## Main statements

* `Reading.Yields.dash` — the dash before an item.
* `Reading.Yields.brackets` — an empty sequence.
-/

namespace Fleet.Yaml.Reading

variable {cs more : List Char} {i l column : Nat} {p : Place} {ps : List Place} {s : Reading}
  {out : List Token} {columns closed kept : List Nat}

/-! ### Items -/

theorem token?_dash (hmark : atMark '-' (⟨'-', i, l, column⟩ :: ps) = false)
    (hgap : atGap ps = true) :
    s.token? ⟨'-', i, l, column⟩ ps = s.blockEntry? ⟨'-', i, l, column⟩ ps := by
  rw [token?, if_neg (by simp), hmark, if_neg (by simp), atMark_eq_false (.inr (by simp)),
    if_neg (by simp)]
  exact if_pos hgap

/-- A dash at the column of an open collection opens no other one. -/
theorem blockEntry?_eq (houter : s.outer = []) (hcandidate : s.candidate = none)
    (hallowed : s.keyAllowed = true) (hopen : s.columns.head? = some p.column) :
    s.blockEntry? p ps =
      some { s with rest := ps, tokens := .blockEntry :: s.tokens, keyAllowed := true } := by
  have hsame := openBlock_eq (s := s) p.column .blockSequenceStart [] s.tokens houter rfl
    (by simp [hopen])
  simp only [hopen, if_pos, List.nil_append] at hsame
  obtain ⟨places, tokens, columns, allowed, candidate, outer⟩ := s
  cases houter
  cases hcandidate
  cases hallowed
  simp only [ blockEntry?, openForSign?, inFlow, List.isEmpty_nil, Bool.not_true, if_pos, hsame,
    Option.bind_eq_bind, dropCandidate?]
  rfl

/-- The dash before an item. It ends the item before it. -/
theorem Yields.dash {m : Nat} (hcolumns : columns = closed ++ kept)
    (hclosed : ∀ n ∈ closed, column + m < n) (hopen : kept.head? = some (column + m))
    (h : Yields true (column + m + 1) (' ' :: cs) kept out) :
    Yields true column (margin m ++ '-' :: ' ' :: cs) columns
      (List.replicate closed.length .blockEnd ++ .blockEntry :: out) := by
  refine Yields.step (by decide) (by decide) (by decide) (by decide) hcolumns hclosed
    (fun n hn => by simp_all) fun i l places tokens fuel hfuel => ?_
  have hmark : ∀ i l column ps,
      atMark '-' (⟨'-', i, l, column⟩ :: layOut (i + 1) l (column + 1) (' ' :: ps)) = false := by
    intro i l column ps
    rw [layOut_space]
    cases layOut (i + 1 + 1) l (column + 1 + 1) ps <;> simp [atMark]
  have hgap : atGap (layOut (i + 1) l (column + m + 1) (' ' :: cs)) = true := by
    rw [layOut_space]
    rfl
  rw [token?_dash (hmark _ _ _ _) hgap,
    blockEntry?_eq (s := ⟨places, tokens, kept, true, none, []⟩) rfl rfl rfl hopen,
    Option.bind_some]
  simpa using h (i + 1) l fuel (.blockEntry :: tokens) hfuel

/-! ### Brackets -/

variable {places : List Place} {tokens : List Token}

theorem token?_openBracket :
    token? ⟨'[', i, l, column⟩ ps ⟨places, tokens, columns, false, none, []⟩ =
      some ⟨ps, .flowSequenceStart :: tokens, columns, true, none, [none]⟩ := by
  rw [token?, token?_noMark (by simp)]
  rfl

theorem token?_closeBracket :
    token? ⟨']', i, l, column⟩ ps ⟨places, tokens, columns, true, none, [none]⟩ =
      some ⟨ps, .flowSequenceEnd :: tokens, columns, false, none, []⟩ := by
  rw [token?, token?_noMark (by simp)]
  rfl

/-- Inside of brackets no block collection ends. -/
theorem run?_closeBracket (hcolumn : column ≠ 0) (fuel : Nat) :
    run? (fuel + 1) ⟨⟨']', i, l, column⟩ :: ps, tokens, columns, true, none, [none]⟩ =
      run? fuel ⟨ps, .flowSequenceEnd :: tokens, columns, false, none, []⟩ := by
  have hskip : skipSpace true true false (⟨']', i, l, column⟩ :: ps) =
      (⟨']', i, l, column⟩ :: ps, true) := by
    simp [skipSpace, isBreak, hcolumn]
  have hstep : step? ⟨']', i, l, column⟩ ps
        ⟨⟨']', i, l, column⟩ :: ps, tokens, columns, true, none, [none]⟩ =
      token? ⟨']', i, l, column⟩ ps
        ⟨⟨']', i, l, column⟩ :: ps, tokens, columns, true, none, [none]⟩ := rfl
  simp only [run?, skip, inFlow, List.isEmpty_cons, Bool.not_false, hskip, hstep,
    token?_closeBracket]

/-- An empty sequence, which ends its line. -/
theorem Yields.brackets {n : Nat} {outer : List Nat} (hcolumn : n ≤ column)
    (h : Yields true 0 more (n :: outer) out) :
    Yields false column (' ' :: '[' :: ']' :: '\n' :: more) (n :: outer)
      (.flowSequenceStart :: .flowSequenceEnd :: out) := by
  refine Yields.value (by decide) (by decide) (by decide) (by decide) hcolumn
    fun i l places tokens fuel hfuel => ?_
  simp only [List.length_cons] at hfuel
  obtain ⟨fuel, rfl⟩ : ∃ n, fuel = n + 1 := ⟨fuel - 1, by omega⟩
  rw [token?_openBracket, Option.bind_some, layOut_inline (by decide) (by decide),
    run?_closeBracket (by omega)]
  simpa using h.newline _ false (i + 1 + 1) l fuel
    (.flowSequenceEnd :: .flowSequenceStart :: tokens) (by rw [List.length_cons]; omega)

end Fleet.Yaml.Reading
