import Fleet.Proofs.Yaml.Place

/-!
# Reading on

The tokens of a written text are found from its end: what is known of a text, read after any other
tokens, says what the text with one more token in front reads as.

## Main definitions

* `Reading.Yields` — the tokens that the rest of a text adds.

## Main statements

* `Reading.Yields.step` — one step, which may end block collections.
* `Reading.yields_nil`, `Reading.Yields.newline` — the ends of a text and of a line.
-/

namespace Fleet.Yaml

variable {c : Char} {cs more : List Char} {i l column : Nat} {p : Place} {ps : List Place}

namespace Reading

variable {s s' : Reading}

/-! ### Space between tokens -/

theorem skipSpace_margin (allowed : Bool) (i l column m : Nat) (cs : List Char)
    (hprint : isPrintable c = true) (hbreak : isBreak c = false) (hspace : c ≠ ' ')
    (hnumber : c ≠ '#') :
    skipSpace false allowed false (layOut i l column (margin m ++ c :: cs)) =
      (layOut (i + m) l (column + m) (c :: cs), allowed) := by
  have hmargin := layOut_margin (skipSpace false allowed false) i l column m (c :: cs)
    fun _ _ _ _ => by simp [skipSpace, isBreak]
  have htab : c ≠ '\t' := by
    rintro rfl
    exact absurd hprint (by decide)
  have hmark : c ≠ byteOrderMark := by
    rintro rfl
    exact absurd hprint (by decide)
  rw [hmargin, layOut_inline hprint hbreak]
  simp [skipSpace, hbreak, hspace, htab, hmark, hnumber]

theorem skipSpace_newline (allowed : Bool) (cs : List Char) :
    skipSpace false allowed false (layOut i l column ('\n' :: cs)) =
      skipSpace false true false (layOut (i + 1) (l + 1) 0 cs) := by
  have hbreak : isBreak '\n' = true := rfl
  rw [layOut_newline, skipSpace, if_pos hbreak]
  cases allowed <;> rfl

theorem skipSpace_nextPlaces {width : Nat} (h : StartsNext width cs) :
    skipSpace false true false (nextPlaces i l cs) =
      skipSpace false true false (layOut i l 0 cs) := by
  cases h with
  | done => rfl
  | @line k c rest hk hc =>
    have hprint := isPrintable_of_startsLine hc
    have hbreak := isBreak_of_startsLine hc
    have hspace : c ≠ ' ' := by
      rintro rfl
      exact absurd hc (by decide)
    have hnumber : c ≠ '#' := by
      rintro rfl
      exact absurd hc (by decide)
    have hzero := skipSpace_margin true (i + k) l k 0 rest hprint hbreak hspace hnumber
    rw [nextPlaces_line hc, skipSpace_margin true _ _ _ k _ hprint hbreak hspace hnumber,
      Nat.zero_add, ← layOut_inline hprint hbreak]
    exact hzero

/-! ### Steps -/

theorem run?_congr (h : s.skip = s'.skip) (fuel : Nat) : s.run? fuel = s'.run? fuel := by
  cases fuel with
  | zero => rfl
  | succ fuel => rw [run?, run?, h]

theorem run?_step {places : List Place} {tokens : List Token} {columns : List Nat}
    {allowed allowed' : Bool} {candidate : Option Candidate} {fuel : Nat}
    (hskip : skipSpace false allowed false places = (p :: ps, allowed')) :
    run? (fuel + 1) ⟨places, tokens, columns, allowed, candidate, []⟩ =
      (step? p ps ⟨p :: ps, tokens, columns, allowed', candidate, []⟩).bind (run? fuel) := by
  have hrest : skip ⟨places, tokens, columns, allowed, candidate, []⟩ =
      ⟨p :: ps, tokens, columns, allowed', candidate, []⟩ := by
    simp only [skip, inFlow, List.isEmpty_nil, Bool.not_true, hskip]
  simp only [run?, hrest]
  split <;> next h => rw [h]; rfl

theorem dropStale?_fresh (hcandidate : s.candidate = none) (houter : s.outer = []) :
    s.dropStale? p = some s := by
  obtain ⟨rest, tokens, columns, allowed, candidate, outer⟩ := s
  cases hcandidate
  cases houter
  rfl

theorem closeBlocks_eq {least : Nat} (closed kept : List Nat) (houter : s.outer = [])
    (hcolumns : s.columns = closed ++ kept) (hclosed : ∀ n ∈ closed, least ≤ n)
    (hkept : ∀ n, kept.head? = some n → n < least) :
    s.closeBlocks least =
      { s with
        columns := kept
        tokens := List.replicate closed.length .blockEnd ++ s.tokens } := by
  have hnone : kept.takeWhile (least ≤ ·) = [] := by
    cases kept with
    | nil => rfl
    | cons n kept => rw [List.takeWhile_cons_of_neg (by simpa using hkept n rfl)]
  have htake : s.columns.takeWhile (least ≤ ·) = closed := by
    rw [hcolumns, List.takeWhile_append_of_pos (by simpa using hclosed), hnone, List.append_nil]
  simp only [closeBlocks, inFlow, houter, List.isEmpty_nil, Bool.not_true, htake]
  simp [hcolumns]

/-! ### What the rest of a text reads as -/

/-- From a column on, the rest of a text is read to its end and adds these tokens to those that were
read before it, with block collections open at these columns; `allowed` tells that a key may start
there. -/
def Yields (allowed : Bool) (column : Nat) (text : List Char) (columns : List Nat)
    (out : List Token) : Prop :=
  ∀ i l fuel tokens, text.length < fuel →
    run? fuel ⟨layOut i l column text, tokens, columns, allowed, none, []⟩ =
      some (tokens.reverse ++ out)

variable {out : List Token} {columns closed kept : List Nat}

/-- The text ends, and with it all collections. -/
theorem yields_nil (allowed : Bool) (column : Nat) (columns : List Nat) :
    Yields allowed column [] columns (List.replicate columns.length .blockEnd) := by
  rintro i l (_ | fuel) tokens hfuel
  · cases hfuel
  · have hclose : closeBlocks 0 ⟨[], tokens, columns, allowed, none, []⟩ =
        ⟨[], List.replicate columns.length .blockEnd ++ tokens, [], allowed, none, []⟩ :=
      closeBlocks_eq columns [] rfl (by simp) (by simp) (by simp)
    simp [run?, layOut, skip, skipSpace, finish?, hclose, dropCandidate?]

/-- The end of a line. -/
theorem Yields.newline (h : Yields true 0 cs columns out) (column : Nat) (allowed : Bool) :
    Yields allowed column ('\n' :: cs) columns out := by
  intro i l fuel tokens hfuel
  rw [List.length_cons] at hfuel
  rw [← h (i + 1) (l + 1) fuel tokens (by omega)]
  refine run?_congr ?_ fuel
  simp only [skip, inFlow, List.isEmpty_nil, Bool.not_true, skipSpace_newline]

/-- A line that starts after the margin was read reads as one that starts before it. -/
theorem Yields.run?_nextPlaces {width fuel : Nat} (tokens : List Token)
    (hmore : StartsNext width more) (h : Yields true 0 more columns out)
    (hfuel : more.length < fuel) :
    run? fuel ⟨nextPlaces i l more, tokens, columns, true, none, []⟩ =
      some (tokens.reverse ++ out) := by
  rw [← h i l fuel tokens hfuel]
  refine run?_congr ?_ fuel
  simp only [skip, inFlow, List.isEmpty_nil, Bool.not_true, skipSpace_nextPlaces hmore]

/-- The next token after a margin. The collections that are indented further end before it. -/
theorem Yields.step {allowed : Bool} {m : Nat} (hprint : isPrintable c = true)
    (hbreak : isBreak c = false) (hspace : c ≠ ' ') (hnumber : c ≠ '#')
    (hcolumns : columns = closed ++ kept) (hclosed : ∀ n ∈ closed, column + m < n)
    (hkept : ∀ n, kept.head? = some n → n ≤ column + m)
    (htoken : ∀ i l places tokens fuel, cs.length < fuel →
      (token? ⟨c, i, l, column + m⟩ (layOut (i + 1) l (column + m + 1) cs)
        ⟨places, tokens, kept, allowed, none, []⟩).bind (run? fuel) =
          some (tokens.reverse ++ out)) :
    Yields allowed column (margin m ++ c :: cs) columns
      (List.replicate closed.length .blockEnd ++ out) := by
  rintro i l fuel tokens hfuel
  simp only [List.length_append, List.length_cons, length_margin] at hfuel
  obtain ⟨fuel, rfl⟩ : ∃ n, fuel = n + 1 := ⟨fuel - 1, by omega⟩
  have hskip := skipSpace_margin allowed i l column m cs hprint hbreak hspace hnumber
  rw [layOut_inline hprint hbreak] at hskip
  rw [run?_step hskip, step?, dropStale?_fresh rfl rfl]
  simp only [Option.bind_eq_bind, Option.bind_some]
  rw [closeBlocks_eq closed kept rfl hcolumns hclosed fun n hn => Nat.lt_succ_of_le (hkept n hn),
    htoken (i + m) l _ _ fuel (by omega)]
  simp

end Reading

end Fleet.Yaml
