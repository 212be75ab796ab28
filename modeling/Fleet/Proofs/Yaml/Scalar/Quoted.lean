import Fleet.Proofs.Yaml.Place

/-!
# Quoted scalars read back

Between double quotation marks a character stands for itself or is read back from its escape, and
nothing is folded since no line ends there.  Between single ones a line may end, but in no other
place than where the text itself has a line or paragraph separator, which folding keeps.

## Main statements

* `readQuoted?_writeDouble`, `readQuoted?_writeSingle` — what is written reads back.
-/

namespace Fleet.Yaml

variable {c : Char} {cs more text : List Char} {i l column : Nat} {gap : Gap} {double : Bool}
  {ps : List Place}

/-! ### One character -/

theorem readQuoted?_gap (hboundary : atBoundary (⟨c, i, l, column⟩ :: ps) = false)
    (hgap : isGap c = true) :
    readQuoted? double (.text gap) text (⟨c, i, l, column⟩ :: ps) =
      readQuoted? double (.text (gap.push c)) text ps := by
  rw [readQuoted?, hboundary, if_neg (by simp), if_pos hgap]

/-- A character that stands for itself. -/
theorem readQuoted?_word (hcolumn : column ≠ 0) (hgap : isGap c = false)
    (hsign : c ∉ if double then ['"', '\\'] else ['\'']) :
    readQuoted? double (.text gap) text (⟨c, i, l, column⟩ :: ps) =
      readQuoted? double (.text .none) (c :: (gap.folded ++ text)) ps := by
  rw [readQuoted?, atBoundary_of_column hcolumn, if_neg (by simp), if_neg (by simp [hgap])]
  cases double with
  | false => simp_all
  | true => simp_all

/-! ### Between double quotation marks -/

theorem readQuoted?_backslash (hcolumn : column ≠ 0) :
    readQuoted? true (.text gap) text (layOut i l column ('\\' :: cs)) =
      readQuoted? true .backslash (gap.folded ++ text) (layOut (i + 1) l (column + 1) cs) := by
  have hgap : isGap '\\' = false := by decide
  rw [layOut_inline (by decide) (by decide), readQuoted?, atBoundary_of_column hcolumn,
    if_neg (by simp), if_neg (by simp [hgap])]
  rfl

theorem isPrintable_of_digit {d : Nat} (h : Digit.value? 16 c = some d) :
    isPrintable c = true ∧ isBreak c = false := by
  have hbounds : 48 ≤ c.toNat ∧ c.toNat ≤ 122 := by
    have hle : ∀ a b : Char, a ≤ b ↔ a.toNat ≤ b.toNat := fun _ _ => Iff.rfl
    simp only [Digit.value?, hle, Char.reduceToNat] at h
    by_cases hdigit : 48 ≤ c.toNat ∧ c.toNat ≤ 57
    · omega
    by_cases hlower : 97 ≤ c.toNat ∧ c.toNat ≤ 122
    · omega
    by_cases hupper : 65 ≤ c.toNat ∧ c.toNat ≤ 90
    · omega
    rw [if_neg hdigit, if_neg hlower, if_neg hupper, if_neg (by omega)] at h
    cases h
  constructor
  · simp only [isPrintable, Bool.or_eq_true, Bool.and_eq_true, decide_eq_true_eq, beq_iff_eq]
    omega
  · refine Bool.eq_false_iff.2 fun hbreak => ?_
    simp only [isBreak, Bool.or_eq_true, beq_iff_eq] at hbreak
    rcases hbreak with (((rfl | rfl) | rfl) | rfl) | rfl <;> revert hbounds <;> decide

/-- A run of digits reads as the character with their number. -/
theorem readQuoted?_code {ds : List Char} {left value n : Nat} (hlength : ds.length = left)
    (hne : ds ≠ [])
    (hn : ds.foldlM (fun n c => (Digit.value? 16 c).map (16 * n + ·)) value = some n)
    (hc : ofCode? n = some c) :
    readQuoted? double (.code left value) text (layOut i l column (ds ++ more)) =
      readQuoted? double (.text .none) (c :: text) (layOut (i + left) l (column + left) more) := by
  subst hlength
  induction ds generalizing value i column with
  | nil => exact absurd rfl hne
  | cons d ds ih =>
    rw [List.foldlM_cons] at hn
    cases hd : Digit.value? 16 d with
    | none => simp [hd] at hn
    | some v =>
      obtain ⟨hprint, hbreak⟩ := isPrintable_of_digit hd
      simp only [hd, Option.map_some, Option.bind_eq_bind, Option.bind_some] at hn
      rw [List.cons_append, layOut_inline hprint hbreak, readQuoted?]
      simp only [hd]
      cases ds with
      | nil =>
        obtain rfl : 16 * value + v = n := by simpa using hn
        simp [hc]
      | cons e ds =>
        rw [if_pos (by simp), List.length_cons, Nat.add_sub_cancel, ih (by simp) hn]
        simp [Nat.add_assoc, Nat.add_comm 1]

theorem readQuoted?_codeEscape (c : Char) :
    readQuoted? true .backslash text (layOut i l column (codeEscape c ++ more)) =
      readQuoted? true (.text .none) (c :: text)
        (layOut (i + (codeEscape c).length) l (column + (codeEscape c).length) more) := by
  have hvalid : ofCode? c.toNat = some c := by
    have hcode : c.toNat.isValidChar := c.valid
    rw [ofCode?, if_pos hcode, Char.ofNat_toNat]
  have hescape : ∀ (letter : Char) (width : Nat), isPrintable letter = true →
      isBreak letter = false → escaped? letter = none → codeLength? letter = some width →
      width ≠ 0 → c.toNat < 16 ^ width →
      readQuoted? true .backslash text
          (layOut i l column (letter :: Digit.hexadecimal Digit.upper width c.toNat ++ more)) =
        readQuoted? true (.text .none) (c :: text)
          (layOut (i + (width + 1)) l (column + (width + 1)) more) := by
    intro letter width hprint hbreak hescaped hlength hwidth hlt
    have hnumber := Digit.number?_hexadecimal Digit.value?_upper width c.toNat
    have hcount := Digit.length_hexadecimal Digit.upper width c.toNat
    have hne : Digit.hexadecimal Digit.upper width c.toNat ≠ [] := by
      intro hnil
      simp [hnil] at hcount
      omega
    have hmod : c.toNat % Nat.pow 16 width = c.toNat := Nat.mod_eq_of_lt hlt
    rw [hmod] at hnumber
    rw [List.cons_append, layOut_inline hprint hbreak, readQuoted?, if_neg (by simp [hbreak])]
    simp only [hescaped, hlength]
    rw [readQuoted?_code hcount hne hnumber hvalid, Nat.add_assoc, Nat.add_assoc, Nat.add_comm 1]
  rw [codeEscape]
  split
  · next h => simpa [Digit.length_hexadecimal] using hescape 'x' 2 rfl rfl rfl rfl (by simp) h
  · split
    · next h => simpa [Digit.length_hexadecimal] using hescape 'u' 4 rfl rfl rfl rfl (by simp) h
    · have hlt : c.toNat < 16 ^ 8 := Nat.lt_of_lt_of_le c.val.toNat_lt (by simp)
      simpa [Digit.length_hexadecimal] using hescape 'U' 8 rfl rfl rfl rfl (by simp) hlt

/-- Every escape reads back. -/
theorem readQuoted?_escapeOf (c : Char) :
    readQuoted? true .backslash text (layOut i l column (escapeOf c ++ more)) =
      readQuoted? true (.text .none) (c :: text)
        (layOut (i + (escapeOf c).length) l (column + (escapeOf c).length) more) := by
  rw [escapeOf.eq_def]
  split
  all_goals first
    | exact readQuoted?_codeEscape _
    | rfl

/-- A text reads back from between double quotation marks. -/
theorem readQuoted?_writeDouble (cs more : List Char) (text : List Char) (i l : Nat)
    (hgap : gap.hasBreak = false) (hcolumn : column ≠ 0) :
    ∃ i' column', readQuoted? true (.text gap) text
        (layOut i l column (cs.flatMap writeEscaped ++ '"' :: more)) =
      some ((cs.reverse ++ (gap.folded ++ text)).reverse, layOut i' l column' more) := by
  induction cs generalizing gap text i column with
  | nil =>
    have hgap' : isGap '"' = false := by decide
    refine ⟨i + 1, column + 1, ?_⟩
    rw [List.flatMap_nil, List.nil_append, layOut_inline (by decide) (by decide), readQuoted?,
      atBoundary_of_column hcolumn, if_neg (by simp), if_neg (by simp [hgap'])]
    rfl
  | cons c cs ih =>
    rw [List.flatMap_cons, List.append_assoc, writeEscaped]
    split
    · have hcolumn' : column + 1 + (escapeOf c).length ≠ 0 := by omega
      obtain ⟨i', column', hread⟩ := ih (c :: (gap.folded ++ text)) (i + 1 + (escapeOf c).length)
        (rfl : Gap.none.hasBreak = false) hcolumn'
      refine ⟨i', column', ?_⟩
      rw [List.cons_append, readQuoted?_backslash hcolumn, readQuoted?_escapeOf, hread]
      simp [Gap.folded]
    · next h =>
      simp only [Bool.not_eq_true, Bool.or_eq_false_iff, Bool.not_eq_false',
        beq_eq_false_iff_ne] at h
      obtain ⟨⟨⟨hprint, hbreak⟩, hquote⟩, hslash⟩ := h
      rw [List.singleton_append, layOut_inline hprint hbreak]
      by_cases hspace : c = ' '
      · subst hspace
        obtain ⟨hpush, hfolded⟩ := Gap.push_space hgap
        obtain ⟨i', column', hread⟩ := ih text (i + 1) hpush (Nat.succ_ne_zero column)
        refine ⟨i', column', ?_⟩
        rw [readQuoted?_gap (atBoundary_of_column hcolumn) rfl, hread, hfolded]
        simp
      · have hgap' := isGap_of_isPrintable hprint hspace hbreak
        obtain ⟨i', column', hread⟩ := ih (c :: (gap.folded ++ text)) (i + 1)
          (rfl : Gap.none.hasBreak = false) (Nat.succ_ne_zero column)
        refine ⟨i', column', ?_⟩
        rw [readQuoted?_word hcolumn hgap' (by simp [hquote, hslash]), hread]
        simp [Gap.folded]

/-! ### Between single quotation marks -/

/-- Where the reader is after a character: in a line, after spaces or not, or after line breaks that
are kept. -/
inductive SingleState (prev : Char) : Bool → Gap → Nat → Prop
  | word {column : Nat} (hcolumn : column ≠ 0) : SingleState prev false .none column
  | space {column : Nat} {spaces : List Char} (hprev : prev = ' ') (hcolumn : column ≠ 0) :
      SingleState prev false (.spaces spaces) column
  | line {first : Char} {more : List Char} (hprev : isBreak prev = true) (hfirst : first ≠ '\n') :
      SingleState prev true (.lines (some first) more) 0

/-- The margin of a line stands for nothing. -/
theorem readQuoted?_margin {first : Option Char} {breaks : List Char} (n : Nat) :
    readQuoted? false (.text (.lines first breaks)) text (layOut i l column (margin n ++ cs)) =
      readQuoted? false (.text (.lines first breaks)) text
        (layOut (i + n) l (column + n) cs) :=
  layOut_margin (readQuoted? false (.text (.lines first breaks)) text) i l column n cs
    fun _ _ _ _ => readQuoted?_gap (atBoundary_of_char (by simp) (by simp)) rfl

/-- Before a word, the margin of its line is read if it starts one. -/
theorem SingleState.readQuoted?_margin {prev : Char} {broken : Bool}
    (h : SingleState prev broken gap column) {n : Nat} (hn : n ≠ 0) (text cs : List Char)
    (i l : Nat) :
    ∃ i' column', column' ≠ 0 ∧ readQuoted? false (.text gap) text
        (layOut i l column ((if broken then margin n else []) ++ cs)) =
      readQuoted? false (.text gap) text (layOut i' l column' cs) := by
  cases h with
  | word hcolumn | space _ hcolumn => exact ⟨i, column, hcolumn, rfl⟩
  | line =>
    exact ⟨i + n, 0 + n, by omega, Yaml.readQuoted?_margin n⟩

/-- A quotation mark is read back from two of them. -/
theorem readQuoted?_quote (hcolumn : column ≠ 0) :
    readQuoted? false (.text gap) text (layOut i l column ('\'' :: cs)) =
      readQuoted? false .quote (gap.folded ++ text) (layOut (i + 1) l (column + 1) cs) := by
  have hgap : isGap '\'' = false := by decide
  rw [layOut_inline (by decide) (by decide), readQuoted?, atBoundary_of_column hcolumn,
    if_neg (by simp), if_neg (by simp [hgap])]
  rfl

/-- A character that is no gap reads back from what is written for it between single quotation
marks. -/
theorem readQuoted?_single (gap : Gap) (text cs : List Char) (i l : Nat) (hcolumn : column ≠ 0)
    (hprint : isPrintable c = true) (hbreak : isBreak c = false) (hspace : c ≠ ' ') :
    ∃ i' column', column' ≠ 0 ∧ readQuoted? false (.text gap) text
        (layOut i l column ((if c == '\'' then ['\'', '\''] else [c]) ++ cs)) =
      readQuoted? false (.text .none) (c :: (gap.folded ++ text)) (layOut i' l column' cs) := by
  by_cases hquote : c = '\''
  · subst hquote
    refine ⟨i + 2, column + 2, by omega, ?_⟩
    have htwice : (if ('\'' == '\'') = true then ['\'', '\''] else ['\'']) = ['\'', '\''] := rfl
    rw [htwice, List.cons_append, List.singleton_append, readQuoted?_quote hcolumn,
      layOut_inline hprint hbreak, readQuoted?]
    rfl
  · refine ⟨i + 1, column + 1, by omega, ?_⟩
    rw [if_neg (by simpa using hquote), List.singleton_append, layOut_inline hprint hbreak,
      readQuoted?_word hcolumn (isGap_of_isPrintable hprint hspace hbreak) (by simpa using hquote)]

/-- The end of a line that is kept, with no space before it. -/
theorem SingleState.push_break {prev : Char} {broken : Bool}
    (h : SingleState prev broken gap column) (hbreak : isBreak c = true) (hline : c ≠ '\n')
    (hbefore : prev ≠ ' ') :
    SingleState c true (gap.push c) 0 ∧ (gap.push c).folded = c :: gap.folded := by
  cases h with
  | word =>
    have hnone : Gap.none.push c = .lines (some c) [] := by simp [Gap.push, hbreak]
    rw [hnone]
    exact ⟨.line hbreak hline, by simp [Gap.folded, hline]⟩
  | space hprev => exact absurd hprev hbefore
  | @line first breaks _ hfirst =>
    have hlines : (Gap.lines (some first) breaks).push c = .lines (some first) (c :: breaks) :=
      if_pos hbreak
    rw [hlines]
    exact ⟨.line hbreak hfirst, by simp [Gap.folded, hfirst]⟩

/-- A space, with no end of a line before it. -/
theorem SingleState.push_space {prev : Char} {broken : Bool}
    (h : SingleState prev broken gap column) (hafter : isBreak prev = false) :
    broken = false ∧ column ≠ 0 ∧ SingleState ' ' false (gap.push ' ') (column + 1) ∧
      (gap.push ' ').folded = ' ' :: gap.folded := by
  cases h with
  | word hcolumn | space _ hcolumn => exact ⟨rfl, hcolumn, .space rfl (Nat.succ_ne_zero _), rfl⟩
  | line hprev =>
    rw [hprev] at hafter
    cases hafter

/-- A text reads back from between single quotation marks, where no space stands beside the end of
a line. -/
theorem readQuoted?_writeSingle {prev : Char} {broken : Bool} {indent : Nat} (hindent : indent ≠ 0)
    (text more : List Char) (i l : Nat) (hstate : SingleState prev broken gap column)
    (hprintable : ∀ c ∈ cs, isPrintable c = true) (hinline : '\n' ∉ cs)
    (hbefore : hasNeighbours isBlankSpace isBreak (prev :: cs) = false)
    (hafter : hasNeighbours isBreak isBlankSpace (prev :: cs) = false) :
    ∃ i' l' column', readQuoted? false (.text gap) text
        (layOut i l column (writeSingle indent broken cs ++ '\n' :: more)) =
      some ((cs.reverse ++ (gap.folded ++ text)).reverse, layOut i' l' column' ('\n' :: more)) := by
  induction cs generalizing prev broken gap text i l column with
  | nil =>
    obtain ⟨i', column', hcolumn, hmargin⟩ :=
      hstate.readQuoted?_margin hindent text ('\'' :: '\n' :: more) i l
    refine ⟨i' + 1, l, column' + 1, ?_⟩
    rw [writeSingle, List.append_assoc, List.singleton_append, hmargin, readQuoted?_quote hcolumn,
      layOut_newline, readQuoted?, if_neg (by simp)]
    rfl
  | cons c cs ih =>
    have hprint := hprintable c (.head _)
    simp only [hasNeighbours, Bool.or_eq_false_iff] at hbefore hafter
    obtain ⟨hbefore, hbefore'⟩ := hbefore
    obtain ⟨hafter, hafter'⟩ := hafter
    have ih := fun broken gap text i l column (hstate : SingleState c broken gap column) =>
      ih text i l hstate (fun x hx => hprintable x (.tail _ hx)) (fun h => hinline (.tail _ h))
        hbefore' hafter'
    rw [writeSingle]
    split
    · next hbreak =>
      have hline : c ≠ '\n' := fun h => hinline (h ▸ .head _)
      have hboundary : ∀ ps, atBoundary (⟨c, i, l, column⟩ :: ps) = false := by
        refine fun ps => atBoundary_of_char ?_ ?_ <;> rintro rfl <;> revert hbreak <;> decide
      obtain ⟨hstate', hfolded⟩ := hstate.push_break hbreak hline
        (by simpa [isBlankSpace, hbreak] using hbefore)
      obtain ⟨i', l', column', hread⟩ := ih true (gap.push c) text (i + 1) (l + 1) 0 hstate'
      refine ⟨i', l', column', ?_⟩
      rw [if_neg (by simp [hline]), List.singleton_append, List.cons_append,
        layOut_break hprint hbreak, readQuoted?_gap (hboundary _) (by simp [isGap, hbreak]), hread,
        hfolded]
      simp
    · next hbreak =>
      rw [Bool.not_eq_true] at hbreak
      split
      · next hspace =>
        obtain rfl : c = ' ' := by simpa using hspace
        obtain ⟨hbroken, hcolumn, hstate', hfolded⟩ := hstate.push_space
          (by simpa [isBlankSpace] using hafter)
        obtain ⟨i', l', column', hread⟩ := ih false (gap.push ' ') text (i + 1) l (column + 1)
          hstate'
        refine ⟨i', l', column', ?_⟩
        rw [hbroken, List.cons_append, layOut_space,
          readQuoted?_gap (atBoundary_of_column hcolumn) rfl, hread, hfolded]
        simp
      · next hspace =>
        have hword : c ≠ ' ' := by simpa using hspace
        obtain ⟨i₁, column₁, hcolumn₁, hmargin⟩ := hstate.readQuoted?_margin hindent text
          ((if c == '\'' then ['\'', '\''] else [c]) ++
            (writeSingle indent false cs ++ '\n' :: more)) i l
        obtain ⟨i₂, column₂, hcolumn₂, hsingle⟩ := readQuoted?_single gap text
          (writeSingle indent false cs ++ '\n' :: more) i₁ l hcolumn₁ hprint hbreak hword
        obtain ⟨i', l', column', hread⟩ := ih false .none (c :: (gap.folded ++ text)) i₂ l column₂
          (.word hcolumn₂)
        refine ⟨i', l', column', ?_⟩
        rw [List.append_assoc, List.append_assoc, hmargin, hsingle, hread]
        simp [Gap.folded]

end Fleet.Yaml
