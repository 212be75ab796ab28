import Fleet.Proofs.Yaml.Place

/-!
# Plain scalars read back

A text that a plain scalar can hold is read up to its end, whether a colon with a gap after it or
the end of its line follows.

## Main statements

* `readPlain?_text` — reads the text.
* `readPlain?_colon`, `readPlain?_newline` — ends it.
-/

namespace Fleet.Yaml

variable {cs more : List Char} {i l column least : Nat}

/-- What a text that a plain scalar can hold is like. -/
structure PlainText (cs : List Char) : Prop where
  printable : ∀ c ∈ cs, isPrintable c = true
  inline : ∀ c ∈ cs, isBreak c = false
  head : cs.head?.any isBlankSpace = false
  last : endsWith isBlankSpace cs = false
  start : startsOtherwise cs = false
  whole : isBroken cs = false

theorem PlainText.of_allowsPlain (h : allowsPlain cs = true) : PlainText cs := by
  simp only [allowsPlain, isClean, Bool.and_eq_true, Bool.not_eq_true', List.all_eq_true,
    List.any_eq_false, Bool.not_eq_true] at h
  obtain ⟨⟨⟨⟨⟨⟨⟨hprintable, -⟩, hinline⟩, hhead⟩, hlast⟩, hstart⟩, -⟩, hwhole⟩ := h
  exact ⟨hprintable, hinline, hhead, hlast, hstart, hwhole⟩

/-- What starts such a text. -/
theorem PlainText.first {c : Char} (h : PlainText (c :: cs)) : c ≠ ' ' ∧ c ≠ '#' ∧ c ≠ '%' := by
  have hstart := h.start
  rw [startsOtherwise, Bool.or_eq_false_iff] at hstart
  refine ⟨by simpa [isBlankSpace] using h.head, ?_, ?_⟩ <;> rintro rfl <;>
    exact absurd hstart.1 (by decide)

/-- A numeral is such a text. -/
theorem PlainText.of_digits (h : ∀ c ∈ cs, c.isDigit = true) : PlainText cs := by
  have hsign : ∀ sign ∈ [' ', '?', ':', '-', '#'], ∀ c ∈ cs, c ≠ sign := fun sign hsign c hc =>
    (isPrintable_of_isDigit (h c hc)).2.2.2 sign hsign
  refine ⟨fun c hc => (isPrintable_of_isDigit (h c hc)).1,
    fun c hc => (isPrintable_of_isDigit (h c hc)).2.1, ?head, ?last, ?start, ?whole⟩
  case head =>
    cases cs with
    | nil => rfl
    | cons c cs => simpa [isBlankSpace] using hsign ' ' (by simp) c (.head _)
  case last =>
    refine Bool.eq_false_iff.2 fun hlast => ?_
    obtain ⟨c, hc, hspace⟩ := (Option.any_eq_true ..).1 hlast
    exact hsign ' ' (by simp) c (List.mem_of_getLast? hc) (by simpa [isBlankSpace] using hspace)
  case start =>
    cases cs with
    | nil => rfl
    | cons c cs =>
      have hother : ∀ sign ∈ [' ', '?', ':', '-', '#'], c ≠ sign :=
        fun sign hmem => hsign sign hmem c (.head _)
      simp [startsOtherwise, (isPrintable_of_isDigit (h c (.head _))).2.2.1, hother]
  case whole =>
    induction cs with
    | nil => rfl
    | cons c cs ih =>
      cases cs with
      | nil => rfl
      | cons d cs =>
        have hother : ∀ sign ∈ [' ', '?', ':', '-', '#'], d ≠ sign :=
          fun sign hmem => hsign sign hmem d (by simp)
        have hrest := ih (fun c hc => h c (.tail _ hc)) fun sign hmem c hc =>
          hsign sign hmem c (.tail _ hc)
        simp [isBroken, hother, hrest]

/-! ### What comes next -/

theorem atGap_of_gapNext (hprintable : ∀ c ∈ cs, isPrintable c = true) (h : gapNext cs = false) :
    atGap (layOut i l column (cs ++ more)) = false := by
  cases cs with
  | nil => cases h
  | cons c cs =>
    have hgap : isGap c = false := (Bool.or_eq_false_iff.1 h).1
    rw [List.cons_append, layOut_cons (hprintable c (.head _)), atGap]
    exact hgap

/-- A colon in a text does not end it. -/
theorem endsPlain_eq_false {c : Char} (hprintable : ∀ c ∈ cs, isPrintable c = true)
    (h : c = ':' → gapNext cs = false) :
    endsPlain false c (layOut i l column (cs ++ more)) = false := by
  by_cases hc : c = ':'
  · simp [endsPlain, atGap_of_gapNext hprintable (h hc)]
  · simp [endsPlain, hc]

/-! ### One character -/

theorem readPlain?_gap {gap : Gap} {text : List Char} {c : Char} {ps : List Place}
    (hgap : isGap c = true) (htab : c ≠ '\t') :
    readPlain? false least gap text (⟨c, i, l, column⟩ :: ps) =
      readPlain? false least (gap.push c) text ps := by
  rw [readPlain?, if_pos hgap, if_neg (by simp [htab])]

theorem readPlain?_word {gap : Gap} {text : List Char} {p : Place} {ps : List Place}
    (hgap : isGap p.char = false) (hopen : (gap.isOpen && endsGap false least p ps) = false)
    (hends : endsPlain false p.char ps = false) :
    readPlain? false least gap text (p :: ps) =
      readPlain? false least .none (p.char :: (gap.folded ++ text)) ps := by
  have hcolon : badColon false p.char ps = false := rfl
  rw [readPlain?, hopen, hends, hcolon, if_neg (by simp [hgap]), if_neg (by simp),
    if_neg (by simp)]

theorem readPlain?_end {gap : Gap} {text : List Char} {p : Place} {ps : List Place}
    (hgap : isGap p.char = false)
    (hends : (gap.isOpen && endsGap false least p ps || endsPlain false p.char ps) = true) :
    readPlain? false least gap text (p :: ps) = some (text.reverse, p :: ps, gap.hasBreak) := by
  rw [readPlain?, if_neg (by simp [hgap]), if_pos hends]

/-! ### The text -/

/-- Reads on after a character.  There are spaces before the next character if this one is a
space, and then the line has to be indented far enough. -/
theorem readPlain?_rest {prev : Char} (gap : Gap) (text : List Char) (i column : Nat)
    (hprintable : ∀ c ∈ cs, isPrintable c = true) (hinline : ∀ c ∈ cs, isBreak c = false)
    (hwhole : isBroken (prev :: cs) = false) (hlast : endsWith isBlankSpace (prev :: cs) = false)
    (hgap : gap = .none ∨ prev = ' ' ∧ ∃ spaces, gap = .spaces spaces)
    (hcolumn : ' ' ∈ prev :: cs → least ≤ column ∧ 0 < column) :
    readPlain? false least gap text (layOut i l column (cs ++ more)) =
      readPlain? false least .none (cs.reverse ++ (gap.folded ++ text))
        (layOut (i + cs.length) l (column + cs.length) more) := by
  induction cs generalizing prev gap text i column with
  | nil =>
    rcases hgap with rfl | ⟨rfl, -⟩
    · rfl
    · cases hlast
  | cons c cs ih =>
    have hprint := hprintable c (.head _)
    have hbreak := hinline c (.head _)
    have hprintable' : ∀ c ∈ cs, isPrintable c = true := fun x hx => hprintable x (.tail _ hx)
    have hinline' : ∀ c ∈ cs, isBreak c = false := fun x hx => hinline x (.tail _ hx)
    simp only [isBroken, Bool.or_eq_false_iff] at hwhole
    obtain ⟨⟨hcolon, hnumber⟩, hwhole'⟩ := hwhole
    have hlast' : endsWith isBlankSpace (c :: cs) = false := by
      simpa [endsWith, List.getLast?_cons_cons] using hlast
    have hcolumn' : ' ' ∈ c :: cs → least ≤ column + 1 ∧ 0 < column + 1 := fun h => by
      have := hcolumn (.tail _ h)
      omega
    have ih := fun gap text hgap => ih gap text (i + 1) (column + 1) hprintable' hinline' hwhole'
      hlast' hgap hcolumn'
    rw [List.cons_append, layOut_inline hprint hbreak]
    by_cases hspace : c = ' '
    · subst hspace
      obtain ⟨spaces, hpush⟩ : ∃ spaces, gap.push ' ' = .spaces spaces := by
        rcases hgap with rfl | ⟨-, spaces, rfl⟩ <;> exact ⟨_, rfl⟩
      have hfolded : (gap.push ' ').folded = ' ' :: gap.folded := by
        rcases hgap with rfl | ⟨-, spaces, rfl⟩ <;> rfl
      rw [readPlain?_gap rfl (by decide), ih _ _ (.inr ⟨rfl, spaces, hpush⟩), hfolded]
      simp [Nat.add_assoc, Nat.add_comm 1]
    · have hgap' : isGap c = false := isGap_of_isPrintable hprint hspace hbreak
      have hstays : (gap.isOpen && endsGap false least ⟨c, i, l, column⟩
          (layOut (i + 1) l (column + 1) (cs ++ more))) = false := by
        rcases hgap with rfl | ⟨rfl, spaces, rfl⟩
        · rfl
        · obtain ⟨hleast, hpos⟩ := hcolumn (.head _)
          have hsign : c ≠ '#' := by
            rintro rfl
            cases hnumber
          have hboundary : atBoundary (⟨c, i, l, column⟩ ::
              layOut (i + 1) l (column + 1) (cs ++ more)) = false :=
            atBoundary_of_column (by simp; omega)
          simp [endsGap, hsign, hboundary, Nat.not_lt.2 hleast]
      have hends : endsPlain false c (layOut (i + 1) l (column + 1) (cs ++ more)) = false :=
        endsPlain_eq_false hprintable' fun hc => by simpa [hc] using hcolon
      rw [readPlain?_word hgap' hstays hends, ih _ _ (.inl rfl)]
      simp [Gap.folded, Nat.add_assoc, Nat.add_comm 1]

theorem readPlain?_text (h : PlainText cs) (hne : cs ≠ []) (least i l column : Nat)
    (more : List Char) (hcolumn : ' ' ∈ cs → least ≤ column ∧ 0 < column) :
    readPlain? false least .none [] (layOut i l column (cs ++ more)) =
      readPlain? false least .none cs.reverse
        (layOut (i + cs.length) l (column + cs.length) more) := by
  cases cs with
  | nil => exact absurd rfl hne
  | cons c cs =>
    have hprint := h.printable c (.head _)
    have hprintable' : ∀ c ∈ cs, isPrintable c = true := fun x hx => h.printable x (.tail _ hx)
    have hbreak := h.inline c (.head _)
    have hspace : c ≠ ' ' := by simpa [isBlankSpace] using h.head
    have hgap : isGap c = false := isGap_of_isPrintable hprint hspace hbreak
    have hends : endsPlain false c (layOut (i + 1) l (column + 1) (cs ++ more)) = false :=
      endsPlain_eq_false hprintable' fun hc => by
        have hstart := h.start
        simp only [startsOtherwise, hc, Bool.or_eq_false_iff] at hstart
        simpa using hstart.2
    rw [List.cons_append, layOut_inline hprint hbreak, readPlain?_word hgap rfl hends,
      readPlain?_rest _ _ _ _ hprintable' (fun x hx => h.inline x (.tail _ hx)) h.whole h.last
        (.inl rfl)]
    · simp [Gap.folded, Nat.add_assoc, Nat.add_comm 1]
    · intro hmem
      have := hcolumn hmem
      omega

/-! ### Its end -/

theorem readPlain?_colon {text : List Char}
    (h : atGap (layOut (i + 1) l (column + 1) more) = true) :
    readPlain? false least .none text (layOut i l column (':' :: more)) =
      some (text.reverse, layOut i l column (':' :: more), false) := by
  have hgap : isGap ':' = false := by decide
  rw [layOut_inline (by decide) (by decide), readPlain?_end hgap (by simp [endsPlain, h])]
  rfl

/-- After the end of its line, only the margin of the next line is read. -/
theorem readPlain?_newline {text : List Char} (h : StartsNext least more) :
    readPlain? false least .none text (layOut i l column ('\n' :: more)) =
      some (text.reverse, nextPlaces (i + 1) (l + 1) more, true) := by
  have hmargin := fun k cs =>
    layOut_margin (readPlain? false least (.lines (some '\n') []) text) (i + 1) (l + 1) 0 k cs
      fun _ _ _ _ => readPlain?_gap rfl (by decide)
  have hpush : Gap.none.push '\n' = .lines (some '\n') [] := rfl
  rw [layOut_newline, readPlain?_gap rfl (by decide), hpush]
  cases h with
  | done => rfl
  | @line k c rest hk hc =>
    have hgap : isGap c = false := by
      simp [isGap, isSpace_of_startsLine hc, isBreak_of_startsLine hc]
    rw [hmargin, nextPlaces_line hc, Nat.zero_add,
      layOut_inline (isPrintable_of_startsLine hc) (isBreak_of_startsLine hc),
      readPlain?_end hgap (by simp [Gap.isOpen, endsGap, hk])]
    rfl

end Fleet.Yaml
