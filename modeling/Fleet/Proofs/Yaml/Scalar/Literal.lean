import Fleet.Proofs.Yaml.Place

/-!
# Literal blocks read back

The header of a literal block says how far its lines are indented where the first line does not show
it, and what becomes of the line breaks at the end.

## Main definitions

* `BlockText.Holds` — what has been read of a block is a given text.

## Main statements

* `readHeader?_signs` — the header reads back.
* `readBlock?_writeLines` — the lines read back.
-/

namespace Fleet.Yaml

variable {c : Char} {cs more : List Char} {i l column least : Nat} {b : BlockText}
  {chomping : Chomping}

/-! ### The header -/

/-- What the sign at the end of a header says. -/
def chompingOf (cs : List Char) : Chomping :=
  match cs.reverse with
  | [] => .strip
  | [c] => if isBreak c then .keep else .strip
  | c :: d :: _ => if !isBreak c then .strip else if isBreak d then .keep else .clip

/-- The sign for how far the lines are indented is needed. -/
def needsIndent : List Char → Bool
  | [] => false
  | c :: _ => c == ' ' || isBreak c

theorem readHeader?_signs (cs more : List Char) (i l column : Nat) :
    ∃ i', readHeader? (layOut i l column (indentSign cs ++ chompSign cs ++ '\n' :: more)) =
      some (chompingOf cs, if needsIndent cs then some indentStep else none,
        layOut i' (l + 1) 0 more) := by
  have hdigits : Decimal.digits indentStep = ['2'] := by
    rw [Decimal.digits]
    rfl
  have hindent : indentSign cs = if needsIndent cs then ['2'] else [] := by
    cases cs with
    | nil => rfl
    | cons c cs => rw [indentSign, needsIndent, hdigits]
  have hchomp : chompSign cs = match chompingOf cs with
      | .strip => ['-']
      | .keep => ['+']
      | .clip => [] := by
    rw [chompSign, chompingOf]
    rcases cs.reverse with _ | ⟨c, _ | ⟨d, rest⟩⟩
    · rfl
    · cases hc : isBreak c <;> simp [hc]
    · cases hc : isBreak c <;> cases hd : isBreak d <;> simp [hc, hd]
  rw [hindent, hchomp]
  cases needsIndent cs <;> cases chompingOf cs <;> exact ⟨_, rfl⟩

/-! ### The lines -/

/-- What has been read of a block, after the end of a line if `broken`, is a text; its last
character comes first. -/
structure BlockText.Holds (b : BlockText) (broken : Bool) (text : List Char) : Prop where
  whole : b.blank ++ (b.ending ++ b.text) = text
  /-- In a line no break waits. -/
  line : broken = false → b.blank = [] ∧ b.ending = []
  last : broken = true → text.head?.all isBreak = true
  /-- The end of a line with text is no empty line. -/
  single : ∀ c d rest, text = c :: d :: rest → isBreak d = false → b.blank = []

namespace BlockText.Holds

variable {text : List Char}

theorem push (h : b.Holds false text) : { b with text := c :: b.text }.Holds false (c :: text) := by
  obtain ⟨hblank, hending⟩ := h.line rfl
  have hwhole := h.whole
  refine ⟨?_, fun _ => ⟨hblank, hending⟩, by simp, fun _ _ _ _ _ => hblank⟩
  simpa [hblank, hending] using hwhole

theorem lineEnd (h : b.Holds false text) (hbreak : isBreak c = true) :
    { b with ending := [c] }.Holds true (c :: text) := by
  obtain ⟨hblank, hending⟩ := h.line rfl
  have hwhole := h.whole
  refine ⟨?_, by simp, fun _ => by simp [hbreak], fun _ _ _ _ _ => hblank⟩
  simpa [hblank, hending] using hwhole

theorem emptyLine (h : b.Holds true text) (hbreak : isBreak c = true) :
    { b with blank := c :: b.blank }.Holds true (c :: text) := by
  refine ⟨congrArg (c :: ·) h.whole, by simp, fun _ => by simp [hbreak], ?_⟩
  rintro c' d rest heq hd
  obtain ⟨-, rfl⟩ : c = c' ∧ text = d :: rest := by simpa using heq
  have hlast : isBreak d = true := by simpa using h.last rfl
  rw [hlast] at hd
  cases hd

theorem startLine (h : b.Holds true text) : (b.startLine true c).Holds false (c :: text) := by
  refine ⟨?_, fun _ => ⟨rfl, rfl⟩, by simp, fun _ _ _ _ _ => rfl⟩
  exact congrArg (c :: ·) h.whole

end BlockText.Holds

/-- Where the reader is, after the end of a line if `broken`. -/
inductive BlockState.Fits : BlockState → Bool → Nat → Prop
  | margin {widest : Nat} : (BlockState.margin widest).Fits true 0
  | line {column : Nat} : BlockState.line.Fits false column

theorem readBlock?_text {indent : Option Nat} {ps : List Place} (hbreak : isBreak c = false) :
    readBlock? true chomping least indent .line b (⟨c, i, l, column⟩ :: ps) =
      readBlock? true chomping least indent .line { b with text := c :: b.text } ps := by
  rw [readBlock?, if_neg (by simp [hbreak])]

theorem readBlock?_lineEnd {indent : Option Nat} {ps : List Place} (hbreak : isBreak c = true) :
    readBlock? true chomping least indent .line b (⟨c, i, l, column⟩ :: ps) =
      readBlock? true chomping least indent (.margin 0) { b with ending := [c] } ps := by
  rw [readBlock?, if_pos hbreak]

theorem readBlock?_emptyLine {indent : Option Nat} {widest : Nat} {ps : List Place}
    (hbreak : isBreak c = true) :
    readBlock? true chomping least indent (.margin widest) b (⟨c, i, l, column⟩ :: ps) =
      readBlock? true chomping least indent (.margin (max widest column))
        { b with blank := c :: b.blank } ps := by
  have hspace : c ≠ ' ' := by rintro rfl; cases hbreak
  have htab : c ≠ '\t' := by rintro rfl; cases hbreak
  rw [readBlock?, if_neg (by simp [hspace]), if_neg (by simp [htab]), if_pos hbreak]

/-- A line that is indented as far as it has to be starts with whatever comes next. -/
theorem readBlock?_start {indent widest : Nat} {ps : List Place} (hbreak : isBreak c = false) :
    readBlock? true chomping least (some indent) (.margin widest) b (⟨c, i, l, indent⟩ :: ps) =
      readBlock? true chomping least (some indent) .line (b.startLine true c) ps := by
  rw [readBlock?, if_neg (by simp), if_neg (by simp), if_neg (by simp [hbreak])]
  exact if_pos rfl

/-- A line that is indented less ends the block. -/
theorem readBlock?_stop {indent widest : Nat} {ps : List Place} (hspace : isSpace c = false)
    (hbreak : isBreak c = false) (h : column ≠ indent) :
    readBlock? true chomping least (some indent) (.margin widest) b (⟨c, i, l, column⟩ :: ps) =
      some (b.finish chomping, ⟨c, i, l, column⟩ :: ps) := by
  simp only [isSpace, Bool.or_eq_false_iff, beq_eq_false_iff_ne] at hspace
  rw [readBlock?, if_neg (by simp [hspace.1]), if_neg (by simp [hspace.2]),
    if_neg (by simp [hbreak])]
  exact if_neg h

theorem readBlock?_margin {indent : Option Nat} {widest : Nat} (n : Nat)
    (h : ∀ k, indent = some k → column + n ≤ k) :
    readBlock? true chomping least indent (.margin widest) b
        (layOut i l column (margin n ++ cs)) =
      readBlock? true chomping least indent (.margin widest) b
        (layOut (i + n) l (column + n) cs) := by
  refine layOut_margin (readBlock? true chomping least indent (.margin widest) b) i l column n cs
    fun i j ps hj => ?_
  have hin : indent.all (j < ·) = true := by
    cases indent with
    | none => rfl
    | some k =>
      have hk := h k rfl
      simp
      omega
  rw [readBlock?, if_pos (by simp [hin])]

/-- A text ends with a line break; an empty one if it stands after one. -/
def endsBroken (broken : Bool) (cs : List Char) : Bool := cs.foldl (fun _ c => isBreak c) broken

theorem endsBroken_eq_endsWith (broken : Bool) (hne : cs ≠ []) :
    endsBroken broken cs = endsWith isBreak cs := by
  rw [← List.dropLast_concat_getLast hne, endsBroken, List.foldl_append, endsWith,
    List.getLast?_append]
  rfl

/-- The lines of a block whose indentation is known read back. -/
theorem readBlock?_writeLines (chomping : Chomping) (least indent : Nat) (more : List Char)
    {state : BlockState} {broken : Bool} {text : List Char} (i l : Nat)
    (hprintable : ∀ c ∈ cs, isPrintable c = true) (hstate : state.Fits broken column)
    (hholds : b.Holds broken text) :
    ∃ state' b' i' l' column', BlockState.Fits state' (endsBroken broken cs) column' ∧
      BlockText.Holds b' (endsBroken broken cs) (cs.reverse ++ text) ∧
      readBlock? true chomping least (some indent) state b
          (layOut i l column (writeLines indent broken cs ++ more)) =
        readBlock? true chomping least (some indent) state' b' (layOut i' l' column' more) := by
  induction cs generalizing state b broken text i l column with
  | nil => exact ⟨state, b, i, l, column, hstate, hholds, rfl⟩
  | cons c cs ih =>
    have hprint := hprintable c (.head _)
    have ih := fun state b column (hstate : BlockState.Fits state (isBreak c) column)
        (hholds : BlockText.Holds b (isBreak c) (c :: text)) i l =>
      ih i l (fun x hx => hprintable x (.tail _ hx)) hstate hholds
    have htext : (c :: cs).reverse ++ text = cs.reverse ++ c :: text := by simp
    have hends : endsBroken broken (c :: cs) = endsBroken (isBreak c) cs := rfl
    rw [htext, hends, writeLines]
    split
    · next hbreak =>
      rw [hbreak] at ih ⊢
      rw [List.cons_append, layOut_break hprint hbreak]
      cases hstate with
      | line =>
        rw [readBlock?_lineEnd hbreak]
        exact ih _ _ _ .margin (hholds.lineEnd hbreak) _ _
      | margin =>
        rw [readBlock?_emptyLine hbreak]
        exact ih _ _ _ .margin (hholds.emptyLine hbreak) _ _
    · next hbreak =>
      rw [Bool.not_eq_true] at hbreak
      rw [hbreak] at ih ⊢
      cases hstate with
      | line =>
        rw [if_neg (by simp), List.nil_append, List.cons_append, layOut_inline hprint hbreak,
          readBlock?_text hbreak]
        exact ih _ _ _ .line hholds.push _ _
      | margin =>
        rw [if_pos rfl, List.append_assoc, List.cons_append, readBlock?_margin indent (by simp),
          Nat.zero_add, layOut_inline hprint hbreak, readBlock?_start hbreak]
        exact ih _ _ _ .line hholds.startLine _ _

/-- The first line with text shows how far the lines of a block are indented. -/
theorem readBlock?_first {indent : Nat} (hleast : least ≤ indent) (hprint : isPrintable c = true)
    (hbreak : isBreak c = false) (hspace : c ≠ ' ') :
    readBlock? true chomping least none (.margin 0) .empty
        (layOut i l 0 (margin indent ++ c :: cs)) =
      readBlock? true chomping least (some indent) .line (BlockText.empty.startLine true c)
        (layOut (i + indent + 1) l (indent + 1) cs) := by
  have htab : c ≠ '\t' := by
    rintro rfl
    exact absurd hprint (by decide)
  have hfound : indent = none.getD (max (max 0 indent) least) := by simp; omega
  rw [readBlock?_margin indent (by simp), Nat.zero_add, layOut_inline hprint hbreak, readBlock?,
    if_neg (by simp [hspace]), if_neg (by simp [htab]), if_neg (by simp [hbreak]), ← hfound]
  exact if_pos rfl

/-- A block ends where a line is indented less. -/
theorem readBlock?_end {indent width widest : Nat} (h : StartsNext width cs)
    (hwidth : width ≤ indent) :
    readBlock? true chomping least (some indent) (.margin widest) b (layOut i l 0 cs) =
      some (b.finish chomping, nextPlaces i l cs) := by
  cases h with
  | done => rfl
  | @line k c rest hk hc =>
    rw [readBlock?_margin k (by simp; omega), nextPlaces_line hc, Nat.zero_add,
      layOut_inline (isPrintable_of_startsLine hc) (isBreak_of_startsLine hc),
      readBlock?_stop (isSpace_of_startsLine hc) (isBreak_of_startsLine hc) (by omega)]

/-! ### The text -/

theorem endsWith_eq_head? {kind : Char → Bool} : endsWith kind cs = cs.reverse.head?.any kind := by
  rw [endsWith, List.head?_reverse]

/-- A text that does not end with a line break is stripped of the one that is written after it. -/
theorem chompingOf_inline (h : endsWith isBreak cs = false) : chompingOf cs = .strip := by
  rw [endsWith_eq_head?] at h
  rw [chompingOf]
  rcases hreverse : cs.reverse with _ | ⟨c, _ | ⟨d, rest⟩⟩
  · rfl
  · simp_all
  · simp_all

/-- A text that ends with line breaks keeps all of them, or the only one. -/
theorem chompingOf_broken (h : endsWith isBreak cs = true) :
    chompingOf cs = .keep ∨
      chompingOf cs = .clip ∧ ∃ c d rest, cs.reverse = c :: d :: rest ∧ isBreak d = false := by
  rw [endsWith_eq_head?] at h
  rw [chompingOf]
  rcases hreverse : cs.reverse with _ | ⟨c, _ | ⟨d, rest⟩⟩
  · simp [hreverse] at h
  · simp_all
  · cases hd : isBreak d with
    | true => simp_all
    | false => exact .inr ⟨by simp_all, c, d, rest, rfl, hd⟩

theorem BlockText.Holds.finish (h : b.Holds true cs.reverse) (hends : endsWith isBreak cs = true) :
    b.finish (chompingOf cs) = cs := by
  have hwhole := h.whole
  rcases chompingOf_broken hends with hkeep | ⟨hclip, c, d, rest, hreverse, hd⟩
  · rw [hkeep, BlockText.finish, List.append_assoc, hwhole, List.reverse_reverse]
  · rw [h.single c d rest hreverse hd, List.nil_append] at hwhole
    rw [hclip, BlockText.finish, hwhole, List.reverse_reverse]

theorem BlockText.Holds.finish_line {ending : List Char} (h : b.Holds false cs.reverse)
    (hends : endsWith isBreak cs = false) :
    BlockText.finish (chompingOf cs) { b with ending } = cs := by
  obtain ⟨hblank, hending⟩ := h.line rfl
  have hwhole := h.whole
  rw [hblank, hending, List.nil_append, List.nil_append] at hwhole
  rw [chompingOf_inline hends, BlockText.finish, hwhole, List.reverse_reverse]

/-- The lines of a literal are read up to its end, with an indentation that is given or found in the
first of them. -/
theorem readBlock?_lines {indent : Nat} (rest : List Char) (i l : Nat)
    (hprintable : ∀ c ∈ cs, isPrintable c = true) (hne : cs ≠ []) (hleast : least ≤ indent) :
    ∃ (state : BlockState) (b : BlockText) (i' l' column : Nat),
      state.Fits (endsWith isBreak cs) column ∧ b.Holds (endsWith isBreak cs) cs.reverse ∧
      readBlock? true (chompingOf cs) least (if needsIndent cs then some indent else none)
          (.margin 0) .empty (layOut i l 0 (writeLines indent true cs ++ rest)) =
        readBlock? true (chompingOf cs) least (some indent) state b
          (layOut i' l' column rest) := by
  have hempty : BlockText.empty.Holds true [] := ⟨rfl, by simp, fun _ => rfl, by simp⟩
  rw [← endsBroken_eq_endsWith true hne]
  cases hneeds : needsIndent cs with
  | true =>
    have hstart : BlockState.Fits (.margin 0) true 0 := .margin
    have h := readBlock?_writeLines (chompingOf cs) least indent rest i l hprintable hstart hempty
    rwa [List.append_nil] at h
  | false =>
    cases cs with
    | nil => exact absurd rfl hne
    | cons c cs =>
      simp only [needsIndent, Bool.or_eq_false_iff, beq_eq_false_iff_ne] at hneeds
      obtain ⟨hspace, hbreak⟩ := hneeds
      have hlines : writeLines indent true (c :: cs) =
          margin indent ++ c :: writeLines indent false cs := by
        simp [writeLines, hbreak]
      have hline : BlockState.Fits .line false (indent + 1) := .line
      have h := readBlock?_writeLines (chompingOf (c :: cs)) least indent rest (i + indent + 1) l
        (fun x hx => hprintable x (.tail _ hx)) hline (hempty.startLine (c := c))
      have hends : endsBroken true (c :: cs) = endsBroken false cs := by
        simp [endsBroken, hbreak]
      rw [hlines, List.append_assoc, List.cons_append, if_neg (by simp), List.reverse_cons,
        readBlock?_first hleast (hprintable c (.head _)) hbreak hspace]
      rwa [← hends] at h

/-- A text reads back from the lines of its literal block. -/
theorem readBlock?_literal {indent width : Nat} (i l : Nat)
    (hprintable : ∀ c ∈ cs, isPrintable c = true) (hne : cs ≠ []) (hleast : least ≤ indent)
    (hmore : StartsNext width more) (hwidth : width ≤ indent) :
    ∃ i' l', readBlock? true (chompingOf cs) least (if needsIndent cs then some indent else none)
        (.margin 0) .empty (layOut i l 0 (writeLines indent true cs ++
          ((if endsWith isBreak cs then [] else ['\n']) ++ more))) =
      some (cs, nextPlaces i' l' more) := by
  obtain ⟨state, b, i', l', column, hstate, hholds, hread⟩ := readBlock?_lines
    ((if endsWith isBreak cs then [] else ['\n']) ++ more) i l hprintable hne hleast
  rw [hread]
  cases hends : endsWith isBreak cs with
  | true =>
    rw [hends] at hstate hholds
    cases hstate with
    | margin => exact ⟨i', l', by rw [if_pos rfl, List.nil_append, readBlock?_end hmore hwidth,
        hholds.finish hends]⟩
  | false =>
    rw [hends] at hstate hholds
    cases hstate with
    | line =>
      refine ⟨i' + 1, l' + 1, ?_⟩
      rw [if_neg (by simp), List.singleton_append, layOut_newline, readBlock?_lineEnd rfl,
        readBlock?_end hmore hwidth, hholds.finish_line hends]

end Fleet.Yaml
