import Fleet.Proofs.Number.Decimal
import Fleet.Yaml.Scalar.Writer
import Fleet.Yaml.Token.Reader

/-!
# Laying out what is written

Whatever is written is printable, so each of its characters has a place of its own and stands for
itself there.

## Main definitions

* `StartsNext` — a text goes on with a line that is indented by less than a width, or has ended.
* `nextPlaces` — the places of a text after the margin of its first line.

## Main statements

* `places?_eq`, `length_layOut` — a printable text is laid out as it stands.
* `layOut_margin` — a margin is passed over as its spaces are.
-/

namespace Fleet.Yaml

variable {c : Char} {rest : List Char} {i l column : Nat}

/-! ### Characters -/

theorem isAllowed_of_isPrintable (h : isPrintable c = true) : isAllowed c = true := by
  simp only [isPrintable, isAllowed, Bool.or_eq_true, Bool.and_eq_true, decide_eq_true_eq,
    beq_iff_eq] at h ⊢
  omega

theorem plainBreak_of_isPrintable (h : isPrintable c = true) : plainBreak c = c := by
  rw [plainBreak, if_neg]
  rintro hbreak
  simp only [Bool.or_eq_true, beq_iff_eq] at hbreak
  rcases hbreak with rfl | rfl <;> revert h <;> decide

/-- A printable character that neither is a space nor ends a line. -/
theorem isGap_of_isPrintable (h : isPrintable c = true) (hspace : c ≠ ' ')
    (hbreak : isBreak c = false) : isGap c = false := by
  have htab : c ≠ '\t' := by
    rintro rfl
    revert h
    decide
  simp [isGap, isSpace, hspace, htab, hbreak]

/-- What a decimal digit is like. -/
theorem isPrintable_of_isDigit (h : c.isDigit = true) :
    isPrintable c = true ∧ isBreak c = false ∧ isStartSign c = false ∧
      ∀ sign ∈ [' ', '?', ':', '-', '#'], c ≠ sign := by
  have hbounds := Decimal.toNat_of_isDigit h
  have hdigit : c = Decimal.digit (c.toNat - 48) := by
    rw [Decimal.digit, show 48 + (c.toNat - 48) = c.toNat by omega, Char.ofNat_toNat]
  have hplain : ∀ d < 10, isPrintable (Decimal.digit d) = true ∧
      isBreak (Decimal.digit d) = false := by decide
  have hstart : ∀ d < 10, isStartSign (Decimal.digit d) = false := by decide
  have hsigns : ∀ sign ∈ [' ', '?', ':', '-', '#'], sign.isDigit = false := by simp
  refine ⟨?_, ?_, ?_, fun sign hsign heq => ?_⟩
  · exact hdigit ▸ (hplain (c.toNat - 48) (by omega)).1
  · exact hdigit ▸ (hplain (c.toNat - 48) (by omega)).2
  · exact hdigit ▸ hstart (c.toNat - 48) (by omega)
  · rw [heq, hsigns sign hsign] at h
    cases h

/-! ### Places -/

theorem layOut_cons (h : isPrintable c = true) :
    layOut i l column (c :: rest) =
      ⟨c, i, l, column⟩ ::
        if isBreak c then layOut (i + 1) (l + 1) 0 rest
        else layOut (i + 1) l (column + 1) rest := by
  rw [layOut, plainBreak_of_isPrintable h]
  rintro rest' rfl
  exact absurd h (by decide)

theorem layOut_inline (h : isPrintable c = true) (hbreak : isBreak c = false) :
    layOut i l column (c :: rest) = ⟨c, i, l, column⟩ :: layOut (i + 1) l (column + 1) rest := by
  simp [layOut_cons h, hbreak]

theorem layOut_break (h : isPrintable c = true) (hbreak : isBreak c = true) :
    layOut i l column (c :: rest) = ⟨c, i, l, column⟩ :: layOut (i + 1) (l + 1) 0 rest := by
  simp [layOut_cons h, hbreak]

@[simp] theorem layOut_space :
    layOut i l column (' ' :: rest) = ⟨' ', i, l, column⟩ :: layOut (i + 1) l (column + 1) rest :=
  layOut_inline (by decide) (by decide)

@[simp] theorem layOut_newline :
    layOut i l column ('\n' :: rest) = ⟨'\n', i, l, column⟩ :: layOut (i + 1) (l + 1) 0 rest :=
  layOut_break (by decide) (by decide)

/-- A printable text has as many places as characters. -/
theorem length_layOut {cs : List Char} (h : ∀ c ∈ cs, isPrintable c = true) (i l column : Nat) :
    (layOut i l column cs).length = cs.length := by
  induction cs generalizing i l column with
  | nil => rfl
  | cons c cs ih =>
    have hrest : ∀ c ∈ cs, isPrintable c = true := fun x hx => h x (.tail _ hx)
    rw [layOut_cons (h c (.head _)), List.length_cons, List.length_cons]
    split <;> rw [ih hrest]

/-- The places of a printable text that starts with something else than the mark of its byte
order. -/
theorem places?_eq {cs : List Char} (h : ∀ c ∈ cs, isPrintable c = true) :
    places? cs = some (layOut 0 0 0 cs) := by
  have hmark : dropMark cs = cs := by
    cases cs with
    | nil => rfl
    | cons c cs =>
      rw [dropMark, if_neg]
      rintro hc
      obtain rfl : c = byteOrderMark := by simpa using hc
      exact absurd (h _ (.head _)) (by decide)
  have hallowed : cs.all isAllowed = true :=
    List.all_eq_true.2 fun c hc => isAllowed_of_isPrintable (h c hc)
  simp only [places?, hmark, hallowed, if_true]

/-! ### Boundaries of documents -/

theorem atMark_eq_false {d : Char} {p : Place} {ps : List Place}
    (h : p.column ≠ 0 ∨ p.char ≠ d) : atMark d (p :: ps) = false := by
  match ps with
  | [] | [_] => rfl
  | _ :: _ :: _ => rcases h with h | h <;> simp [atMark, h]

/-- Only a line that starts at the margin can be the boundary of a document. -/
theorem atBoundary_of_column {p : Place} {ps : List Place} (h : p.column ≠ 0) :
    atBoundary (p :: ps) = false := by
  rw [atBoundary, atMark_eq_false (.inl h), atMark_eq_false (.inl h), Bool.or_false]

theorem atBoundary_of_char {p : Place} {ps : List Place} (hdash : p.char ≠ '-')
    (hdot : p.char ≠ '.') : atBoundary (p :: ps) = false := by
  rw [atBoundary, atMark_eq_false (.inr hdash), atMark_eq_false (.inr hdot), Bool.or_false]

/-! ### Lines -/

@[simp] theorem length_margin (n : Nat) : (margin n).length = n := List.length_replicate

/-- What passes over a space passes over a margin. -/
theorem layOut_margin {α : Type} (f : List Place → α) (i l column n : Nat) (cs : List Char)
    (hspace : ∀ i k ps, k < column + n → f (⟨' ', i, l, k⟩ :: ps) = f ps) :
    f (layOut i l column (margin n ++ cs)) = f (layOut (i + n) l (column + n) cs) := by
  induction n generalizing i column with
  | zero => rfl
  | succ n ih =>
    have hmargin : margin (n + 1) = ' ' :: margin n := rfl
    rw [hmargin, List.cons_append, layOut_space, hspace _ _ _ (by omega),
      ih _ _ fun i k ps hk => hspace i k ps (by omega), Nat.add_right_comm, Nat.add_assoc i,
      Nat.add_right_comm, Nat.add_assoc column]

/-- A character with which a line starts. -/
def startsLine (c : Char) : Bool := c.isLower || c == '-'

theorem isPrintable_of_startsLine (h : startsLine c = true) : isPrintable c = true := by
  rw [startsLine, Bool.or_eq_true, beq_iff_eq] at h
  rcases h with h | rfl
  · have hlow : 97 ≤ c.toNat := of_decide_eq_true (Bool.and_eq_true_iff.1 h).1
    have hhigh : c.toNat ≤ 122 := of_decide_eq_true (Bool.and_eq_true_iff.1 h).2
    simp only [isPrintable, Bool.or_eq_true, Bool.and_eq_true, decide_eq_true_eq, beq_iff_eq]
    omega
  · decide

theorem isBreak_of_startsLine (h : startsLine c = true) : isBreak c = false := by
  refine Bool.eq_false_iff.2 fun hbreak => ?_
  simp only [isBreak, Bool.or_eq_true, beq_iff_eq] at hbreak
  rcases hbreak with (((rfl | rfl) | rfl) | rfl) | rfl <;> revert h <;> decide

theorem isSpace_of_startsLine (h : startsLine c = true) : isSpace c = false := by
  refine Bool.eq_false_iff.2 fun hspace => ?_
  simp only [isSpace, Bool.or_eq_true, beq_iff_eq] at hspace
  rcases hspace with rfl | rfl <;> revert h <;> decide

/-- A text has ended, or goes on with a line that is indented by less than a width. -/
inductive StartsNext (width : Nat) : List Char → Prop
  | done : StartsNext width []
  | line {k : Nat} {c : Char} {rest : List Char} (hk : k < width) (hc : startsLine c = true) :
      StartsNext width (margin k ++ c :: rest)

theorem StartsNext.mono {width width' : Nat} {text : List Char} (h : StartsNext width text)
    (hle : width ≤ width') : StartsNext width' text := by
  cases h with
  | done => exact .done
  | line hk hc => exact .line (Nat.lt_of_lt_of_le hk hle) hc

/-- The places of a text after the margin of its first line. -/
def nextPlaces (i l : Nat) (text : List Char) : List Place :=
  (layOut i l 0 text).dropWhile fun p => isSpace p.char

theorem nextPlaces_line {k : Nat} (hc : startsLine c = true) :
    nextPlaces i l (margin k ++ c :: rest) =
      ⟨c, i + k, l, k⟩ :: layOut (i + k + 1) l (k + 1) rest := by
  have hspace := isSpace_of_startsLine hc
  have hmargin := layOut_margin (List.dropWhile fun p => isSpace p.char) i l 0 k (c :: rest)
    fun _ _ _ _ => List.dropWhile_cons_of_pos rfl
  rw [nextPlaces, hmargin, layOut_inline (isPrintable_of_startsLine hc)
    (isBreak_of_startsLine hc), List.dropWhile_cons_of_neg (by simp [hspace]), Nat.zero_add]

/-! ### Gaps -/

theorem Gap.push_space {gap : Gap} (h : gap.hasBreak = false) :
    (gap.push ' ').hasBreak = false ∧ (gap.push ' ').folded = ' ' :: gap.folded := by
  cases gap with
  | none | spaces => exact ⟨rfl, rfl⟩
  | lines => cases h

end Fleet.Yaml
