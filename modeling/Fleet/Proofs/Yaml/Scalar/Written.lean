import Fleet.Proofs.Yaml.Scalar.Quoted

/-!
# What is written for a text

The way in which a text is written says what the text is like, and whatever is written for it is
printable.

## Main definitions

* `scalarStyle` — the style in which a written text reads back.

## Main statements

* `of_styleOf_plain`, `of_styleOf_single`, `of_styleOf_literal` — what a text written in a style is
  like.
* `allPrintable_writeText` — what is written is printable.
-/

namespace Fleet.Yaml

variable {c : Char} {cs : List Char}

/-! ### Styles -/

theorem of_styleOf_plain (h : styleOf cs = .plain) :
    isAmbiguous cs = false ∧ allowsPlain cs = true := by
  grind [styleOf]

theorem of_styleOf_single (h : styleOf cs = .single) : '\n' ∉ cs ∧ allowsSingle cs = true := by
  grind [styleOf]

theorem of_styleOf_literal (h : styleOf cs = .literal) : '\n' ∈ cs ∧ allowsLiteral cs = true := by
  grind [styleOf]

/-- The style in which a written text reads back. -/
def scalarStyle (cs : List Char) : ScalarStyle :=
  match styleOf cs with
  | .plain => .plain
  | .single | .double => .quoted
  | .literal => .literal

/-! ### Printable -/

theorem allPrintable_margin (n : Nat) : (margin n).all isPrintable = true := by
  have hspace : isPrintable ' ' = true := by decide
  simp [margin, hspace]

theorem allPrintable_writeSingle {indent : Nat} {broken : Bool} (h : cs.all isPrintable = true) :
    (writeSingle indent broken cs).all isPrintable = true := by
  have hbreak : isPrintable '\n' = true := by decide
  have hquote : isPrintable '\'' = true := by decide
  have hspace : isPrintable ' ' = true := by decide
  have hmargin := allPrintable_margin indent
  induction cs generalizing broken with
  | nil => cases broken <;> simp [writeSingle, hquote, hmargin]
  | cons c cs ih =>
    rw [List.all_cons, Bool.and_eq_true] at h
    rw [writeSingle]
    split
    · split <;> simp [ih h.2, h.1, hbreak]
    · split
      · simp [ih h.2, hspace]
      · have hword : (if c == '\'' then ['\'', '\''] else [c]).all isPrintable = true := by
          split <;> simp [h.1, hquote]
        rw [List.all_append, List.all_append, hword, ih h.2]
        cases broken <;> simp [hmargin]

theorem allPrintable_hexadecimal (width n : Nat) :
    (Digit.hexadecimal Digit.upper width n).all isPrintable = true := by
  have hdigit : ∀ n < 16, isPrintable (Digit.upper n) = true := by decide
  induction width generalizing n with
  | zero => rfl
  | succ width ih =>
    simp only [Digit.hexadecimal, List.all_append, ih, List.all_cons, List.all_nil,
      hdigit _ (Nat.mod_lt n (by omega)), Bool.and_true]

theorem allPrintable_escapeOf (c : Char) : (escapeOf c).all isPrintable = true := by
  have hcode : (codeEscape c).all isPrintable = true := by
    have hx : isPrintable 'x' = true := by decide
    have hu : isPrintable 'u' = true := by decide
    have hU : isPrintable 'U' = true := by decide
    rw [codeEscape]
    split
    · rw [List.all_cons, hx, allPrintable_hexadecimal, Bool.and_true]
    · split
      · rw [List.all_cons, hu, allPrintable_hexadecimal, Bool.and_true]
      · rw [List.all_cons, hU, allPrintable_hexadecimal, Bool.and_true]
  rw [escapeOf.eq_def]
  split
  all_goals first
    | decide
    | exact hcode

theorem allPrintable_writeDouble (cs : List Char) : (writeDouble cs).all isPrintable = true := by
  have hquote : isPrintable '"' = true := by decide
  have hslash : isPrintable '\\' = true := by decide
  have hescaped : ∀ c, (writeEscaped c).all isPrintable = true := by
    intro c
    rw [writeEscaped]
    split
    · rw [List.all_cons, hslash, allPrintable_escapeOf, Bool.and_true]
    · next h => simp_all
  simp only [writeDouble, List.all_append, List.all_cons, List.all_nil, List.all_flatMap, hescaped,
    hquote]
  simp

theorem allPrintable_writeLines {indent : Nat} {broken : Bool} (h : cs.all isPrintable = true) :
    (writeLines indent broken cs).all isPrintable = true := by
  have hmargin := allPrintable_margin indent
  induction cs generalizing broken with
  | nil => rfl
  | cons c cs ih =>
    rw [List.all_cons, Bool.and_eq_true] at h
    rw [writeLines]
    split
    · simp [ih h.2, h.1]
    · cases broken <;> simp [ih h.2, h.1, hmargin]

theorem allPrintable_digits (n : Nat) : (Decimal.digits n).all isPrintable = true :=
  List.all_eq_true.2 fun _ hc => (isPrintable_of_isDigit (Decimal.isDigit_of_mem_digits hc)).1

theorem allPrintable_writeLiteral {indent : Nat} (h : cs.all isPrintable = true) :
    (writeLiteral indent cs).all isPrintable = true := by
  have hbar : isPrintable '|' = true := by decide
  have hbreak : isPrintable '\n' = true := by decide
  have hindent : (indentSign cs).all isPrintable = true := by
    cases cs with
    | nil => rfl
    | cons c cs =>
      rw [indentSign]
      split
      · exact allPrintable_digits _
      · rfl
  have hchomp : (chompSign cs).all isPrintable = true := by
    rw [chompSign]
    split
    · decide
    · split <;> decide
    · split
      · decide
      · split <;> decide
  simp only [writeLiteral, List.all_append, List.all_cons, hindent, hchomp, hbar, hbreak,
    allPrintable_writeLines h, Bool.and_self]

/-- Whatever the text, what is written for it is printable. -/
theorem allPrintable_writeText (indent : Nat) (cs : List Char) :
    (writeText indent cs).all isPrintable = true := by
  have hbreak : ['\n'].all isPrintable = true := by decide
  have hquote : isPrintable '\'' = true := by decide
  have hclean : isClean cs = true → cs.all isPrintable = true := fun h => by
    rw [isClean, Bool.and_eq_true] at h
    exact h.1
  rw [writeText]
  cases hstyle : styleOf cs with
  | plain =>
    have hallows := (of_styleOf_plain hstyle).2
    simp only [allowsPlain, Bool.and_eq_true] at hallows
    rw [List.all_append, hclean hallows.1.1.1.1.1.1, hbreak, Bool.and_self]
  | single =>
    have hallows := (of_styleOf_single hstyle).2
    simp only [allowsSingle, Bool.and_eq_true] at hallows
    rw [List.all_append, List.all_cons, allPrintable_writeSingle (hclean hallows.1), hbreak, hquote]
    rfl
  | double =>
    dsimp only
    rw [List.all_append, allPrintable_writeDouble, hbreak, Bool.and_self]
  | literal =>
    have hallows := (of_styleOf_literal hstyle).2
    simp only [allowsLiteral, Bool.and_eq_true] at hallows
    dsimp only
    rw [List.all_append, allPrintable_writeLiteral (hclean hallows.1)]
    split <;> simp [hbreak]

end Fleet.Yaml
