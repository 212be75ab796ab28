import Fleet.Proofs.Yaml.Scalar.Literal
import Fleet.Proofs.Yaml.Scalar.Plain
import Fleet.Proofs.Yaml.Scalar.Written
import Fleet.Proofs.Yaml.Token

/-!
# The tokens of an entry

An entry of a written mapping is the name of a field and a colon on one line, and the value of the
field after a space.  A text as the value gives one scalar in whichever style it is written.

## Main definitions

* `Reading.isFieldName` — a text that can be the name of a field.

## Main statements

* `Reading.Yields.firstKey`, `Reading.Yields.nextKey` — a key with its colon.
* `Reading.Yields.text` — a text as a value.
-/

namespace Fleet.Yaml

variable {c : Char} {cs more : List Char} {i l column : Nat} {p : Place} {ps : List Place}

namespace Reading

variable {s : Reading} {out : List Token} {columns closed kept : List Nat}

/-! ### Signs -/

/-- What starts with none of these three signs is neither a directive nor the mark of a document. -/
theorem token?_noMark {directive start finish other : Option Reading}
    (h : p.char ∉ ['%', '-', '.']) :
    (if p.column = 0 ∧ p.char = '%' then directive
      else if atMark '-' (p :: ps) then start
      else if atMark '.' (p :: ps) then finish
      else other) = other := by
  simp only [List.mem_cons, List.not_mem_nil, or_false, not_or] at h
  obtain ⟨hpercent, hdash, hdot⟩ := h
  rw [if_neg (by simp [hpercent]), atMark_eq_false (.inr hdash), if_neg (by simp),
    atMark_eq_false (.inr hdot), if_neg (by simp)]

/-! ### Plain scalars -/

/-- A text that a plain scalar can hold starts with no sign of anything else. -/
theorem token?_plain {rest : List Char} (h : PlainText (c :: rest)) (houter : s.outer = [])
    (hstart : column ≠ 0 ∨ c ≠ '-' ∧ c ≠ '.') :
    s.token? ⟨c, i, l, column⟩ (layOut (i + 1) l (column + 1) (rest ++ more)) =
      s.plain? ⟨c, i, l, column⟩ (layOut (i + 1) l (column + 1) (rest ++ more)) := by
  have hprintable : ∀ x ∈ rest, isPrintable x = true := fun x hx => h.printable x (.tail _ hx)
  obtain ⟨hsign, hgap⟩ : isStartSign c = false ∧
      ((c = '?' ∨ c = ':' ∨ c = '-') → gapNext rest = false) := by
    have hother := h.start
    simp only [startsOtherwise, Bool.or_eq_false_iff] at hother
    refine ⟨hother.1, fun hc => ?_⟩
    rcases hc with rfl | rfl | rfl <;> simpa using hother.2
  obtain ⟨hspace, -, hpercent⟩ := h.first
  have hword : isGap c = false :=
    isGap_of_isPrintable (h.printable c (.head _)) hspace (h.inline c (.head _))
  have hdash : atMark '-' (⟨c, i, l, column⟩ :: layOut (i + 1) l (column + 1) (rest ++ more)) =
      false := atMark_eq_false (hstart.imp_right And.left)
  have hdot : atMark '.' (⟨c, i, l, column⟩ :: layOut (i + 1) l (column + 1) (rest ++ more)) =
      false := atMark_eq_false (hstart.imp_right And.right)
  have hflow : s.inFlow = false := by simp [inFlow, houter]
  have hnext : (c = '?' ∨ c = ':' ∨ c = '-') →
      atGap (layOut (i + 1) l (column + 1) (rest ++ more)) = false :=
    fun hc => atGap_of_gapNext hprintable (hgap hc)
  rw [token?, if_neg (by simp [hpercent]), hdash, if_neg (by simp), hdot, if_neg (by simp)]
  dsimp only
  split
  all_goals try exact absurd hsign (by decide)
  -- what is left are the three signs that count only before a gap, and all other characters
  · exact if_neg (by simp [hnext])
  · exact if_neg (by simp [hnext, hflow])
  · exact if_neg (by simp [hnext, hflow])
  · exact if_neg (by simp [hword])

/-- A plain scalar where a key may start is remembered, for it may be one. -/
theorem plain?_key {text : List Char} {rest : List Place} {broken : Bool}
    (hallowed : s.keyAllowed = true) (hcandidate : s.candidate = none) (houter : s.outer = [])
    (hread : readPlain? false s.inside .none [] (p :: ps) = some (text, rest, broken)) :
    s.plain? p ps = some
      { s with
        rest := rest
        tokens := .scalar .plain text :: s.tokens
        keyAllowed := broken
        candidate := some ⟨s.columns.head? == some p.column, s.tokens.length, p⟩ } := by
  have hflow : s.inFlow = false := by simp [inFlow, houter]
  have hsave : s.saveCandidate? p = some
      { s with candidate := some ⟨s.columns.head? == some p.column, s.tokens.length, p⟩ } := by
    simp [saveCandidate?, hallowed, dropCandidate?, hcandidate, hflow]
  have hread' : readPlain? (inFlow
      { s with candidate := some ⟨s.columns.head? == some p.column, s.tokens.length, p⟩ })
      s.inside .none [] (p :: ps) = some (text, rest, broken) := by
    rw [← hread, ← hflow]
    rfl
  rw [plain?, hsave]
  exact congrArg (Option.bind · _) hread'

theorem plain?_value {text : List Char} {rest : List Place} {broken : Bool}
    (hallowed : s.keyAllowed = false) (houter : s.outer = [])
    (hread : readPlain? false s.inside .none [] (p :: ps) = some (text, rest, broken)) :
    s.plain? p ps = some
      { s with
        rest := rest
        tokens := .scalar .plain text :: s.tokens
        keyAllowed := broken } := by
  have hflow : s.inFlow = false := by simp [inFlow, houter]
  have hsave : s.saveCandidate? p = some s := by simp [saveCandidate?, hallowed]
  rw [plain?, hsave, Option.bind_eq_bind, Option.bind_some, hflow, hread]
  rfl

/-! ### Keys -/

theorem insert_behind {early : List Token} {t : Token} (late : List Token)
    (h : s.tokens = late ++ early) :
    s.insert early.length t = { s with tokens := late ++ t :: early } := by
  have hsplit : s.tokens.splitAt (s.tokens.length - early.length) = (late, early) := by
    rw [List.splitAt_eq, h]
    simp
  simp only [insert, hsplit]

theorem token?_colon (h : atGap ps = true) :
    s.token? ⟨':', i, l, column⟩ ps = s.value? ⟨':', i, l, column⟩ ps := by
  rw [token?, token?_noMark (by simp)]
  exact if_pos (by simp [h])

/-- A block collection opens unless one is open at its column. -/
theorem openBlock_eq (k : Nat) (t : Token) (late early : List Token) (houter : s.outer = [])
    (htokens : s.tokens = late ++ early) (hcolumns : ∀ n, s.columns.head? = some n → n ≤ k) :
    s.openBlock k early.length t =
      { s with
        tokens := late ++ ((if s.columns.head? = some k then [] else [t]) ++ early)
        columns := if s.columns.head? = some k then s.columns else k :: s.columns } := by
  have hinside : s.inside ≤ k ↔ ¬ s.columns.head? = some k := by
    cases hs : s.columns with
    | nil => simp [inside, hs]
    | cons n columns =>
      have hle := hcolumns n (by simp [hs])
      simp [inside, hs]
      omega
  have hflow : s.inFlow = false := by simp [inFlow, houter]
  by_cases hopen : s.columns.head? = some k
  · rw [openBlock, if_neg (by simp [hinside, hopen]), if_pos hopen, if_pos hopen, List.nil_append,
      ← htokens]
  · rw [openBlock, if_pos (by simp [hinside, hopen, hflow]), if_neg hopen, if_neg hopen,
      insert_behind late htokens]
    rfl

/-- The colon makes the scalar before it a key, which opens a mapping unless one is open at its
column. -/
theorem value?_eq {candidate : Candidate} {t : Token} {early : List Token} (houter : s.outer = [])
    (hcandidate : s.candidate = some candidate) (htokens : s.tokens = t :: early)
    (hbefore : candidate.before = early.length)
    (hcolumns : ∀ n, s.columns.head? = some n → n ≤ candidate.place.column) :
    s.value? p ps = some
      { s with
        rest := ps
        tokens := .value :: t :: .key ::
          ((if s.columns.head? = some candidate.place.column then [] else [.blockMappingStart]) ++
            early)
        columns := if s.columns.head? = some candidate.place.column then s.columns
          else candidate.place.column :: s.columns
        keyAllowed := false
        candidate := none } := by
  have hinsert : s.insert early.length .key = { s with tokens := t :: .key :: early } :=
    insert_behind [t] htokens
  have hopen := openBlock_eq (s := { s with tokens := t :: .key :: early })
    candidate.place.column .blockMappingStart [t, .key] early houter rfl hcolumns
  unfold value?
  rw [hcandidate]
  dsimp only
  rw [hbefore, hinsert, hopen]
  rfl

/-- The name of a field, as a key without a sign. -/
def isFieldName (cs : List Char) : Bool :=
  allowsPlain cs && !cs.contains ' ' && cs.head?.any Char.isLower && cs.length ≤ maxKeyLength

/-- What a name is like. -/
structure FieldName (c : Char) (rest : List Char) : Prop where
  plain : PlainText (c :: rest)
  spaces : ' ' ∉ c :: rest
  lower : c.isLower = true
  length : (c :: rest).length ≤ maxKeyLength

theorem exists_fieldName {name : List Char} (h : isFieldName name = true) :
    ∃ c rest, name = c :: rest ∧ FieldName c rest := by
  simp only [isFieldName, Bool.and_eq_true, Bool.not_eq_true', List.contains_eq_mem,
    decide_eq_false_iff_not, decide_eq_true_eq] at h
  obtain ⟨⟨⟨hplain, hspaces⟩, hlower⟩, hlength⟩ := h
  cases name with
  | nil => cases hlower
  | cons c rest =>
    exact ⟨c, rest, rfl, .of_allowsPlain hplain, hspaces, by simpa using hlower, hlength⟩

theorem FieldName.first {rest : List Char} (h : FieldName c rest) : c ≠ '-' ∧ c ≠ '.' := by
  have hlower := h.lower
  constructor <;> rintro rfl <;> exact absurd hlower (by decide)

/-- The colon after a name on the same line. -/
theorem step?_colon (candidate : Candidate) {t : Token} {early : List Token} (places : List Place)
    (hgap : atGap ps = true) (hline : candidate.place.line = l)
    (hindex : i ≤ candidate.place.index + maxKeyLength) (hbefore : candidate.before = early.length)
    (hcolumns : ∀ n, columns.head? = some n → n ≤ candidate.place.column)
    (hcolumn : candidate.place.column ≤ column) :
    step? ⟨':', i, l, column⟩ ps ⟨places, t :: early, columns, false, some candidate, []⟩ =
      some ⟨ps, .value :: t :: .key ::
        ((if columns.head? = some candidate.place.column then [] else [.blockMappingStart]) ++
          early),
        if columns.head? = some candidate.place.column then columns
          else candidate.place.column :: columns, false, none, []⟩ := by
  have hstale : candidate.isStale ⟨':', i, l, column⟩ = false := by
    simp [Candidate.isStale, hline]
    omega
  have hdrop : dropStale? ⟨':', i, l, column⟩
      ⟨places, t :: early, columns, false, some candidate, []⟩ =
        some ⟨places, t :: early, columns, false, some candidate, []⟩ := by
    simp [dropStale?, ripen, hstale]
  have hclose : closeBlocks (column + 1)
      ⟨places, t :: early, columns, false, some candidate, []⟩ =
        ⟨places, t :: early, columns, false, some candidate, []⟩ :=
    closeBlocks_eq [] columns rfl rfl (by simp) fun n hn =>
      Nat.lt_succ_of_le (Nat.le_trans (hcolumns n hn) hcolumn)
  rw [step?, hdrop]
  simp only [Option.bind_eq_bind, Option.bind_some]
  rw [hclose, token?_colon hgap]
  exact value?_eq rfl rfl rfl hbefore hcolumns

/-- A key is read with its colon. It ends the collections that are indented further, and starts a
mapping unless one is open at its column. -/
theorem Yields.key {name : List Char} {m : Nat} (hname : isFieldName name = true)
    (hmore : more.head? = some ' ' ∨ more.head? = some '\n') (hcolumns : columns = closed ++ kept)
    (hclosed : ∀ n ∈ closed, column + m < n) (hkept : ∀ n, kept.head? = some n → n ≤ column + m)
    (h : Yields false (column + m + name.length + 1) more
      (if kept.head? = some (column + m) then kept else (column + m) :: kept) out) :
    Yields true column (margin m ++ (name ++ ':' :: more)) columns
      (List.replicate closed.length .blockEnd ++
        ((if kept.head? = some (column + m) then [] else [.blockMappingStart]) ++
          .key :: .scalar .plain name :: .value :: out)) := by
  obtain ⟨c, rest, rfl, hword⟩ := exists_fieldName hname
  have hprint := hword.plain.printable c (.head _)
  have hbreak := hword.plain.inline c (.head _)
  obtain ⟨hspace, hnumber, -⟩ := hword.plain.first
  have hgap : ∀ i l column, atGap (layOut i l column more) = true := by
    intro i l column
    cases more with
    | nil => simp at hmore
    | cons g more =>
      rcases hmore with hmore | hmore <;> cases hmore
      · rw [layOut_space]
        rfl
      · rw [layOut_newline]
        rfl
  rw [List.cons_append]
  refine Yields.step hprint hbreak hspace hnumber hcolumns hclosed hkept
    fun i l places tokens fuel hfuel => ?_
  have hread := fun least => readPlain?_text hword.plain (by simp) least i l (column + m)
    (':' :: more) (fun h => absurd h hword.spaces)
  simp only [readPlain?_colon (hgap _ _ _), List.cons_append, List.reverse_reverse,
    layOut_inline hprint hbreak] at hread
  rw [token?_plain hword.plain rfl (.inr hword.first), plain?_key rfl rfl rfl (hread _),
    Option.bind_some]
  -- the reader stands at the colon now, with the name as the candidate
  simp only [List.length_append, List.length_cons] at hfuel
  obtain ⟨fuel, rfl⟩ : ∃ n, fuel = n + 1 := ⟨fuel - 1, by omega⟩
  have hskip := skipSpace_margin false (i + (c :: rest).length) l
    (column + m + (c :: rest).length) 0 more (c := ':') (by decide) (by decide) (by decide)
    (by decide)
  rw [margin, List.replicate_zero, List.nil_append, Nat.add_zero, Nat.add_zero,
    layOut_inline (by decide) (by decide)] at hskip
  have hindex : i + (c :: rest).length ≤ i + maxKeyLength := Nat.add_le_add_left hword.length i
  have hright : column + m ≤ column + m + (c :: rest).length := Nat.le_add_right ..
  dsimp only
  rw [layOut_inline (c := ':') (by decide) (by decide), run?_step hskip,
    step?_colon ⟨_, tokens.length, ⟨c, i, l, column + m⟩⟩ _ (hgap _ _ _) rfl hindex rfl hkept
      hright]
  refine (h _ _ _ _ (by omega)).trans ?_
  dsimp only
  split <;> simp

/-- A key that starts a mapping. -/
theorem Yields.firstKey {name : List Char} {m : Nat} (hname : isFieldName name = true)
    (hmore : more.head? = some ' ' ∨ more.head? = some '\n')
    (hinside : ∀ n, columns.head? = some n → n < column + m)
    (h : Yields false (column + m + name.length + 1) more ((column + m) :: columns) out) :
    Yields true column (margin m ++ (name ++ ':' :: more)) columns
      (.blockMappingStart :: .key :: .scalar .plain name :: .value :: out) := by
  have hnew : ¬ columns.head? = some (column + m) :=
    fun hopen => Nat.lt_irrefl _ (hinside _ hopen)
  have hvalue : Yields false (column + m + name.length + 1) more
      (if columns.head? = some (column + m) then columns else (column + m) :: columns) out := by
    rwa [if_neg hnew]
  have hkey := Yields.key hname hmore (List.nil_append columns).symm (by simp)
    (fun n hn => Nat.le_of_lt (hinside n hn)) hvalue
  rwa [if_neg hnew] at hkey

/-- A key of the mapping that is open at its column. -/
theorem Yields.nextKey {name : List Char} {m : Nat} (hname : isFieldName name = true)
    (hmore : more.head? = some ' ' ∨ more.head? = some '\n') (hcolumns : columns = closed ++ kept)
    (hclosed : ∀ n ∈ closed, column + m < n) (hopen : kept.head? = some (column + m))
    (h : Yields false (column + m + name.length + 1) more kept out) :
    Yields true column (margin m ++ (name ++ ':' :: more)) columns
      (List.replicate closed.length .blockEnd ++ .key :: .scalar .plain name :: .value :: out) := by
  have hvalue : Yields false (column + m + name.length + 1) more
      (if kept.head? = some (column + m) then kept else (column + m) :: kept) out := by
    rwa [if_pos hopen]
  have hkey := Yields.key hname hmore hcolumns hclosed (fun n hn => by simp_all) hvalue
  rwa [if_pos hopen] at hkey

/-! ### Values -/

variable {n : Nat} {outer : List Nat}

/-- The value of a key starts on the line of the key, and ends no collection. -/
theorem Yields.value (hprint : isPrintable c = true) (hbreak : isBreak c = false) (hspace : c ≠ ' ')
    (hnumber : c ≠ '#') (hcolumn : n ≤ column)
    (htoken : ∀ i l places tokens fuel, cs.length < fuel →
      (token? ⟨c, i, l, column + 1⟩ (layOut (i + 1) l (column + 1 + 1) cs)
        ⟨places, tokens, n :: outer, false, none, []⟩).bind (run? fuel) =
          some (tokens.reverse ++ out)) :
    Yields false column (' ' :: c :: cs) (n :: outer) out :=
  Yields.step (m := 1) hprint hbreak hspace hnumber (List.nil_append (n :: outer)).symm (by simp)
    (by simp; omega) htoken

theorem Yields.plain (hplain : PlainText cs) (hne : cs ≠ []) (hcolumn : n ≤ column)
    (hmore : StartsNext (n + 1) more)
    (h : Yields true 0 more (n :: outer) out) :
    Yields false column (' ' :: (cs ++ '\n' :: more)) (n :: outer) (.scalar .plain cs :: out) := by
  obtain ⟨c, rest, rfl⟩ := List.exists_cons_of_ne_nil hne
  have hprint := hplain.printable c (.head _)
  have hbreak := hplain.inline c (.head _)
  obtain ⟨hspace, hnumber, -⟩ := hplain.first
  rw [List.cons_append]
  refine Yields.value hprint hbreak hspace hnumber hcolumn fun i l places tokens fuel hfuel => ?_
  have hread := readPlain?_text hplain hne (n + 1) i l (column + 1) ('\n' :: more)
    fun _ => ⟨by omega, by omega⟩
  rw [readPlain?_newline hmore, List.cons_append, layOut_inline hprint hbreak,
    List.reverse_reverse] at hread
  simp only [List.length_append, List.length_cons] at hfuel
  rw [token?_plain hplain rfl (.inl (by omega)),
    plain?_value (s := ⟨places, tokens, n :: outer, false, none, []⟩) rfl rfl hread,
    Option.bind_some]
  simpa using h.run?_nextPlaces (.scalar .plain (c :: rest) :: tokens) hmore (by omega)

/-- The quotation mark on either side of a text. -/
def quotationMark (double : Bool) : Char := if double then '"' else '\''

theorem token?_quotationMark (double : Bool) :
    s.token? ⟨quotationMark double, i, l, column⟩ ps =
      s.quoted? double ⟨quotationMark double, i, l, column⟩ ps := by
  rw [token?, token?_noMark (by cases double <;> simp [quotationMark])]
  cases double <;> rfl

theorem quoted?_value {double : Bool} {text : List Char} {rest : List Place}
    (hallowed : s.keyAllowed = false)
    (hread : readQuoted? double (.text .none) [] ps = some (text, rest)) :
    s.quoted? double p ps =
      some { s with
        rest := rest
        tokens := .scalar .quoted text :: s.tokens
        keyAllowed := false } := by
  have hsave : s.saveCandidate? p = some s := by simp [saveCandidate?, hallowed]
  simp only [quoted?, property?, hsave, hread, Option.bind_eq_bind, Option.bind_some]
  rfl

/-- A quoted text, which ends its line. -/
theorem Yields.quoted (double : Bool) {written text : List Char} (hcolumn : n ≤ column)
    (hread : ∀ i l column, column ≠ 0 → ∃ i' l' column', readQuoted? double (.text .none) []
        (layOut i l column (written ++ '\n' :: more)) =
      some (text, layOut i' l' column' ('\n' :: more)))
    (h : Yields true 0 more (n :: outer) out) :
    Yields false column (' ' :: quotationMark double :: (written ++ '\n' :: more))
      (n :: outer) (.scalar .quoted text :: out) := by
  refine Yields.value (by cases double <;> decide) (by cases double <;> decide)
    (by cases double <;> decide) (by cases double <;> decide) hcolumn
    fun i l places tokens fuel hfuel => ?_
  obtain ⟨i', l', column', hread⟩ := hread (i + 1) l (column + 1 + 1) (by omega)
  simp only [List.length_append, List.length_cons] at hfuel
  rw [token?_quotationMark, quoted?_value rfl hread, Option.bind_some]
  simpa using h.newline _ false i' l' fuel (.scalar .quoted text :: tokens)
    (by rw [List.length_cons]; omega)

theorem Yields.double (hcolumn : n ≤ column)
    (h : Yields true 0 more (n :: outer) out) :
    Yields false column (' ' :: (writeDouble cs ++ '\n' :: more)) (n :: outer)
      (.scalar .quoted cs :: out) := by
  have hwritten : writeDouble cs ++ '\n' :: more =
      quotationMark true :: ((cs.flatMap writeEscaped ++ ['"']) ++ '\n' :: more) := rfl
  rw [hwritten]
  refine Yields.quoted true hcolumn (fun i l column hcolumn => ?_) h
  obtain ⟨i', column', hread⟩ := readQuoted?_writeDouble cs ('\n' :: more) [] i l
    (rfl : Gap.none.hasBreak = false) hcolumn
  refine ⟨i', l, column', ?_⟩
  rw [List.append_assoc, List.singleton_append, hread]
  simp [Gap.folded]

theorem Yields.single {indent : Nat} (hallows : allowsSingle cs = true) (hinline : '\n' ∉ cs)
    (hindent : indent ≠ 0) (hcolumn : n ≤ column)
    (h : Yields true 0 more (n :: outer) out) :
    Yields false column (' ' :: (('\'' :: writeSingle indent false cs) ++ '\n' :: more))
      (n :: outer) (.scalar .quoted cs :: out) := by
  simp only [allowsSingle, isClean, Bool.and_eq_true, Bool.not_eq_true', List.all_eq_true]
    at hallows
  obtain ⟨⟨hprintable, hbefore⟩, hafter⟩ := hallows
  -- nothing stands before the first character, and any word can stand for that
  have hnone : ∀ first second : Char → Bool, first 'x' = false →
      hasNeighbours first second cs = false → hasNeighbours first second ('x' :: cs) = false := by
    intro first second hfirst hcs
    cases cs with
    | nil => rfl
    | cons c rest => simp [hasNeighbours, hfirst, hcs]
  refine Yields.quoted false hcolumn (fun i l column hcolumn => ?_) h
  have hstate : SingleState 'x' false .none column := .word hcolumn
  obtain ⟨i', l', column', hread⟩ := readQuoted?_writeSingle hindent [] more i l hstate hprintable
    hinline (hnone _ _ rfl hbefore) (hnone _ _ rfl hafter)
  refine ⟨i', l', column', ?_⟩
  rw [hread]
  simp [Gap.folded]

theorem token?_bar (houter : s.outer = []) :
    s.token? ⟨'|', i, l, column⟩ ps = s.block? true ps := by
  rw [token?, token?_noMark (by simp)]
  exact if_neg (by simp [inFlow, houter])

theorem block?_literal {chomping : Chomping} {increment : Option Nat} {text : List Char}
    {lines rest : List Place} (hcandidate : s.candidate = none)
    (hheader : readHeader? ps = some (chomping, increment, lines))
    (hlines : readBlock? true chomping (max s.inside 1) (increment.map (s.inside - 1 + ·))
      (.margin 0) .empty lines = some (text, rest)) :
    s.block? true ps =
      some { s with
        rest := rest
        tokens := .scalar .literal text :: s.tokens
        keyAllowed := true } := by
  have hdrop : s.dropCandidate? = some s := by
    obtain ⟨places, tokens, columns, allowed, candidate, outer⟩ := s
    cases hcandidate
    rfl
  simp only [block?, hdrop, hheader, hlines, Option.bind_eq_bind, Option.bind_some]
  rfl

theorem Yields.literal (hprintable : ∀ c ∈ cs, isPrintable c = true) (hne : cs ≠ [])
    (hcolumn : n ≤ column) (hmore : StartsNext (n + 1) more)
    (h : Yields true 0 more (n :: outer) out) :
    Yields false column (' ' :: (writeLiteral (n + indentStep) cs ++
        ((if endsWith isBreak cs then [] else ['\n']) ++ more))) (n :: outer)
      (.scalar .literal cs :: out) := by
  have hwritten : writeLiteral (n + indentStep) cs ++
      ((if endsWith isBreak cs then [] else ['\n']) ++ more) =
        '|' :: (indentSign cs ++ chompSign cs ++ '\n' ::
          (writeLines (n + indentStep) true cs ++
            ((if endsWith isBreak cs then [] else ['\n']) ++ more))) := by
    simp [writeLiteral]
  rw [hwritten]
  refine Yields.value (by decide) (by decide) (by decide) (by decide) hcolumn
    fun i l places tokens fuel hfuel => ?_
  obtain ⟨i₁, hheader⟩ := readHeader?_signs cs (writeLines (n + indentStep) true cs ++
    ((if endsWith isBreak cs then [] else ['\n']) ++ more)) (i + 1) l (column + 1 + 1)
  have hleast : max (n + 1) 1 ≤ n + indentStep := by
    rw [indentStep]
    omega
  have hwidth : n + 1 ≤ n + indentStep := Nat.add_le_add_left (Nat.le_succ 1) n
  obtain ⟨i', l', hlines⟩ := readBlock?_literal i₁ (l + 1) hprintable hne hleast hmore hwidth
  have hindent : (if needsIndent cs then some indentStep else none).map (n + 1 - 1 + ·) =
      if needsIndent cs then some (n + indentStep) else none := by
    cases needsIndent cs <;> rfl
  rw [← hindent] at hlines
  rw [token?_bar rfl, block?_literal (s := ⟨places, tokens, n :: outer, false, none, []⟩) rfl
    hheader hlines, Option.bind_some]
  simp only [List.length_append, List.length_cons] at hfuel
  simpa using h.run?_nextPlaces (.scalar .literal cs :: tokens) hmore (by omega)

end Reading

open Reading in
/-- A text as the value of a key reads as one scalar. -/
theorem Reading.Yields.text {out : List Token} {n : Nat} {outer : List Nat}
    (hcolumn : n ≤ column) (hmore : StartsNext (n + 1) more)
    (h : Yields true 0 more (n :: outer) out) :
    Yields false column (' ' :: (writeText (n + indentStep) cs ++ more)) (n :: outer)
      (.scalar (scalarStyle cs) cs :: out) := by
  rw [writeText, scalarStyle]
  cases hstyle : styleOf cs with
  | plain =>
    obtain ⟨hambiguous, hplain⟩ := of_styleOf_plain hstyle
    have hne : cs ≠ [] := by
      rintro rfl
      cases hambiguous
    dsimp only
    rw [List.append_assoc, List.singleton_append]
    exact Yields.plain (.of_allowsPlain hplain) hne hcolumn hmore h
  | single =>
    obtain ⟨hinline, hsingle⟩ := of_styleOf_single hstyle
    dsimp only
    rw [List.append_assoc, List.singleton_append]
    exact Yields.single hsingle hinline (by rw [indentStep]; omega) hcolumn h
  | double =>
    dsimp only
    rw [List.append_assoc, List.singleton_append]
    exact Yields.double hcolumn h
  | literal =>
    obtain ⟨hbreak, hliteral⟩ := of_styleOf_literal hstyle
    have hne : cs ≠ [] := by
      rintro rfl
      cases hbreak
    simp only [allowsLiteral, isClean, Bool.and_eq_true, List.all_eq_true] at hliteral
    dsimp only
    rw [List.append_assoc]
    exact Yields.literal hliteral.1.1 hne hcolumn hmore h

end Fleet.Yaml
