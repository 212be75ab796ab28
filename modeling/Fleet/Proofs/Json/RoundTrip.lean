import Fleet.Json.Reader
import Fleet.Json.Writer
import Fleet.Proofs.Number.Decimal

/-!
# What is written is read

A value without fractions, negative numbers and literals that stand for nothing reads back from its
written form. Each reader is shown to take exactly what its writer gave off the front of a text;
only a number has to know what follows, for its digits have no end of their own.
-/

namespace Fleet.Json

/-! ### Strings -/

/-- A control character and the four digits that are written for it. -/
theorem pushUnit_control : ∀ n < 32, ∃ a b c d,
    asciiBytes (Digit.hexadecimal Digit.lower 4 n) = [a, b, c, d] ∧ hex4? a b c d = some n ∧
      String.utf8EncodeChar (Char.ofNat n) = [n.toUInt8] ∧ n < 0xD800 := by
  intro n hn
  refine ⟨_, _, _, _, rfl, ?_, ?_, by omega⟩
  · revert n
    decide
  · revert n
    decide

theorem readString_control {b : UInt8} (hb : b < 0x20) (rest acc : Bytes) :
    readString (0x5C :: 0x75 :: asciiBytes (Digit.hexadecimal Digit.lower 4 b.toNat) ++ rest)
      ⟨acc, none, true⟩ = readString rest ⟨b :: acc, none, true⟩ := by
  have hn : b.toNat < 32 := UInt8.lt_iff_toNat_lt.1 hb
  obtain ⟨w, x, y, z, heq, hhex, hchar, -⟩ := pushUnit_control _ hn
  have hlow : ¬ (0xDC00 ≤ b.toNat) := by omega
  have hhigh : ¬ (0xD800 ≤ b.toNat) := by omega
  rw [heq]
  simp [readString, hhex, Draft.pushUnit, hlow, hhigh, hchar]

theorem readString_plain {b : UInt8} (hquote : b ≠ 0x22) (hslash : b ≠ 0x5C) (hb : ¬ b < 0x20)
    (rest acc : Bytes) :
    readString (b :: rest) ⟨acc, none, true⟩ = readString rest ⟨b :: acc, none, true⟩ := by
  rw [readString]
  · simp [hquote, hslash, hb, Draft.push]
  · intro _ _ _ _ _ h
    exact absurd h hslash
  · intro _ _ h
    exact absurd h hslash

/-- A byte is read back from its escaped form. -/
theorem readString_escapeByte (b : UInt8) (rest acc : Bytes) :
    readString (escapeByte b ++ rest) ⟨acc, none, true⟩ =
      readString rest ⟨b :: acc, none, true⟩ := by
  by_cases hshort : b ∈ [0x22, 0x5C, 0x08, 0x09, 0x0A, 0x0C, 0x0D]
  · simp only [List.mem_cons, List.not_mem_nil, or_false] at hshort
    rcases hshort with rfl | rfl | rfl | rfl | rfl | rfl | rfl <;> rfl
  · simp only [List.mem_cons, List.not_mem_nil, or_false, not_or] at hshort
    obtain ⟨hquote, hslash, hback, htab, hline, hpage, hreturn⟩ := hshort
    by_cases hb : b < 0x20
    · have hescape : escapeByte b =
          0x5C :: 0x75 :: asciiBytes (Digit.hexadecimal Digit.lower 4 b.toNat) := by
        simp [escapeByte, hquote, hslash, hback, htab, hline, hpage, hreturn, hb]
      rw [hescape]
      exact readString_control hb rest acc
    · have hescape : escapeByte b = [b] := by
        simp [escapeByte, hquote, hslash, hback, htab, hline, hpage, hreturn, hb]
      rw [hescape]
      exact readString_plain hquote hslash hb rest acc

theorem readString_escape (bytes rest acc : Bytes) :
    readString (escape bytes ++ 0x22 :: rest) ⟨acc, none, true⟩ =
      some (Draft.finish ⟨bytes.reverse ++ acc, none, true⟩, rest) := by
  induction bytes generalizing acc with
  | nil => rfl
  | cons b bytes ih =>
    have hsplit : escape (b :: bytes) ++ 0x22 :: rest =
        escapeByte b ++ (escape bytes ++ 0x22 :: rest) := by simp [escape]
    rw [hsplit, readString_escapeByte, ih]
    simp

/-- A text is read back from between its quotation marks. -/
theorem readString_utf8 (s : String) (rest : Bytes) :
    readString (escape (Text.utf8 s) ++ 0x22 :: rest) ⟨[], none, true⟩ = some (some s, rest) := by
  rw [readString_escape]
  simp [Draft.finish]

theorem quoted_append (s : String) (rest : Bytes) :
    quoted s ++ rest = 0x22 :: (escape (Text.utf8 s) ++ 0x22 :: rest) := by
  simp [quoted]

/-! ### Numbers -/

/-- What follows a number does not go on with it. -/
def endsNumber : Bytes → Bool
  | [] => true
  | b :: _ => !isDigit b && b != 0x2E && b != 0x65 && b != 0x45

theorem isDigit_toUInt8 {c : Char} (hc : c.isDigit = true) :
    isDigit c.toNat.toUInt8 = true ∧ c.toNat.toUInt8.toNat - 0x30 = Decimal.digitValue c := by
  have hc := Decimal.toNat_of_isDigit hc
  have hnat : c.toNat.toUInt8.toNat = c.toNat := by
    rw [Nat.toUInt8, UInt8.toNat_ofNat']
    omega
  constructor
  · simp only [isDigit, UInt8.le_iff_toNat_le, hnat, Bool.and_eq_true, decide_eq_true_eq]
    exact hc
  · rw [hnat]
    rfl

theorem spanDigits_cons {b : UInt8} (hb : isDigit b = true) (rest : Bytes) :
    spanDigits (b :: rest) =
      ((b.toNat - 0x30) :: (spanDigits rest).1, (spanDigits rest).2) := by
  simp [spanDigits, hb]

theorem spanDigits_asciiBytes {cs : List Char} (hcs : ∀ c ∈ cs, c.isDigit = true) {rest : Bytes}
    (hrest : endsNumber rest = true) :
    spanDigits (asciiBytes cs ++ rest) = (cs.map Decimal.digitValue, rest) := by
  induction cs with
  | nil =>
    cases rest with
    | nil => rfl
    | cons b rest =>
      simp only [endsNumber, Bool.and_eq_true, Bool.not_eq_true'] at hrest
      simp [spanDigits, asciiBytes, hrest.1.1.1]
  | cons c cs ih =>
    have hc := isDigit_toUInt8 (hcs c (.head _))
    have htail := ih fun d hd => hcs d (.tail _ hd)
    rw [asciiBytes, List.map_cons, List.cons_append, spanDigits_cons hc.1, hc.2, ← asciiBytes,
      htail, List.map_cons]

/-- The value of a run of digits that follow a number. -/
theorem le_accumulate (cs : List Char) (s : Nat) : s ≤ Decimal.accumulate s cs := by
  induction cs generalizing s with
  | nil => exact Nat.le_refl s
  | cons c cs ih =>
    have hle := ih (10 * s + Decimal.digitValue c)
    simp only [Decimal.accumulate, List.foldl_cons] at hle ⊢
    omega

theorem appendDigits_of_le (cs : List Char) (s k : Nat)
    (h : Decimal.accumulate s cs ≤ maxSignificand) :
    appendDigits s (cs.map Decimal.digitValue) k =
      (Decimal.accumulate s cs, k + cs.length, 0) := by
  induction cs generalizing s k with
  | nil => rfl
  | cons c cs ih =>
    have hstep : 10 * s + Decimal.digitValue c ≤ maxSignificand :=
      Nat.le_trans (le_accumulate cs _) h
    rw [List.map_cons, appendDigits, if_pos hstep, ih _ _ h, List.length_cons]
    simp only [Decimal.accumulate, List.foldl_cons, Prod.mk.injEq, and_true, true_and]
    omega

theorem readWhole_digits (n : Nat) {rest : Bytes} (hrest : endsNumber rest = true) :
    readWhole (asciiBytes (Decimal.digits n) ++ rest) =
      some ((Decimal.digits n).map Decimal.digitValue, rest) := by
  have hspan := spanDigits_asciiBytes (fun _ => Decimal.isDigit_of_mem_digits (n := n)) hrest
  rw [readWhole, hspan]
  rcases Nat.eq_zero_or_pos n with rfl | hn
  · rw [Decimal.digits, if_pos (by omega)]
    rfl
  · obtain ⟨d, ds, heq, hpos, hlt⟩ := Decimal.digits_eq_cons hn
    have hd : Decimal.digitValue (Decimal.digit d) = d := (Decimal.digit_spec d hlt).2
    rw [heq, List.map_cons, hd]
    split
    · next h => cases h
    · next h =>
      simp only [Prod.mk.injEq, List.cons.injEq] at h
      omega
    · rfl

theorem readFraction_of_endsNumber {rest : Bytes} (hrest : endsNumber rest = true) :
    readFraction rest = some (none, rest) := by
  rw [readFraction.eq_def]
  split
  · cases hrest
  · rfl

theorem readExponent_of_endsNumber {rest : Bytes} (hrest : endsNumber rest = true) :
    readExponent rest = some (none, rest) := by
  cases rest with
  | nil => rfl
  | cons b rest =>
    simp only [endsNumber, Bool.and_eq_true, bne_iff_ne] at hrest
    simp [readExponent, hrest.1.2, hrest.2]

theorem value_digits {n : Nat} (hn : n ≤ maxSignificand) :
    Literal.value ⟨false, (Decimal.digits n).map Decimal.digitValue, none, none⟩ =
      .natural n.toUInt64 := by
  have happend := appendDigits_of_le (Decimal.digits n) 0 0
    (by rw [Decimal.accumulate_digits]; exact hn)
  rw [Decimal.accumulate_digits] at happend
  simp [Literal.value, happend]

theorem asciiBytes_digits_eq_cons (n : Nat) :
    ∃ b rest, asciiBytes (Decimal.digits n) = b :: rest ∧ isDigit b = true := by
  have hall : ∀ c ∈ Decimal.digits n, c.isDigit = true := fun _ => Decimal.isDigit_of_mem_digits
  cases hds : Decimal.digits n with
  | nil => exact absurd hds (Decimal.digits_ne_nil n)
  | cons c cs => exact ⟨_, _, rfl, (isDigit_toUInt8 (hall c (hds ▸ .head _))).1⟩

/-- A numeral of 64 bits is read back. -/
theorem readNumber_digits (n : UInt64) {rest : Bytes} (hrest : endsNumber rest = true) :
    readNumber (asciiBytes (Decimal.digits n.toNat) ++ rest) = some (.natural n, rest) := by
  have hn : n.toNat ≤ maxSignificand := Nat.le_of_lt_succ n.toNat_lt
  have hread : readUnsigned false (asciiBytes (Decimal.digits n.toNat) ++ rest) =
      some (.natural n, rest) := by
    simp [readUnsigned, readWhole_digits n.toNat hrest, readFraction_of_endsNumber hrest,
      readExponent_of_endsNumber hrest, value_digits hn]
  obtain ⟨b, bs, hds, hb⟩ := asciiBytes_digits_eq_cons n.toNat
  rw [hds] at hread ⊢
  rw [← hread, List.cons_append, readNumber.eq_def]
  split
  · next h =>
    cases h
    cases hb
  · rfl

/-! ### Values -/

mutual

/-- A value whose numbers are natural and whose strings are texts. -/
def plain : Json → Bool
  | .number (.natural _) => true
  | .number _ => false
  | .string s => s.isSome
  | .array items => plainItems items
  | .object members => plainMembers members
  | _ => true

/-- Every item of an array is plain. -/
def plainItems : List Json → Bool
  | [] => true
  | v :: rest => v.plain && plainItems rest

/-- Every member of an object is plain, its key included. -/
def plainMembers : List (Option String × Json) → Bool
  | [] => true
  | (k, v) :: rest => k.isSome && v.plain && plainMembers rest

end

/-- The first byte of a value: no white space and no closing bracket. -/
def opensValue (b : UInt8) : Bool := !isSpace b && b != 0x5D

theorem opensValue_of_isDigit {b : UInt8} (hb : isDigit b = true) : opensValue b = true := by
  have hne : ∀ c, isDigit c = false → b ≠ c := by
    rintro c hc rfl
    cases hb.symm.trans hc
  simp [opensValue, isSpace, hne 0x20 rfl, hne 0x0A rfl, hne 0x0D rfl, hne 0x09 rfl, hne 0x5D rfl]

theorem write_eq_cons {j : Json} (hj : j.plain = true) :
    ∃ b rest, j.write = b :: rest ∧ opensValue b = true := by
  match j, hj with
  | .null, _ => exact ⟨_, _, rfl, rfl⟩
  | .bool true, _ => exact ⟨_, _, rfl, rfl⟩
  | .bool false, _ => exact ⟨_, _, rfl, rfl⟩
  | .number (.natural n), _ =>
    obtain ⟨b, rest, heq, hb⟩ := asciiBytes_digits_eq_cons n.toNat
    exact ⟨b, rest, heq, opensValue_of_isDigit hb⟩
  | .string s, _ => exact ⟨_, _, rfl, rfl⟩
  | .array [], _ => exact ⟨_, _, rfl, rfl⟩
  | .array (_ :: _), _ => exact ⟨_, _, rfl, rfl⟩
  | .object [], _ => exact ⟨_, _, rfl, rfl⟩
  | .object ((_, _) :: _), _ => exact ⟨_, _, rfl, rfl⟩

theorem skipSpace_cons {b : UInt8} (hb : isSpace b = false) (rest : Bytes) :
    skipSpace (b :: rest) = b :: rest := by
  simp [skipSpace, hb]

theorem skipSpace_of_opensValue {b : UInt8} (hb : opensValue b = true) (rest : Bytes) :
    skipSpace (b :: rest) = b :: rest := by
  simp only [opensValue, Bool.and_eq_true, Bool.not_eq_true'] at hb
  exact skipSpace_cons hb.1 rest

theorem readValue_of_isDigit (fuel : Nat) {b : UInt8} (hb : isDigit b = true) (rest : Bytes) :
    readValue (fuel + 1) (b :: rest) =
      (readNumber (b :: rest)).map fun (n, r) => (.number n, r) := by
  rw [readValue, skipSpace_of_opensValue (opensValue_of_isDigit hb)]
  split
  · next h => cases h
  all_goals try
    next h =>
      cases h
      cases hb
  · rfl

theorem tail_writeItems (v w : Json) (items : List Json) :
    (writeItems (v :: w :: items)).tail = v.write ++ 0x2C :: (writeItems (w :: items)).tail := rfl

theorem tail_writeMembers (k l : Option String) (v w : Json)
    (members : List (Option String × Json)) :
    (writeMembers ((k, v) :: (l, w) :: members)).tail =
      quoted (k.getD "") ++
        0x3A :: (v.write ++ 0x2C :: (writeMembers ((l, w) :: members)).tail) := by
  simp [writeMembers]

theorem readItems_next {fuel : Nat} {b rest : Bytes} {v : Json}
    (hv : readValue fuel b = some (v, 0x2C :: rest)) (done : List Json) :
    readItems (fuel + 1) b done = readItems fuel rest (v :: done) := by
  rw [readItems, hv]
  rfl

theorem readItems_last {fuel : Nat} {b rest : Bytes} {v : Json}
    (hv : readValue fuel b = some (v, 0x5D :: rest)) (done : List Json) :
    readItems (fuel + 1) b done = some (.array (done.reverse ++ [v]), rest) := by
  rw [readItems, hv, ← List.reverse_cons]
  rfl

theorem readMembers_next {fuel : Nat} {b rest : Bytes} {v : Json}
    (hv : readValue fuel b = some (v, 0x2C :: rest)) (k : String)
    (done : List (Option String × Json)) :
    readMembers (fuel + 1) (quoted k ++ 0x3A :: b) done =
      readMembers fuel rest ((some k, v) :: done) := by
  rw [readMembers, quoted_append, skipSpace_cons rfl]
  simp only [readString_utf8, skipSpace_cons (b := 0x3A) rfl, skipSpace_cons (b := 0x2C) rfl, hv]

theorem readMembers_last {fuel : Nat} {b rest : Bytes} {v : Json}
    (hv : readValue fuel b = some (v, 0x7D :: rest)) (k : String)
    (done : List (Option String × Json)) :
    readMembers (fuel + 1) (quoted k ++ 0x3A :: b) done =
      some (.object (done.reverse ++ [(some k, v)]), rest) := by
  rw [readMembers, quoted_append, skipSpace_cons rfl]
  simp only [readString_utf8, skipSpace_cons (b := 0x3A) rfl, skipSpace_cons (b := 0x7D) rfl, hv,
    List.reverse_cons]

mutual

/-- A value is read back off the front of a text. -/
theorem readValue_write : ∀ (j : Json) (fuel : Nat) (rest : Bytes), j.plain = true →
    j.write.length ≤ fuel → endsNumber rest = true →
    readValue fuel (j.write ++ rest) = some (j, rest)
  | _, 0, _, hj, hfuel, _ => by
    obtain ⟨b, bs, heq, -⟩ := write_eq_cons hj
    rw [heq] at hfuel
    cases hfuel
  | .null, _ + 1, _, _, _, _ => rfl
  | .bool true, _ + 1, _, _, _, _ => rfl
  | .bool false, _ + 1, _, _, _, _ => rfl
  | .number (.natural n), fuel + 1, rest, _, _, hrest => by
    obtain ⟨b, bs, hds, hb⟩ := asciiBytes_digits_eq_cons n.toNat
    have hread := readNumber_digits n hrest
    rw [hds, List.cons_append] at hread
    rw [write, writeNumber, hds, List.cons_append, readValue_of_isDigit fuel hb, hread]
    rfl
  | .string (some s), fuel + 1, rest, _, _, _ => by
    have hread := readString_utf8 s rest
    rw [write, Option.getD_some, quoted_append, readValue, skipSpace_cons rfl]
    simp only [hread, Option.map_some]
  | .array [], _ + 1, _, _, _, _ => rfl
  | .array (v :: items), fuel + 1, rest, hj, hfuel, _ => by
    have hread := readItems_writeItems (v :: items) fuel rest [] (by simp) hj
      (Nat.le_of_succ_le_succ hfuel)
    rw [plain, plainItems, Bool.and_eq_true] at hj
    obtain ⟨b, bs, hv, hb⟩ := write_eq_cons hj.1
    have htail : (writeItems (v :: items)).tail ++ rest =
        b :: (bs ++ writeItems items ++ rest) := by simp [writeItems, hv]
    have hwrite : (Json.array (v :: items)).write ++ rest =
        0x5B :: ((writeItems (v :: items)).tail ++ rest) := rfl
    rw [htail] at hread
    rw [hwrite, htail, readValue, skipSpace_cons rfl]
    simp only [skipSpace_of_opensValue hb]
    split
    · next h =>
      cases h
      cases hb
    · exact hread
  | .object [], _ + 1, _, _, _, _ => rfl
  | .object ((k, v) :: members), fuel + 1, rest, hj, hfuel, _ => by
    have hread := readMembers_writeMembers ((k, v) :: members) fuel rest [] (by simp) hj
      (Nat.le_of_succ_le_succ hfuel)
    exact hread

/-- The items of an array are read back up to its closing bracket. -/
theorem readItems_writeItems : ∀ (items : List Json) (fuel : Nat) (rest : Bytes)
    (done : List Json), items ≠ [] → plainItems items = true →
    (writeItems items).tail.length ≤ fuel →
    readItems fuel ((writeItems items).tail ++ rest) done =
      some (.array (done.reverse ++ items), rest)
  | [], _, _, _, h, _, _ => absurd rfl h
  | [v], 0, _, _, _, _, hfuel => by simp [writeItems] at hfuel
  | [v], fuel + 1, rest, done, _, hitems, hfuel => by
    rw [plainItems, Bool.and_eq_true] at hitems
    have htail : (writeItems [v]).tail = v.write ++ [0x5D] := rfl
    rw [htail, List.length_append, List.length_singleton] at hfuel
    have hread := readValue_write v fuel (0x5D :: rest) hitems.1 (by omega) rfl
    rw [htail, List.append_assoc]
    exact readItems_last hread done
  | v :: w :: items, 0, _, _, _, _, hfuel => by simp [tail_writeItems] at hfuel
  | v :: w :: items, fuel + 1, rest, done, _, hitems, hfuel => by
    rw [plainItems, Bool.and_eq_true] at hitems
    rw [tail_writeItems, List.length_append, List.length_cons] at hfuel
    have hread := readValue_write v fuel (0x2C :: ((writeItems (w :: items)).tail ++ rest))
      hitems.1 (by omega) rfl
    have hnext := readItems_writeItems (w :: items) fuel rest (v :: done) (by simp) hitems.2
      (by omega)
    rw [tail_writeItems, List.append_assoc, List.cons_append, readItems_next hread, hnext]
    simp

/-- The members of an object are read back up to its closing brace. -/
theorem readMembers_writeMembers : ∀ (members : List (Option String × Json)) (fuel : Nat)
    (rest : Bytes) (done : List (Option String × Json)), members ≠ [] →
    plainMembers members = true → (writeMembers members).tail.length ≤ fuel →
    readMembers fuel ((writeMembers members).tail ++ rest) done =
      some (.object (done.reverse ++ members), rest)
  | [], _, _, _, h, _, _ => absurd rfl h
  | (none, _) :: _, _, _, _, _, h, _ => by simp [plainMembers] at h
  | [(some k, v)], 0, _, _, _, _, hfuel => by simp [writeMembers] at hfuel
  | [(some k, v)], fuel + 1, rest, done, _, hmembers, hfuel => by
    simp only [plainMembers, Option.isSome_some, Bool.true_and, Bool.and_true] at hmembers
    have htail : (writeMembers [(some k, v)]).tail = quoted k ++ 0x3A :: (v.write ++ [0x7D]) := by
      simp [writeMembers]
    simp only [htail, List.length_append, List.length_cons, List.length_nil] at hfuel
    have hread := readValue_write v fuel (0x7D :: rest) hmembers (by omega) rfl
    have happend : quoted k ++ 0x3A :: (v.write ++ [0x7D]) ++ rest =
        quoted k ++ 0x3A :: (v.write ++ 0x7D :: rest) := by simp
    rw [htail, happend, readMembers_last hread]
  | (some k, v) :: (l, w) :: members, 0, _, _, _, _, hfuel => by
    simp [tail_writeMembers] at hfuel
  | (some k, v) :: (l, w) :: members, fuel + 1, rest, done, _, hmembers, hfuel => by
    rw [plainMembers, Bool.and_eq_true, Option.isSome_some, Bool.true_and] at hmembers
    simp only [tail_writeMembers, List.length_append, List.length_cons] at hfuel
    have hread := readValue_write v fuel
      (0x2C :: ((writeMembers ((l, w) :: members)).tail ++ rest)) hmembers.1 (by omega) rfl
    have hnext := readMembers_writeMembers ((l, w) :: members) fuel rest ((some k, v) :: done)
      (by simp) hmembers.2 (by omega)
    rw [tail_writeMembers, Option.getD_some, List.append_assoc, List.cons_append,
      List.append_assoc, List.cons_append, readMembers_next hread, hnext]
    simp

end

/-- What is written is read. -/
theorem read?_write {j : Json} (hj : j.plain = true) : read? j.write = some j := by
  have hread := readValue_write j (2 * j.write.length + 2) [] hj (by omega) rfl
  rw [List.append_nil] at hread
  simp [read?, hread, skipSpace]

end Fleet.Json
