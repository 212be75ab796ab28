import Fleet.Uuid

/-!
# The written form of an identifier reads back
-/

namespace Fleet.Uuid

theorem length_plain (u : Uuid) : u.plain.length = 32 := Digit.length_hexadecimal ..

theorem ofPlain?_plain (u : Uuid) : ofPlain? u.plain = some u := by
  have hvalue : u.value.toNat % Nat.pow 16 32 = u.value.toNat :=
    Nat.mod_eq_of_lt u.value.isLt
  rw [ofPlain?, if_pos u.length_plain, plain, Digit.number?_hexadecimal Digit.value?_lower, hvalue]
  simp

/-- Thirty-two digits, group by group. -/
theorem exists_groups {cs : List Char} (hcs : cs.length = 32) :
    ∃ a b c d e, cs = a ++ (b ++ (c ++ (d ++ e))) ∧ a.length = 8 ∧ b.length = 4 ∧ c.length = 4 ∧
      d.length = 4 ∧ e.length = 12 := by
  have hfour : ∀ n, (cs.drop n).take 4 ++ cs.drop (n + 4) = cs.drop n := by
    intro n
    rw [← List.drop_drop, List.take_append_drop]
  refine ⟨cs.take 8, (cs.drop 8).take 4, (cs.drop 12).take 4, (cs.drop 16).take 4, cs.drop 20,
    ?_, ?_, ?_, ?_, ?_, ?_⟩
  · rw [hfour 16, hfour 12, hfour 8, List.take_append_drop]
  all_goals simp [hcs]

/-- The hyphens stand where the reader looks for them, and the groups between them. -/
theorem ofHyphenated?_hyphenate {cs : List Char} (hcs : cs.length = 32) :
    ofHyphenated? (hyphenate cs) = ofPlain? cs := by
  obtain ⟨a, b, c, d, e, rfl, ha, hb, hc, hd, he⟩ := exists_groups hcs
  have hwritten : hyphenate (a ++ (b ++ (c ++ (d ++ e)))) =
      a ++ '-' :: (b ++ '-' :: (c ++ '-' :: (d ++ '-' :: e))) := by
    simp (disch := omega) [hyphenate, List.drop_append, ha, hb, hc, List.drop_eq_nil_of_le]
  rw [hwritten]
  have hhyphens : [8, 13, 18, 23].all (fun i => (a ++ '-' :: (b ++ '-' :: (c ++ '-' ::
      (d ++ '-' :: e))))[i]? == some '-') = true := by
    simp [List.getElem?_append, ha, hb, hc, hd]
  simp only [ofHyphenated?, hhyphens]
  simp (disch := omega) [List.drop_append, ha, hb, hc, hd, he, List.drop_eq_nil_of_le]

theorem length_hyphenate {cs : List Char} (hcs : cs.length = 32) :
    (hyphenate cs).length = 36 := by
  simp [hyphenate, hcs]

/-- What is written for an identifier reads back. -/
theorem parse?_text (u : Uuid) : parse? u.text = some u := by
  have hlen := length_hyphenate u.length_plain
  simp only [parse?, text, String.toList_ofList, hlen]
  rw [ofHyphenated?_hyphenate u.length_plain, ofPlain?_plain]

end Fleet.Uuid
