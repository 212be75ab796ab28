import Fleet.Member.Head

/-!
# The head comes first

The head in a node's view is one of the members that the node counts as available, and none of these
has a smaller id.  Whatever a node knows of others, the head is the node itself or has a smaller id,
since the node counts itself as available.

## Main statements

* `Roster.head_mem_available`, `Roster.head_le` — the head is the least of the available members.
* `Roster.head_eq_self_or_lt`, `Roster.head_lt` — the head and the node itself.
-/

namespace Fleet

theorem lt_of_compare_eq_gt {a b : String} (h : compare a b = .gt) : b < a := by
  have hgt : compareOfLessAndEq a b = .gt := h
  rw [compareOfLessAndEq] at hgt
  split at hgt
  · cases hgt
  · next hlt =>
    split at hgt
    · cases hgt
    · next hne => exact Std.lt_of_le_of_ne (String.not_lt.1 hlt) (Ne.symm hne)

theorem le_of_compare_ne_gt {a b : String} (h : compare a b ≠ .gt) : a ≤ b := by
  have hngt : compareOfLessAndEq a b ≠ .gt := h
  rw [compareOfLessAndEq] at hngt
  split at hngt
  · next hlt => exact Std.le_of_lt hlt
  · split at hngt
    · next heq => exact Std.le_of_eq heq
    · exact absurd rfl hngt

/-- The search for a least id finds one of the elements, and none of them has a smaller id. -/
theorem least_foldl (rest : List Member) (best : Member) :
    let least := rest.foldl (fun b x => if compare b.id x.id = .gt then x else b) best
    least ∈ best :: rest ∧ ∀ x ∈ best :: rest, least.id ≤ x.id := by
  induction rest generalizing best with
  | nil =>
    refine ⟨List.mem_singleton_self _, fun x hx => ?_⟩
    rw [List.mem_singleton.1 hx]
    exact Std.le_refl _
  | cons x rest ih =>
    intro least
    obtain ⟨hmem, hle⟩ := ih (if compare best.id x.id = .gt then x else best)
    change least ∈ _ at hmem
    change ∀ y : Member, y ∈ _ → least.id ≤ y.id at hle
    have hheld := hle _ List.mem_cons_self
    by_cases hgt : compare best.id x.id = .gt
    · rw [if_pos hgt] at hmem hle hheld
      refine ⟨List.mem_cons_of_mem _ hmem, fun y hy => ?_⟩
      rcases List.mem_cons.1 hy with rfl | hy
      · exact Std.le_trans hheld (Std.le_of_lt (lt_of_compare_eq_gt hgt))
      · exact hle y hy
    · rw [if_neg hgt] at hmem hle hheld
      refine ⟨?_, fun y hy => ?_⟩
      · rcases List.mem_cons.1 hmem with heq | hmem
        · exact heq ▸ List.mem_cons_self
        · exact List.mem_cons_of_mem _ (List.mem_cons_of_mem _ hmem)
      · rcases List.mem_cons.1 hy with rfl | hy
        · exact hheld
        · rcases List.mem_cons.1 hy with rfl | hy
          · exact Std.le_trans hheld (le_of_compare_ne_gt hgt)
          · exact hle y (List.mem_cons_of_mem _ hy)

/-- Going on with the search for a least id leaves the element held or finds a smaller one. -/
theorem foldl_least (a : Member) (rest : List Member) (best : Member)
    (h : best = a ∨ best.id < a.id) :
    let least := rest.foldl (fun b x => if compare b.id x.id = .gt then x else b) best
    least = a ∨ least.id < a.id := by
  induction rest generalizing best with
  | nil => exact h
  | cons x rest ih =>
    refine ih _ ?_
    dsimp only
    by_cases hgt : compare best.id x.id = .gt
    · have hlt : x.id < best.id := lt_of_compare_eq_gt hgt
      rw [if_pos hgt]
      rcases h with rfl | h
      · exact .inr hlt
      · exact .inr (String.lt_trans hlt h)
    · rwa [if_neg hgt]

namespace Roster

/-- The members that are available start with the node itself. -/
theorem available_eq_cons {r : Roster} (h : r.self.available = true) :
    ∃ rest, r.members.filter (·.available) = r.self :: rest := by
  rw [members]
  rw [List.filter_cons, if_pos h]
  exact ⟨_, rfl⟩

/-- The head is found by going through the available members. -/
theorem exists_head_eq {r : Roster} (h : r.self.available = true) :
    ∃ rest, r.available = r.self :: rest ∧
      r.head = rest.foldl (fun b x => if compare b.id x.id = .gt then x else b) r.self := by
  obtain ⟨rest, hrest⟩ := available_eq_cons h
  refine ⟨rest, hrest, ?_⟩
  rw [head, headOf, hrest]
  rfl

/-- The head is one of the members that the node counts as available. -/
theorem head_mem_available {r : Roster} (h : r.self.available = true) : r.head ∈ r.available := by
  obtain ⟨rest, hrest, hhead⟩ := exists_head_eq h
  rw [hhead, hrest]
  exact (least_foldl rest r.self).1

/-- No member that the node counts as available has a smaller id than the head. -/
theorem head_le {r : Roster} (h : r.self.available = true) {m : Member} (hm : m ∈ r.available) :
    r.head.id ≤ m.id := by
  obtain ⟨rest, hrest, hhead⟩ := exists_head_eq h
  rw [hhead]
  exact (least_foldl rest r.self).2 m (hrest ▸ hm)

theorem head_eq_self_or_lt {r : Roster} (h : r.self.available = true) :
    r.head = r.self ∨ r.head.id < r.selfId := by
  obtain ⟨rest, -, hhead⟩ := exists_head_eq h
  rw [hhead]
  exact foldl_least r.self rest r.self (.inl rfl)

/-- A head that is another node has a smaller id. -/
theorem head_lt {r : Roster} (h : r.self.available = true) (hne : r.head.id ≠ r.selfId) :
    r.head.id < r.selfId := by
  rcases head_eq_self_or_lt h with heq | hlt
  · exact absurd (congrArg Member.id heq) hne
  · exact hlt

end Roster

end Fleet
