import Fleet.Proofs.Member.Placement
import Mathlib.Data.Prod.Lex

/-!
# One ranking, two searches

Loads are ranked in pairs, while a service is placed in two stages: first the candidates that would
use the least memory, then among them by the readings of the processors.  Where all readings are
known, the ranking in pairs is the order of pairs of numbers, memory before processors, and one
search through all candidates finds what the two stages find.  One unknown reading is enough to
spoil this: such a load ties with every other one of the same memory, so that ties are not
transitive any more.

## Main definitions

* `Load.rank` — the place of a load in the ranking.
* `unbeaten` — no candidate is preferred to this one.

## Main statements

* `compareLoads_swap` — the ranking turned around.
* `FirstBy.of_filter` — the first of the least elements, found in two stages.
* `ranked_in_one_pass` — the order of the ranking, and what both searches find.
-/

namespace Fleet

/-! ### The first of the least elements, in two stages -/

section TwoStages

variable {α β γ : Type} [LinearOrder β] [LinearOrder γ] (coarse : α → β) {fine : α → γ}

/-- What comes first among the elements with the least coarse key comes first by both keys. -/
theorem FirstBy.of_filter {l : List α} {a : α} (hleast : ∀ x ∈ l, coarse a ≤ coarse x)
    (h : FirstBy fine (l.filter fun x => coarse x = coarse a) a) :
    FirstBy (fun x => toLex (coarse x, fine x)) l a := by
  obtain ⟨front, back, hsplit, hfront, hback⟩ := h
  obtain ⟨before, rest, rfl, rfl, hrest⟩ := List.filter_eq_append_iff.1 hsplit
  obtain ⟨skipped, after, rfl, hskipped, -, rfl⟩ := List.filter_eq_cons_iff.1 hrest
  have hgreater : ∀ x ∈ before ++ skipped ++ a :: after, coarse x ≠ coarse a →
      coarse a < coarse x := by
    intro x hx hne
    exact lt_of_le_of_ne (hleast x (by simpa using hx)) hne.symm
  refine ⟨before ++ skipped, after, by simp, ?_, ?_⟩
  · intro x hx
    rw [Prod.Lex.toLex_lt_toLex]
    by_cases hsame : coarse x = coarse a
    · have hbefore : x ∈ before := by
        rcases List.mem_append.1 hx with hx | hx
        · exact hx
        · exact absurd (decide_eq_true hsame) (hskipped x hx)
      exact .inr ⟨hsame.symm, hfront x (List.mem_filter.2 ⟨hbefore, decide_eq_true hsame⟩)⟩
    · exact .inl (hgreater x (List.mem_append_left _ hx) hsame)
  · intro x hx
    rw [Prod.Lex.toLex_le_toLex]
    by_cases hsame : coarse x = coarse a
    · exact .inr ⟨hsame.symm, hback x (List.mem_filter.2 ⟨hx, decide_eq_true hsame⟩)⟩
    · exact .inl (hgreater x (by simp [hx]) hsame)

end TwoStages

variable {members : List Member} {d : Demand} {a b : Load}

/-! ### The order of the ranking -/

/-- Swapping two loads turns the ranking around, whether their readings are known or not. -/
theorem compareLoads_swap (a b : Load) (d : Demand) :
    compareLoads b a d = (compareLoads a b d).swap := by
  have hmemory : compare (projected b d) (projected a d) =
      (compare (projected a d) (projected b d)).swap := Std.OrientedCmp.eq_swap
  rw [compareLoads, compareLoads, hmemory]
  cases compare (projected a d) (projected b d) with
  | lt => rfl
  | gt => rfl
  | eq =>
    simp only [Ordering.swap_eq, Bool.and_comm b.cpuKnown, Binary64.compare?_swap a.cpu b.cpu]
    split
    · cases a.cpu.compare? b.cpu <;> rfl
    · rfl

/-- The place of a load in the ranking: its memory with the service, then its processors. -/
def Load.rank (l : Load) (d : Demand) : ℕ ×ₗ ℤ := toLex (l.withService d, l.cpu.key)

/-- Loads with known readings are ranked by their places. -/
theorem compareLoads_eq_lt_iff (ha : a.cpuKnown = true) (hb : b.cpuKnown = true) :
    compareLoads a b d = .lt ↔ a.rank d < b.rank d := by
  rw [Load.rank, Load.rank, Prod.Lex.toLex_lt_toLex, ← toNat_projected, ← toNat_projected,
    compareLoads]
  cases hmemory : compare (projected a d) (projected b d) with
  | lt =>
    have hlt : (projected a d).toNat < (projected b d).toNat :=
      UInt64.lt_iff_toNat_lt.1 (Std.compare_eq_lt.1 hmemory)
    simp [hlt]
  | gt =>
    have hlt : (projected b d).toNat < (projected a d).toNat := compare_toNat_eq_gt_iff.1 hmemory
    simp [hlt.ne', hlt.not_gt]
  | eq =>
    have heq : projected a d = projected b d := Std.LawfulEqCmp.eq_of_compare hmemory
    simp [heq, ha, hb, Binary64.compare?_eq_some ha hb, Std.compare_eq_lt]

theorem compareLoads_eq_gt_iff_rank (ha : a.cpuKnown = true) (hb : b.cpuKnown = true) :
    compareLoads a b d = .gt ↔ b.rank d < a.rank d := by
  rw [← compareLoads_eq_lt_iff hb ha, compareLoads_swap a b, Ordering.swap_eq_lt]

/-! ### What the searches find -/

/-- No candidate is preferred to this one. -/
def unbeaten (cs : List (Member × Load)) (d : Demand) (c : Member × Load) : Bool :=
  cs.all fun x => compareLoads x.2 c.2 d ≠ .lt

/-- Among candidates with known readings the first one with the least rank is the first one to which
no candidate is preferred. -/
theorem find?_unbeaten_eq_some {cs : List (Member × Load)} {c : Member × Load}
    (hknown : ∀ x ∈ cs, x.2.cpuKnown = true) (h : FirstBy (fun x => x.2.rank d) cs c) :
    cs.find? (unbeaten cs d) = some c := by
  have hc : c.2.cpuKnown = true := hknown c h.mem
  have hunbeaten : unbeaten cs d c = true := by
    rw [unbeaten, List.all_eq_true]
    intro x hx
    rw [decide_eq_true_eq, ne_eq, compareLoads_eq_lt_iff (hknown x hx) hc, not_lt]
    exact h.le hx
  obtain ⟨before, after, rfl, hbefore, -⟩ := h
  refine List.find?_eq_some_iff_append.2 ⟨hunbeaten, before, after, rfl, fun x hx => ?_⟩
  have hx' : x ∈ before ++ c :: after := List.mem_append_left _ hx
  rw [Bool.not_eq_true', unbeaten, List.all_eq_false]
  refine ⟨c, by simp, ?_⟩
  rw [decide_eq_true_eq, ne_eq, not_not, compareLoads_eq_lt_iff hc (hknown x hx')]
  exact hbefore x hx

/-- One search through all candidates. -/
theorem firstLeast_eq_find? {cs : List (Member × Load)}
    (hknown : ∀ x ∈ cs, x.2.cpuKnown = true) :
    firstLeast (fun x y => compareLoads x.2 y.2 d) cs = cs.find? (unbeaten cs d) := by
  cases cs with
  | nil => rfl
  | cons first rest =>
    have hfound : firstLeast (fun x y => compareLoads x.2 y.2 d) (first :: rest) ≠ none := by
      simp [firstLeast_eq_none_iff]
    obtain ⟨c, hc⟩ := Option.ne_none_iff_exists'.1 hfound
    have hfirst : FirstBy (fun x => x.2.rank d) (first :: rest) c :=
      firstBy_of_firstLeast hc fun x hx y hy =>
        compareLoads_eq_gt_iff_rank (hknown x hx) (hknown y hy)
    rw [hc, find?_unbeaten_eq_some hknown hfirst]

/-- The search in two stages. -/
theorem selectFrom_eq_find? (hknown : ∀ c ∈ candidates members, c.2.cpuKnown = true) :
    selectFrom members d =
      ((candidates members).find? (unbeaten (candidates members) d)).map Prod.fst := by
  by_cases hnil : candidates members = []
  · rw [selectFrom_eq_none_iff_candidates.2 hnil, hnil]
    rfl
  · obtain ⟨lowest, hlowest, hleast, htied⟩ := exists_tied_eq d hnil
    have hall : AllKnown members d := fun m l h => hknown (m, l) (contends_iff.1 h).1
    obtain ⟨m, hm⟩ := exists_selectFrom_eq (d := d) hlowest
    obtain ⟨l, hfirst⟩ := exists_firstBy_tied hall hm
    obtain ⟨-, hmost⟩ := contends_iff.1 (mem_tied.1 hfirst.mem)
    have hsame : l.withService d = lowest.2.withService d :=
      le_antisymm (hmost lowest hlowest) (hleast _ (contends_iff.1 (mem_tied.1 hfirst.mem)).1)
    have hfilter : tied members d =
        (candidates members).filter fun c => c.2.withService d = l.withService d := by
      rw [htied, hsame]
      refine List.filter_congr fun c _ => ?_
      simp only [← UInt64.toNat_inj, toNat_projected]
    rw [hfilter] at hfirst
    have hrank : FirstBy (fun c => c.2.rank d) (candidates members) (m, l) :=
      FirstBy.of_filter (fun c : Member × Load => c.2.withService d) hmost hfirst
    rw [hm, find?_unbeaten_eq_some hknown hrank]
    rfl

/-! ### One ranking -/

/-- **The ranking and the choice.**  Swapping two loads turns the ranking around.  On loads with
known readings it is a total preorder.  If all candidates have known readings, one search through
all of them by this ranking finds what the two stages find: the first candidate in the order of the
list to which none is preferred. -/
theorem ranked_in_one_pass (d : Demand) :
    (∀ a b, compareLoads b a d = (compareLoads a b d).swap) ∧
    (∀ s : Set Load, (∀ l ∈ s, l.cpuKnown = true) →
      (∀ a ∈ s, compareLoads a a d = .eq) ∧
      (∀ a ∈ s, ∀ b ∈ s, compareLoads a b d ≠ .gt ∨ compareLoads b a d ≠ .gt) ∧
      (∀ a ∈ s, ∀ b ∈ s, ∀ c ∈ s, compareLoads a b d ≠ .gt → compareLoads b c d ≠ .gt →
        compareLoads a c d ≠ .gt)) ∧
    (∀ members, (∀ c ∈ candidates members, c.2.cpuKnown = true) →
      let best := firstLeast (fun x y => compareLoads x.2 y.2 d) (candidates members)
      selectFrom members d = best.map Prod.fst ∧
        best = (candidates members).find? (unbeaten (candidates members) d)) := by
  refine ⟨fun a b => compareLoads_swap a b d, fun s hs => ⟨?_, ?_, ?_⟩, fun members hknown => ?_⟩
  · intro a _
    have hswap : compareLoads a a d = (compareLoads a a d).swap := compareLoads_swap a a d
    cases h : compareLoads a a d with
    | eq => rfl
    | lt | gt =>
      rw [h] at hswap
      cases hswap
  · intro a ha b hb
    rw [ne_eq, ne_eq, compareLoads_eq_gt_iff_rank (hs a ha) (hs b hb),
      compareLoads_eq_gt_iff_rank (hs b hb) (hs a ha), not_lt, not_lt]
    exact le_total ..
  · intro a ha b hb c hc hab hbc
    rw [ne_eq, compareLoads_eq_gt_iff_rank (hs a ha) (hs b hb), not_lt] at hab
    rw [ne_eq, compareLoads_eq_gt_iff_rank (hs b hb) (hs c hc), not_lt] at hbc
    rw [ne_eq, compareLoads_eq_gt_iff_rank (hs a ha) (hs c hc), not_lt]
    exact hab.trans hbc
  · intro best
    have hbest : best = (candidates members).find? (unbeaten (candidates members) d) :=
      firstLeast_eq_find? hknown
    exact ⟨hbest ▸ selectFrom_eq_find? hknown, hbest⟩

/-- A load with some used memory and a reading of the processors in percent. -/
def loadOf (used : UInt64) (percent : Int) : Load := ⟨used, 8192, .ofInt percent, .epoch⟩

/-- Of three members with the same memory the first of the two idle ones is found both ways; and a
load that is not behind a busier one is not behind a fuller one either if that one is not. -/
theorem idle_found_in_one_pass :
    let members := [halfUsed "b" 90, halfUsed "c" 10, halfUsed "a" 10]
    let best := firstLeast (fun x y => compareLoads x.2 y.2 ⟨256⟩) (candidates members)
    (∀ c ∈ candidates members, c.2.cpuKnown = true) ∧
      selectFrom members ⟨256⟩ = some (halfUsed "c" 10) ∧
      best.map Prod.fst = some (halfUsed "c" 10) ∧
      (loadOf 500 10).cpuKnown = true ∧ (loadOf 500 90).cpuKnown = true ∧
      (loadOf 900 5).cpuKnown = true ∧
      compareLoads (loadOf 500 10) (loadOf 900 5) ⟨256⟩ ≠ .gt := by
  intro members best
  have hknown : ∀ c ∈ candidates members, c.2.cpuKnown = true := by decide +kernel
  have hbest : best.map Prod.fst = some (halfUsed "c" 10) := by decide +kernel
  have hidle : (loadOf 500 10).cpuKnown = true := by decide +kernel
  have hbusy : (loadOf 500 90).cpuKnown = true := by decide +kernel
  have hfull : (loadOf 900 5).cpuKnown = true := by decide +kernel
  obtain ⟨-, hpreorder, hsearch⟩ := ranked_in_one_pass ⟨256⟩
  obtain ⟨-, -, htrans⟩ := hpreorder {l | l.cpuKnown = true} fun _ hl => hl
  refine ⟨hknown, (hsearch members hknown).1.trans hbest, hbest, hidle, hbusy, hfull, ?_⟩
  exact htrans _ hidle _ hbusy _ hfull (by decide +kernel) (by decide +kernel)

/-- A load without a reading ties with two others that do not tie. -/
example :
    compareLoads (loadOf 500 90) (loadOf 500 (-1)) ⟨256⟩ = .eq ∧
      compareLoads (loadOf 500 (-1)) (loadOf 500 10) ⟨256⟩ = .eq ∧
      compareLoads (loadOf 500 90) (loadOf 500 10) ⟨256⟩ = .gt := by
  decide +kernel

end Fleet
