import Fleet.Member.Placement
import Mathlib.Algebra.Order.Group.Nat
import Mathlib.Data.Int.Order.Basic

/-!
# Which member is chosen

A service goes to one of the contenders, the candidates that would use the least memory with it.
Their readings of the processors decide among them if all are known; else the first contender is
taken, whatever the readings.  One unknown reading changes the rule for all contenders, so that the
ranking is no order of the single loads, and ties are resolved by the place in the list.

## Main definitions

* `FirstBy` — the first of the least elements of a list.
* `Member.takesPart` — the candidates.
* `Contends` — a member of a list is a contender with its load.
* `FirstWith` — the first member of a list with a property.

## Main statements

* `firstBy_of_firstLeast` — what a search for a least element finds.
* `mem_tied`, `exists_tied_eq_filterMap` — the tied candidates are the contenders, in their order.
* `placed_by_rule` — the rule, for all lists.
-/

namespace Fleet

/-! ### The first of the least elements -/

section FirstLeast

variable {α β : Type} [LinearOrder β] {compare : α → α → Ordering} {key : α → β}

/-- The first of the least elements: all before it are greater, and none after it is smaller. -/
def FirstBy (key : α → β) (l : List α) (a : α) : Prop :=
  ∃ before after, l = before ++ a :: after ∧ (∀ x ∈ before, key a < key x) ∧
    ∀ x ∈ after, key a ≤ key x

theorem FirstBy.le {l : List α} {a x : α} (h : FirstBy key l a) (hx : x ∈ l) : key a ≤ key x := by
  obtain ⟨before, after, rfl, hbefore, hafter⟩ := h
  rcases List.mem_append.1 hx with hx | hx
  · exact le_of_lt (hbefore x hx)
  · rcases List.mem_cons.1 hx with rfl | hx
    · exact le_rfl
    · exact hafter x hx

theorem FirstBy.mem {l : List α} {a : α} (h : FirstBy key l a) : a ∈ l := by
  obtain ⟨before, after, rfl, -⟩ := h
  simp

theorem firstLeast_cons_cons (a b : α) (rest : List α) :
    firstLeast compare (a :: b :: rest) =
      firstLeast compare ((if compare a b = .gt then b else a) :: rest) := rfl

/-- The search finds the first of the least elements if what it compares are keys. -/
theorem firstBy_of_firstLeast {best a : α} {rest : List α}
    (h : firstLeast compare (best :: rest) = some a)
    (hkey : ∀ x ∈ best :: rest, ∀ y ∈ best :: rest, compare x y = .gt ↔ key y < key x) :
    FirstBy key (best :: rest) a := by
  induction rest generalizing best with
  | nil =>
    cases h
    exact ⟨[], [], rfl, by simp, by simp⟩
  | cons x rest ih =>
    have hx := hkey best (by simp) x (by simp)
    rw [firstLeast_cons_cons] at h
    by_cases hgt : compare best x = .gt
    · rw [if_pos hgt] at h
      have hfirst := ih h fun y hy z hz => hkey y (.tail _ hy) z (.tail _ hz)
      have hless : key a < key best := lt_of_le_of_lt (hfirst.le (.head _)) (hx.1 hgt)
      obtain ⟨before, after, hrest, hbefore, hafter⟩ := hfirst
      exact ⟨best :: before, after, by rw [List.cons_append, ← hrest],
        by simpa using ⟨hless, hbefore⟩, hafter⟩
    · rw [if_neg hgt] at h
      have hle : key best ≤ key x := not_lt.1 fun hlt => hgt (hx.2 hlt)
      have hsub : best :: rest ⊆ best :: x :: rest :=
        List.cons_subset_cons _ (List.subset_cons_self ..)
      obtain ⟨before, after, hrest, hbefore, hafter⟩ :=
        ih h fun y hy z hz => hkey y (hsub hy) z (hsub hz)
      cases before with
      | nil =>
        cases hrest
        exact ⟨[], x :: rest, rfl, by simp, by simpa using ⟨hle, hafter⟩⟩
      | cons first before =>
        obtain ⟨rfl, rfl⟩ := List.cons.inj hrest
        have hless := hbefore best (.head _)
        refine ⟨best :: x :: before, after, rfl, ?_, hafter⟩
        simpa using ⟨hless, lt_of_lt_of_le hless hle, fun y hy => hbefore y (.tail _ hy)⟩

end FirstLeast

theorem firstLeast_eq_none_iff {α : Type} {compare : α → α → Ordering} {l : List α} :
    firstLeast compare l = none ↔ l = [] := by
  cases l <;> simp [firstLeast]

/-! ### Contenders -/

/-- The memory that a member with this load would use with the service; the counters of memory show
no more than their greatest number. -/
def Load.withService (l : Load) (d : Demand) : Nat :=
  min (l.used.toNat + d.memory.toNat) (2 ^ 64 - 1)

theorem toNat_projected (l : Load) (d : Demand) : (projected l d).toNat = l.withService d :=
  toNat_saturatingAdd l.used d.memory

/-- The member takes part in placement: it is available and has reported a load. -/
def Member.takesPart (m : Member) : Bool := m.available && m.load.isSome

/-- The member with the load under which it takes part. -/
def Member.offer? (m : Member) : Option (Member × Load) :=
  if m.available then m.load.map fun l => (m, l) else none

theorem Member.offer?_eq_some_iff {m x : Member} {l : Load} :
    m.offer? = some (x, l) ↔ m = x ∧ m.available = true ∧ m.load = some l := by
  cases h : m.available
  · simp [offer?, h]
  · constructor
    · intro hoffer
      obtain ⟨hload, hm⟩ : m.load = some l ∧ m = x := by simpa [offer?, h] using hoffer
      exact ⟨hm, rfl, hload⟩
    · rintro ⟨rfl, -, hload⟩
      simp [offer?, h, hload]

theorem Member.offer?_eq_none_iff {m : Member} : m.offer? = none ↔ m.takesPart = false := by
  cases hload : m.load <;> cases havailable : m.available <;>
    simp [offer?, takesPart, hload, havailable]

/-- A member contends for a service with its load: it takes part, and no other one of the list that
takes part would use less memory. -/
structure Contends (members : List Member) (d : Demand) (m : Member) (l : Load) : Prop where
  mem : m ∈ members
  available : m.available = true
  load : m.load = some l
  least : ∀ x ∈ members, ∀ lx, x.available = true → x.load = some lx →
    l.withService d ≤ lx.withService d

theorem candidates_eq (members : List Member) :
    candidates members = members.filterMap Member.offer? := by
  rw [candidates, List.filterMap_filter]
  rfl

theorem mem_candidates {members : List Member} {m : Member} {l : Load} :
    (m, l) ∈ candidates members ↔ m ∈ members ∧ m.available = true ∧ m.load = some l := by
  rw [candidates_eq, List.mem_filterMap]
  constructor
  · rintro ⟨x, hx, hoffer⟩
    obtain ⟨rfl, htakes⟩ := Member.offer?_eq_some_iff.1 hoffer
    exact ⟨hx, htakes⟩
  · rintro ⟨hm, hoffer⟩
    exact ⟨m, hm, Member.offer?_eq_some_iff.2 ⟨rfl, hoffer⟩⟩

/-- Contenders are the candidates that would use the least memory. -/
theorem contends_iff {members : List Member} {d : Demand} {m : Member} {l : Load} :
    Contends members d m l ↔ (m, l) ∈ candidates members ∧
      ∀ c ∈ candidates members, l.withService d ≤ c.2.withService d := by
  constructor
  · intro h
    refine ⟨mem_candidates.2 ⟨h.mem, h.available, h.load⟩, fun c hc => ?_⟩
    obtain ⟨hmem, havailable, hload⟩ := mem_candidates.1 hc
    exact h.least c.1 hmem c.2 havailable hload
  · rintro ⟨hmem, hleast⟩
    obtain ⟨hm, havailable, hload⟩ := mem_candidates.1 hmem
    exact ⟨hm, havailable, hload, fun x hx lx hxavailable hxload =>
      hleast (x, lx) (mem_candidates.2 ⟨hx, hxavailable, hxload⟩)⟩

/-- Members that do not take part leave no trace among the candidates. -/
theorem candidates_filter_takesPart (members : List Member) :
    candidates (members.filter Member.takesPart) = candidates members := by
  rw [candidates_eq, candidates_eq, List.filterMap_filter]
  congr 1
  funext m
  split
  · rfl
  · next h => exact (Member.offer?_eq_none_iff.2 (Bool.not_eq_true _ ▸ h)).symm

theorem compare_toNat_eq_gt_iff {a b : UInt64} : compare a b = .gt ↔ b.toNat < a.toNat := by
  rw [Std.compare_eq_gt, UInt64.lt_iff_toNat_lt]

/-- Among candidates there is a least projected memory, and the tied ones are those that have it. -/
theorem exists_tied_eq {members : List Member} (d : Demand) (h : candidates members ≠ []) :
    ∃ c ∈ candidates members,
      (∀ x ∈ candidates members, c.2.withService d ≤ x.2.withService d) ∧
      tied members d = (candidates members).filter fun x => projected x.2 d = projected c.2 d := by
  cases hleast : firstLeast compare ((candidates members).map fun c => projected c.2 d) with
  | none =>
    rw [firstLeast_eq_none_iff, List.map_eq_nil_iff] at hleast
    exact absurd hleast h
  | some lowest =>
    obtain ⟨c, rest, hc⟩ := List.exists_cons_of_ne_nil h
    have hfirst : FirstBy UInt64.toNat ((candidates members).map fun c => projected c.2 d)
        lowest := by
      rw [hc, List.map_cons] at hleast ⊢
      exact firstBy_of_firstLeast hleast fun _ _ _ _ => compare_toNat_eq_gt_iff
    obtain ⟨x, hx, rfl⟩ := List.mem_map.1 hfirst.mem
    refine ⟨x, hx, fun y hy => ?_, by simp only [tied, hleast]⟩
    rw [← toNat_projected, ← toNat_projected]
    exact hfirst.le (List.mem_map_of_mem hy)

theorem tied_of_candidates_eq_nil {members : List Member} (d : Demand)
    (h : candidates members = []) : tied members d = [] := by
  simp [tied, h, firstLeast]

theorem tied_eq_nil_iff {members : List Member} {d : Demand} :
    tied members d = [] ↔ candidates members = [] := by
  refine ⟨fun h => Classical.byContradiction fun hne => ?_, tied_of_candidates_eq_nil d⟩
  obtain ⟨c, hc, -, htied⟩ := exists_tied_eq d hne
  have hmem : c ∈ tied members d := by rw [htied]; simpa using hc
  rw [h] at hmem
  cases hmem

theorem mem_tied {members : List Member} {d : Demand} {m : Member} {l : Load} :
    (m, l) ∈ tied members d ↔ Contends members d m l := by
  rw [contends_iff]
  by_cases hnil : candidates members = []
  · simp [tied_of_candidates_eq_nil d hnil, hnil]
  · obtain ⟨x, hx, hleast, htied⟩ := exists_tied_eq d hnil
    rw [htied, List.mem_filter, decide_eq_true_eq, ← UInt64.toNat_inj, toNat_projected,
      toNat_projected]
    refine and_congr_right fun hmem => ⟨fun heq c hc => ?_, fun h => ?_⟩
    · rw [heq]
      exact hleast c hc
    · exact le_antisymm (h x hx) (hleast (m, l) hmem)

/-! ### The choice -/

/-- A member is the first one in a list with a property. -/
def FirstWith (P : Member → Prop) (members : List Member) (m : Member) : Prop :=
  ∃ before after, members = before ++ m :: after ∧ P m ∧ ∀ x ∈ before, ¬ P x

theorem FirstWith.eq {P : Member → Prop} {members : List Member} {m m' : Member}
    (h : FirstWith P members m) (h' : FirstWith P members m') : m = m' := by
  obtain ⟨before, after, rfl, hm, hbefore⟩ := h
  obtain ⟨before', after', heq, hm', hbefore'⟩ := h'
  rcases List.append_eq_append_iff.1 heq with ⟨more, rfl, hrest⟩ | ⟨more, rfl, hrest⟩
  · cases more with
    | nil => exact (List.cons.inj hrest).1
    | cons x more =>
      obtain ⟨rfl, -⟩ := List.cons.inj hrest
      exact absurd hm (hbefore' m (by simp))
  · cases more with
    | nil => exact (List.cons.inj hrest).1.symm
    | cons x more =>
      obtain ⟨rfl, -⟩ := List.cons.inj hrest
      exact absurd hm' (hbefore m' (by simp))

/-- All contenders have a known reading of their processors. -/
def AllKnown (members : List Member) (d : Demand) : Prop :=
  ∀ m l, Contends members d m l → l.cpuKnown = true

/-- The contender is not busier than any other one. -/
def LeastBusy (members : List Member) (d : Demand) (m : Member) : Prop :=
  ∃ l, Contends members d m l ∧ ∀ x lx, Contends members d x lx → l.cpu.key ≤ lx.cpu.key

/-- The contenders are picked out of the list one by one, and so stand in its order. -/
theorem exists_tied_eq_filterMap (members : List Member) (d : Demand) :
    ∃ pick : Member → Option (Member × Load), tied members d = members.filterMap pick ∧
      ∀ x ∈ members, ∀ y l, pick x = some (y, l) ↔ x = y ∧ Contends members d y l := by
  by_cases hnil : candidates members = []
  · refine ⟨fun _ => none, by simp [tied_of_candidates_eq_nil d hnil], fun x _ y l => ?_⟩
    refine ⟨fun h => by simp at h, fun h => ?_⟩
    have hmem := mem_tied.2 h.2
    rw [tied_of_candidates_eq_nil d hnil] at hmem
    exact (List.not_mem_nil hmem).elim
  · obtain ⟨c, hc, hleast, htied⟩ := exists_tied_eq d hnil
    refine ⟨fun x => x.offer?.filter fun x => projected x.2 d = projected c.2 d, ?_,
      fun x hx y l => ?_⟩
    · rw [htied, candidates_eq, List.filter_filterMap]
    · have hmem : (y, l) ∈ tied members d ↔
          (y, l) ∈ candidates members ∧ projected l d = projected c.2 d := by
        rw [htied, List.mem_filter, decide_eq_true_eq]
      rw [Option.filter_eq_some_iff, Member.offer?_eq_some_iff, decide_eq_true_eq, ← mem_tied,
        hmem, mem_candidates]
      constructor
      · rintro ⟨⟨rfl, htakes⟩, heq⟩
        exact ⟨rfl, ⟨hx, htakes⟩, heq⟩
      · rintro ⟨rfl, ⟨-, htakes⟩, heq⟩
        exact ⟨⟨rfl, htakes⟩, heq⟩

/-- What is first among the contenders is first in the list. -/
theorem firstWith_of_tied {members : List Member} {d : Demand} {m : Member} {l : Load}
    {before after : List (Member × Load)} (h : tied members d = before ++ (m, l) :: after)
    {P : Member → Prop} (hm : P m) (hP : ∀ x, P x → ∃ lx, Contends members d x lx)
    (hbefore : ∀ c ∈ before, ¬ P c.1) : FirstWith P members m := by
  obtain ⟨pick, htied, hpick⟩ := exists_tied_eq_filterMap members d
  rw [htied, List.filterMap_eq_append_iff] at h
  obtain ⟨front, rest, hmembers, rfl, hrest⟩ := h
  obtain ⟨skipped, y, back, rfl, hskipped, hy, -⟩ := List.filterMap_eq_cons_iff.1 hrest
  obtain ⟨rfl, -⟩ := (hpick y (by simp [hmembers]) m l).1 hy
  refine ⟨front ++ skipped, back, by rw [hmembers, List.append_assoc], hm, fun x hx hPx => ?_⟩
  obtain ⟨lx, hcontends⟩ := hP x hPx
  have hxmem : x ∈ members := hcontends.mem
  have hpicked := (hpick x hxmem x lx).2 ⟨rfl, hcontends⟩
  rcases List.mem_append.1 hx with hx | hx
  · exact hbefore (x, lx) (List.mem_filterMap.2 ⟨x, hx, hpicked⟩) hPx
  · exact Option.some_ne_none _ (hpicked.symm.trans (hskipped x hx))

theorem all_cpuKnown_iff {members : List Member} {d : Demand} :
    ((tied members d).all fun c => c.2.cpuKnown) = true ↔ AllKnown members d := by
  rw [List.all_eq_true]
  exact ⟨fun h m l hml => h (m, l) (mem_tied.2 hml), fun h c hc => h c.1 c.2 (mem_tied.1 hc)⟩

/-- Contenders whose readings are known are ranked by these. -/
theorem compareLoads_eq_gt_iff {members : List Member} {d : Demand} {m x : Member} {l lx : Load}
    (hl : Contends members d m l) (hx : Contends members d x lx) (hknown : AllKnown members d) :
    compareLoads l lx d = .gt ↔ lx.cpu.key < l.cpu.key := by
  have hsame : l.withService d = lx.withService d :=
    le_antisymm (hl.least x hx.mem lx hx.available hx.load)
      (hx.least m hl.mem l hl.available hl.load)
  have hprojected : projected l d = projected lx d := by
    rw [← UInt64.toNat_inj, toNat_projected, toNat_projected, hsame]
  have hlknown : l.cpuKnown = true := hknown m l hl
  have hxknown : lx.cpuKnown = true := hknown x lx hx
  simp only [compareLoads, hprojected, Std.compare_self, hlknown, hxknown, Bool.and_self, if_true,
    Binary64.compare?_eq_some hlknown hxknown, Option.getD_some]
  exact Std.compare_eq_gt

/-- If all readings are known, the first of the least busy tied candidates is chosen. -/
theorem exists_firstBy_tied {members : List Member} {d : Demand} {m : Member}
    (hknown : AllKnown members d) (h : selectFrom members d = some m) :
    ∃ l, FirstBy (fun c : Member × Load => c.2.cpu.key) (tied members d) (m, l) := by
  simp only [selectFrom, all_cpuKnown_iff.2 hknown, if_true] at h
  obtain ⟨⟨m', l⟩, hleast, rfl⟩ := Option.map_eq_some_iff.1 h
  refine ⟨l, ?_⟩
  cases htied : tied members d with
  | nil => simp [htied, firstLeast] at hleast
  | cons c rest =>
    rw [htied] at hleast
    refine firstBy_of_firstLeast hleast fun a ha b hb => ?_
    rw [← htied] at ha hb
    exact compareLoads_eq_gt_iff (mem_tied.1 ha) (mem_tied.1 hb) hknown

/-- If some reading is unknown, the first tied candidate is chosen. -/
theorem selectFrom_of_not_allKnown {members : List Member} {d : Demand}
    (hunknown : ¬ AllKnown members d) :
    selectFrom members d = (tied members d).head?.map Prod.fst := by
  have hall : ((tied members d).all fun c => c.2.cpuKnown) = false :=
    Bool.eq_false_iff.2 fun hall => hunknown (all_cpuKnown_iff.1 hall)
  simp only [selectFrom, hall, Bool.false_eq_true, if_false]

/-- If all readings are known, the first of the least busy contenders is chosen. -/
theorem firstWith_leastBusy {members : List Member} {d : Demand} {m : Member}
    (hknown : AllKnown members d) (h : selectFrom members d = some m) :
    FirstWith (LeastBusy members d) members m := by
  obtain ⟨l, hfirst⟩ := exists_firstBy_tied hknown h
  have hle : ∀ x lx, Contends members d x lx → l.cpu.key ≤ lx.cpu.key := fun x lx hx =>
    hfirst.le (mem_tied.2 hx)
  have hcontends : Contends members d m l := mem_tied.1 hfirst.mem
  obtain ⟨before, after, htied, hbefore, -⟩ := hfirst
  refine firstWith_of_tied htied ⟨l, hcontends, hle⟩ (fun x hx => ⟨hx.choose, hx.choose_spec.1⟩) ?_
  rintro ⟨x, lx⟩ hx ⟨lx', hx', hxle⟩
  have hmem : Contends members d x lx := mem_tied.1 (by rw [htied]; simp [hx])
  obtain rfl : lx = lx' := Option.some.inj (hmem.load.symm.trans hx'.load)
  exact absurd (hbefore _ hx) (not_lt.2 (hxle m l hcontends))

/-- If some reading is unknown, the first contender is chosen. -/
theorem firstWith_contends {members : List Member} {d : Demand} {m : Member}
    (hunknown : ¬ AllKnown members d) (h : selectFrom members d = some m) :
    FirstWith (fun x => ∃ l, Contends members d x l) members m := by
  rw [selectFrom_of_not_allKnown hunknown] at h
  obtain ⟨⟨m', l⟩, hhead, rfl⟩ := Option.map_eq_some_iff.1 h
  obtain ⟨after, htied⟩ := List.head?_eq_some_iff.1 hhead
  have hcontends : Contends members d m' l := mem_tied.1 (by rw [htied]; simp)
  have hfront : tied members d = [] ++ (m', l) :: after := htied
  exact firstWith_of_tied hfront ⟨l, hcontends⟩ (fun _ hx => hx) (by simp)

/-- Nothing is chosen exactly if there are no candidates. -/
theorem selectFrom_eq_none_iff_candidates {members : List Member} {d : Demand} :
    selectFrom members d = none ↔ candidates members = [] := by
  rw [← tied_eq_nil_iff (d := d)]
  simp only [selectFrom]
  split
  · rw [Option.map_eq_none_iff, firstLeast_eq_none_iff]
  · rw [Option.map_eq_none_iff, List.head?_eq_none_iff]

theorem selectFrom_eq_none_iff {members : List Member} {d : Demand} :
    selectFrom members d = none ↔ ∀ m ∈ members, m.takesPart = false := by
  rw [selectFrom_eq_none_iff_candidates, candidates_eq, List.filterMap_eq_nil_iff]
  exact forall₂_congr fun m _ => Member.offer?_eq_none_iff

theorem Contends.takesPart {members : List Member} {d : Demand} {m : Member} {l : Load}
    (h : Contends members d m l) : m.takesPart = true := by
  simp [Member.takesPart, h.available, h.load]

/-- The chosen member is a contender. -/
theorem exists_contends_of_selectFrom {members : List Member} {d : Demand} {m : Member}
    (h : selectFrom members d = some m) : ∃ l, Contends members d m l := by
  by_cases hknown : AllKnown members d
  · obtain ⟨-, -, -, ⟨l, hl, -⟩, -⟩ := firstWith_leastBusy hknown h
    exact ⟨l, hl⟩
  · obtain ⟨-, -, -, hl, -⟩ := firstWith_contends hknown h
    exact hl

/-- Where some member is a candidate, one is chosen. -/
theorem exists_selectFrom_eq {members : List Member} {d : Demand} {m : Member} {l : Load}
    (h : (m, l) ∈ candidates members) : ∃ m', selectFrom members d = some m' := by
  refine Option.ne_none_iff_exists'.1 fun hnone => ?_
  exact List.ne_nil_of_mem h (selectFrom_eq_none_iff_candidates.1 hnone)

theorem FirstWith.selectFrom_eq {members : List Member} {d : Demand} {m : Member}
    {P : Member → Prop} (h : FirstWith P members m)
    (hP : ∀ x, P x → ∃ lx, Contends members d x lx)
    (hfirst : ∀ x, selectFrom members d = some x → FirstWith P members x) :
    selectFrom members d = some m := by
  obtain ⟨-, -, -, hm, -⟩ := id h
  obtain ⟨l, hl⟩ := hP m hm
  obtain ⟨m', hm'⟩ := exists_selectFrom_eq (contends_iff.1 hl).1
  rw [hm', h.eq (hfirst m' hm')]

/-- Contending does not depend on the order of the list. -/
theorem Contends.perm {members others : List Member} {d : Demand} {m : Member} {l : Load}
    (h : Contends members d m l) (hperm : others.Perm members) : Contends others d m l :=
  ⟨hperm.mem_iff.2 h.mem, h.available, h.load, fun x hx => h.least x (hperm.mem_iff.1 hx)⟩

/-- Readings that are known and all different decide alone. -/
theorem selectFrom_perm {members others : List Member} {d : Demand}
    (hknown : AllKnown members d)
    (hdiffer : ∀ m l x lx, Contends members d m l → Contends members d x lx →
      l.cpu.key = lx.cpu.key → m = x)
    (hperm : others.Perm members) : selectFrom others d = selectFrom members d := by
  have hknown' : AllKnown others d := fun m l h => hknown m l (h.perm hperm.symm)
  cases hselect : selectFrom others d with
  | none =>
    rw [selectFrom_eq_none_iff] at hselect
    exact (selectFrom_eq_none_iff.2 fun m hm => hselect m (hperm.mem_iff.2 hm)).symm
  | some m =>
    obtain ⟨-, -, -, ⟨l, hl, hle⟩, -⟩ := firstWith_leastBusy hknown' hselect
    obtain ⟨m', hm'⟩ := exists_selectFrom_eq (contends_iff.1 (hl.perm hperm.symm)).1
    obtain ⟨-, -, -, ⟨l', hl', hle'⟩, -⟩ := firstWith_leastBusy hknown hm'
    have hkey : l.cpu.key = l'.cpu.key :=
      le_antisymm (hle m' l' (hl'.perm hperm)) (hle' m l (hl.perm hperm.symm))
    rw [hm', hdiffer m l m' l' (hl.perm hperm.symm) hl' hkey]

/-! ### What placement sees of a member -/

/-- Two loads are the same to placement. -/
def Load.SameUse (l l' : Load) : Prop := l.used = l'.used ∧ l.cpu = l'.cpu

theorem Load.SameUse.projected {l l' : Load} (h : l.SameUse l') (d : Demand) :
    projected l d = projected l' d := by
  rw [Fleet.projected, Fleet.projected, h.1]

theorem Load.SameUse.cpuKnown {l l' : Load} (h : l.SameUse l') : l.cpuKnown = l'.cpuKnown := by
  rw [Load.cpuKnown, Load.cpuKnown, h.2]

theorem Load.SameUse.compareLoads {l l' : Load} (h : l.SameUse l') (x : Load) (d : Demand) :
    compareLoads l x d = compareLoads l' x d := by
  have hknown : l.cpuKnown = l'.cpuKnown := h.cpuKnown
  rw [Fleet.compareLoads, Fleet.compareLoads, h.projected, hknown, h.2]

/-- Of two searches that start with loads that are the same to placement, both find what they start
with, or both find the same later element. -/
theorem firstLeast_cons_congr (d : Demand) (a a' : Member × Load) (h : a.2.SameUse a'.2)
    (rest : List (Member × Load)) :
    (firstLeast (fun x y => compareLoads x.2 y.2 d) (a :: rest) = some a ∧
      firstLeast (fun x y => compareLoads x.2 y.2 d) (a' :: rest) = some a') ∨
    firstLeast (fun x y => compareLoads x.2 y.2 d) (a :: rest) =
      firstLeast (fun x y => compareLoads x.2 y.2 d) (a' :: rest) := by
  induction rest with
  | nil => exact .inl ⟨rfl, rfl⟩
  | cons x rest ih =>
    rw [firstLeast_cons_cons, firstLeast_cons_cons a', h.compareLoads]
    split
    · exact .inr rfl
    · exact ih

/-- The candidates that are tied if a first one is put before others. -/
theorem tied_cons_congr {m m' : Member} {l l' : Load} (rest : List Member) (d : Demand)
    (hm : m.offer? = some (m, l)) (hm' : m'.offer? = some (m', l')) (h : l.SameUse l') :
    tied (m :: rest) d = tied (m' :: rest) d ∨
      ∃ others, tied (m :: rest) d = (m, l) :: others ∧
        tied (m' :: rest) d = (m', l') :: others := by
  have hcandidates : candidates (m :: rest) = (m, l) :: candidates rest := by
    rw [candidates_eq, candidates_eq, List.filterMap_cons_some hm]
  have hcandidates' : candidates (m' :: rest) = (m', l') :: candidates rest := by
    rw [candidates_eq, candidates_eq, List.filterMap_cons_some hm']
  simp only [tied, hcandidates, hcandidates', List.map_cons, h.projected]
  cases hleast : firstLeast compare
      (projected l' d :: (candidates rest).map fun c => projected c.2 d) with
  | none => exact .inl rfl
  | some lowest =>
    by_cases hlowest : projected l' d = lowest
    · exact .inr ⟨(candidates rest).filter fun c => projected c.2 d = lowest,
        by simp [h.projected, hlowest], by simp [hlowest]⟩
    · exact .inl (by simp [h.projected, hlowest])

/-- Placement sees of a member whether it is available, and the used memory and the processors of
its load.  So if the first member is another one that looks the same, either the first one is chosen
both times, or the same later one. -/
theorem selectFrom_cons_congr (m m' : Member) {l l' : Load} (rest : List Member) (d : Demand)
    (havailable : m.available = m'.available) (hload : m.load = some l) (hload' : m'.load = some l')
    (h : l.SameUse l') :
    (selectFrom (m :: rest) d = some m ∧ selectFrom (m' :: rest) d = some m') ∨
      selectFrom (m :: rest) d = selectFrom (m' :: rest) d := by
  cases hm : m.available with
  | false =>
    have htied : tied (m :: rest) d = tied (m' :: rest) d := by
      have hnone : m.offer? = none := by simp [Member.offer?, hm]
      have hnone' : m'.offer? = none := by simp [Member.offer?, ← havailable, hm]
      have hcandidates : candidates (m :: rest) = candidates (m' :: rest) := by
        rw [candidates_eq, candidates_eq, List.filterMap_cons_none hnone,
          List.filterMap_cons_none hnone']
      rw [tied, tied, hcandidates]
    exact .inr (by rw [selectFrom, selectFrom, htied])
  | true =>
    have hoffer : m.offer? = some (m, l) := by simp [Member.offer?, hm, hload]
    have hoffer' : m'.offer? = some (m', l') := by simp [Member.offer?, ← havailable, hm, hload']
    rcases tied_cons_congr rest d hoffer hoffer' h with htied | ⟨others, htied, htied'⟩
    · exact .inr (by rw [selectFrom, selectFrom, htied])
    · simp only [selectFrom, htied, htied', List.all_cons, h.cpuKnown]
      split
      · rcases firstLeast_cons_congr d (m, l) (m', l') h others with
          ⟨hfirst, hfirst'⟩ | heq
        · exact .inl ⟨by rw [hfirst]; rfl, by rw [hfirst']; rfl⟩
        · exact .inr (by rw [heq])
      · exact .inl ⟨rfl, rfl⟩

/-! ### The rule -/

/-- The rule of placement.  Nothing is chosen exactly if no member takes part.  If all contenders
have a known reading, the first of the least busy ones is chosen; else the first contender is.  So
the chosen member takes part, members that do not take part change nothing, and readings that are
known and all different make the order of the list irrelevant. -/
theorem placed_by_rule (members : List Member) (d : Demand) :
    (selectFrom members d = none ↔ ∀ m ∈ members, m.takesPart = false) ∧
    (AllKnown members d → ∀ m,
      selectFrom members d = some m ↔ FirstWith (LeastBusy members d) members m) ∧
    (¬ AllKnown members d → ∀ m,
      selectFrom members d = some m ↔
        FirstWith (fun x => ∃ l, Contends members d x l) members m) ∧
    (∀ m, selectFrom members d = some m → m ∈ members ∧ m.takesPart = true) ∧
    (∀ others : List Member,
      others.filter Member.takesPart = members.filter Member.takesPart →
        selectFrom others d = selectFrom members d) ∧
    (AllKnown members d →
      (∀ m l x lx, Contends members d m l → Contends members d x lx →
        l.cpu.key = lx.cpu.key → m = x) →
      ∀ others : List Member, others.Perm members →
        selectFrom others d = selectFrom members d) := by
  refine ⟨selectFrom_eq_none_iff, fun hknown m => ⟨firstWith_leastBusy hknown, fun h => ?_⟩,
    fun hunknown m => ⟨firstWith_contends hunknown, fun h => ?_⟩, fun m h => ?_,
    fun others h => ?_, fun hknown hdiffer others => selectFrom_perm hknown hdiffer⟩
  · exact h.selectFrom_eq (fun x hx => ⟨hx.choose, hx.choose_spec.1⟩)
      fun x => firstWith_leastBusy hknown
  · exact h.selectFrom_eq (fun x hx => hx) fun x => firstWith_contends hunknown
  · obtain ⟨l, hl⟩ := exists_contends_of_selectFrom h
    exact ⟨hl.mem, hl.takesPart⟩
  · have hcandidates : candidates others = candidates members := by
      rw [← candidates_filter_takesPart others, h, candidates_filter_takesPart]
    have htied : tied others d = tied members d := by rw [tied, tied, hcandidates]
    rw [selectFrom, selectFrom, htied]

/-- A member that has used some memory, with a reading of its processors in percent. -/
def halfUsed (id : String) (percent : Int) : Member :=
  ⟨⟨id, ""⟩, some ⟨500, 8192, .ofInt percent, .epoch⟩, true⟩

/-- Of two members with the same memory the idle one is chosen, wherever it stands. -/
theorem idle_chosen :
    AllKnown [halfUsed "a" 90, halfUsed "c" 10] ⟨256⟩ ∧
      selectFrom [halfUsed "a" 90, halfUsed "c" 10] ⟨256⟩ = some (halfUsed "c" 10) ∧
      selectFrom [halfUsed "c" 10, halfUsed "a" 90] ⟨256⟩ =
        selectFrom [halfUsed "a" 90, halfUsed "c" 10] ⟨256⟩ := by
  have hload : ∀ m l, Contends [halfUsed "a" 90, halfUsed "c" 10] ⟨256⟩ m l →
      (m = halfUsed "a" 90 ∧ l = ⟨500, 8192, .ofInt 90, .epoch⟩) ∨
        (m = halfUsed "c" 10 ∧ l = ⟨500, 8192, .ofInt 10, .epoch⟩) := by
    intro m l h
    have hmem := h.mem
    simp only [List.mem_cons, List.not_mem_nil, or_false] at hmem
    rcases hmem with rfl | rfl
    · exact .inl ⟨rfl, (Option.some.inj h.load).symm⟩
    · exact .inr ⟨rfl, (Option.some.inj h.load).symm⟩
  have hknown : AllKnown [halfUsed "a" 90, halfUsed "c" 10] ⟨256⟩ := by
    intro m l h
    rcases hload m l h with ⟨-, rfl⟩ | ⟨-, rfl⟩ <;> decide +kernel
  refine ⟨hknown, by decide +kernel, ?_⟩
  refine (placed_by_rule [halfUsed "a" 90, halfUsed "c" 10] ⟨256⟩).2.2.2.2.2 hknown ?_ _
    (List.Perm.swap ..)
  intro m l x lx h hx heq
  rcases hload m l h with ⟨rfl, rfl⟩ | ⟨rfl, rfl⟩ <;>
    rcases hload x lx hx with ⟨rfl, rfl⟩ | ⟨rfl, rfl⟩
  · rfl
  · exact absurd heq (by decide +kernel)
  · exact absurd heq (by decide +kernel)
  · rfl

/-- One contender without a reading makes the readings of all others irrelevant. -/
example :
    (selectFrom [halfUsed "a" 90, halfUsed "b" (-1), halfUsed "c" 10] ⟨256⟩).map Member.id =
      some "a" := by
  decide +kernel

end Fleet
