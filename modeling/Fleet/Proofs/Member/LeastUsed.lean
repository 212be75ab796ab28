import Fleet.Proofs.Member.Placement
import Mathlib.Data.List.Nodup

/-!
# Candidates that use different amounts of memory

Placement ranks candidates by sums that stop at the greatest number of the counters of memory.
Below that number the capped sums are in the order of the exact ones, which is the order of the
used memory.  So if no two candidates use the same amount, the one that uses the least is chosen,
whatever the request and whatever the processors do.  If even the smallest sum reaches the greatest
number, then all candidates look the same, different as they are, and the rule for ties decides
among all of them.

## Main definitions

* `UsesDiffer` — no two candidates use the same amount of memory.
* `LeastUsed` — a candidate uses the least memory.
* `Member.withReading` — a member with another reading of its processors.

## Main statements

* `LeastUsed.eq_of_contends` — below the cap only the candidate that uses the least contends.
* `tied_eq_candidates` — at the cap all candidates are tied.
* `UsesDiffer.chosen` — what is chosen, for all lists and requests.
-/

namespace Fleet

variable {members : List Member} {d : Demand} {m : Member} {l : Load}

/-! ### Exact and capped sums -/

/-- The memory that a member with this load would use with the service, in exact arithmetic. -/
def Load.total (l : Load) (d : Demand) : Nat := l.used.toNat + d.memory.toNat

theorem Load.withService_eq_min (l : Load) (d : Demand) :
    l.withService d = min (l.total d) (2 ^ 64 - 1) := rfl

theorem Load.withService_zero (l : Load) : l.withService ⟨0⟩ = l.used.toNat := by
  have hlt := l.used.toNat_lt
  simp only [withService_eq_min, total, UInt64.toNat_zero]
  omega

/-- A capped sum that is no greater than one below the cap belongs to no greater amount. -/
theorem Load.used_le_of_withService_le {l l' : Load} (hroom : l.total d < 2 ^ 64 - 1)
    (hle : l'.withService d ≤ l.withService d) : l'.used.toNat ≤ l.used.toNat := by
  simp only [withService_eq_min, total] at hroom hle
  omega

theorem Load.projected_of_cap_le (hcap : 2 ^ 64 - 1 ≤ l.total d) :
    (projected l d).toNat = 2 ^ 64 - 1 := by
  rw [toNat_projected, withService_eq_min, min_eq_right hcap]

/-! ### The least of the used amounts -/

/-- No two candidates use the same amount of memory. -/
def UsesDiffer (members : List Member) : Prop :=
  ((candidates members).map fun c => c.2.used).Nodup

instance (members : List Member) : Decidable (UsesDiffer members) :=
  inferInstanceAs (Decidable (List.Nodup _))

/-- Candidates that use the same amount are one and the same. -/
theorem UsesDiffer.eq (h : UsesDiffer members) {c c' : Member × Load}
    (hc : c ∈ candidates members) (hc' : c' ∈ candidates members)
    (hused : c.2.used.toNat = c'.2.used.toNat) : c = c' :=
  List.inj_on_of_nodup_map h hc hc' (UInt64.toNat_inj.1 hused)

/-- The member is a candidate with its load, and no candidate uses less memory. -/
structure LeastUsed (members : List Member) (m : Member) (l : Load) : Prop where
  mem : (m, l) ∈ candidates members
  least : ∀ c ∈ candidates members, l.used.toNat ≤ c.2.used.toNat

theorem exists_leastUsed (h : candidates members ≠ []) : ∃ m l, LeastUsed members m l := by
  obtain ⟨c, hc, hleast, -⟩ := exists_tied_eq ⟨0⟩ h
  simp only [Load.withService_zero] at hleast
  exact ⟨c.1, c.2, hc, hleast⟩

namespace LeastUsed

/-- The smallest exact sum is that of the candidate that uses the least, for every request. -/
theorem total_lt (h : LeastUsed members m l) (hdiffer : UsesDiffer members)
    {c : Member × Load} (hc : c ∈ candidates members) (hne : c ≠ (m, l)) :
    l.total d < c.2.total d := by
  have hused : l.used.toNat ≠ c.2.used.toNat := fun heq => hne (hdiffer.eq hc h.mem heq.symm)
  exact Nat.add_lt_add_right (lt_of_le_of_ne (h.least c hc) hused) _

/-! ### Sums below the cap -/

theorem eq_of_contends (h : LeastUsed members m l) (hdiffer : UsesDiffer members)
    (hroom : l.total d < 2 ^ 64 - 1) {x : Member} {lx : Load} (hx : Contends members d x lx) :
    x = m := by
  obtain ⟨hmem, hleast⟩ := contends_iff.1 hx
  have hle : lx.used.toNat ≤ l.used.toNat := Load.used_le_of_withService_le hroom (hleast _ h.mem)
  have heq : (x, lx) = (m, l) := hdiffer.eq hmem h.mem (le_antisymm hle (h.least _ hmem))
  exact congrArg Prod.fst heq

/-- If the smallest sum is below the cap, the candidate that uses the least is chosen. -/
theorem selectFrom_eq (h : LeastUsed members m l) (hdiffer : UsesDiffer members)
    (hroom : l.total d < 2 ^ 64 - 1) : selectFrom members d = some m := by
  obtain ⟨x, hx⟩ := exists_selectFrom_eq h.mem
  obtain ⟨lx, hcontends⟩ := exists_contends_of_selectFrom hx
  rw [hx, h.eq_of_contends hdiffer hroom hcontends]

end LeastUsed

/-! ### Other readings of the processors -/

/-- The member with another reading of its processors, if it has reported a load. -/
def Member.withReading (reading : Member → Binary64) (m : Member) : Member :=
  { m with load := m.load.map fun l => { l with cpu := reading m } }

theorem candidates_map_withReading (reading : Member → Binary64) (members : List Member) :
    candidates (members.map (Member.withReading reading)) =
      (candidates members).map fun c =>
        (c.1.withReading reading, { c.2 with cpu := reading c.1 }) := by
  rw [candidates_eq, candidates_eq, List.filterMap_map, List.map_filterMap]
  congr 1
  funext m
  cases havailable : m.available <;> cases hload : m.load <;>
    simp [Member.offer?, Member.withReading, havailable, hload]

theorem UsesDiffer.map_withReading (h : UsesDiffer members) (reading : Member → Binary64) :
    UsesDiffer (members.map (Member.withReading reading)) := by
  simpa [UsesDiffer, candidates_map_withReading, Function.comp_def] using h

theorem LeastUsed.map_withReading (h : LeastUsed members m l) (reading : Member → Binary64) :
    LeastUsed (members.map (Member.withReading reading)) (m.withReading reading)
      { l with cpu := reading m } := by
  refine ⟨?_, fun c hc => ?_⟩
  · rw [candidates_map_withReading]
    exact List.mem_map_of_mem h.mem
  · rw [candidates_map_withReading] at hc
    obtain ⟨x, hx, rfl⟩ := List.mem_map.1 hc
    exact h.least x hx

/-! ### Sums at the cap -/

/-- If no sum is below the cap, all candidates are tied. -/
theorem tied_eq_candidates
    (hcap : ∀ c ∈ candidates members, (projected c.2 d).toNat = 2 ^ 64 - 1) :
    tied members d = candidates members := by
  by_cases hnil : candidates members = []
  · rw [tied_of_candidates_eq_nil d hnil, hnil]
  · obtain ⟨x, hx, -, htied⟩ := exists_tied_eq d hnil
    rw [htied, List.filter_eq_self]
    intro c hc
    rw [decide_eq_true_eq, ← UInt64.toNat_inj, hcap c hc, hcap x hx]

theorem allKnown_iff_of_tied (htied : tied members d = candidates members) :
    AllKnown members d ↔ ∀ c ∈ candidates members, c.2.cpuKnown = true := by
  rw [← all_cpuKnown_iff, htied, List.all_eq_true]

/-- Among tied candidates whose readings are known, the first of the least busy ones is chosen. -/
theorem exists_firstBy_candidates (htied : tied members d = candidates members)
    (hmem : (m, l) ∈ candidates members)
    (hknown : ∀ c ∈ candidates members, c.2.cpuKnown = true) :
    ∃ c, FirstBy (fun c : Member × Load => c.2.cpu.key) (candidates members) c ∧
      selectFrom members d = some c.1 := by
  obtain ⟨x, hx⟩ := exists_selectFrom_eq hmem
  obtain ⟨lx, hfirst⟩ := exists_firstBy_tied ((allKnown_iff_of_tied htied).2 hknown) hx
  exact ⟨(x, lx), htied ▸ hfirst, hx⟩

/-- Among tied candidates of which one has no reading, the first one is chosen. -/
theorem selectFrom_eq_head? (htied : tied members d = candidates members)
    (hunknown : ∃ c ∈ candidates members, c.2.cpuKnown = false) :
    selectFrom members d = (candidates members).head?.map Prod.fst := by
  obtain ⟨c, hc, hcpu⟩ := hunknown
  have hnot : ¬ AllKnown members d := fun hall => by
    simp [(allKnown_iff_of_tied htied).1 hall c hc] at hcpu
  rw [selectFrom_of_not_allKnown hnot, htied]

/-! ### The choice -/

/-- **The choice among candidates that use different amounts of memory.**  As long as the smallest
sum is below the cap, it is the candidate that uses the least, which also has the smallest exact
sum; the request and the readings of the processors play no role.  If the smallest sum reaches the
cap, all candidates are tied: the first of the least busy ones is chosen if all readings are known,
else the first one. -/
theorem UsesDiffer.chosen (hdiffer : UsesDiffer members) :
    (candidates members = [] ∧ ∀ d, selectFrom members d = none) ∨
    ∃ m l, LeastUsed members m l ∧ ∀ d,
      (∀ c ∈ candidates members, c ≠ (m, l) → l.total d < c.2.total d) ∧
      (l.total d < 2 ^ 64 - 1 →
        selectFrom members d = some m ∧
        ∀ reading : Member → Binary64,
          selectFrom (members.map (Member.withReading reading)) d =
            some (m.withReading reading)) ∧
      (2 ^ 64 - 1 ≤ l.total d →
        (∀ c ∈ candidates members, (projected c.2 d).toNat = 2 ^ 64 - 1) ∧
        ((∀ c ∈ candidates members, c.2.cpuKnown = true) →
          ∃ c, FirstBy (fun c : Member × Load => c.2.cpu.key) (candidates members) c ∧
            selectFrom members d = some c.1) ∧
        ((∃ c ∈ candidates members, c.2.cpuKnown = false) →
          selectFrom members d = (candidates members).head?.map Prod.fst)) := by
  by_cases hnil : candidates members = []
  · exact .inl ⟨hnil, fun d => selectFrom_eq_none_iff_candidates.2 hnil⟩
  obtain ⟨m, l, h⟩ := exists_leastUsed hnil
  refine .inr ⟨m, l, h, fun d => ⟨fun c => h.total_lt hdiffer, fun hroom => ⟨?_, ?_⟩,
    fun hcap => ?_⟩⟩
  · exact h.selectFrom_eq hdiffer hroom
  · intro reading
    exact (h.map_withReading reading).selectFrom_eq (hdiffer.map_withReading reading) hroom
  · have hprojected : ∀ c ∈ candidates members, (projected c.2 d).toNat = 2 ^ 64 - 1 :=
      fun c hc => Load.projected_of_cap_le (le_trans hcap (Nat.add_le_add_right (h.least c hc) _))
    have htied : tied members d = candidates members := tied_eq_candidates hprojected
    exact ⟨hprojected, exists_firstBy_candidates htied h.mem, selectFrom_eq_head? htied⟩

/-- A member that has used so much memory, with a reading of its processors in percent. -/
def withUse (id : String) (used : UInt64) (percent : Int) : Member :=
  ⟨⟨id, ""⟩, some ⟨used, 8192, .ofInt percent, .epoch⟩, true⟩

/-- Of two members the one with more free memory is chosen, as busy as it is. -/
theorem busy_chosen :
    UsesDiffer [withUse "a" 900 10, withUse "b" 500 90] ∧
      selectFrom [withUse "a" 900 10, withUse "b" 500 90] ⟨256⟩ = some (withUse "b" 500 90) := by
  have hdiffer : UsesDiffer [withUse "a" 900 10, withUse "b" 500 90] := by decide +kernel
  refine ⟨hdiffer, ?_⟩
  obtain ⟨hnil, -⟩ | ⟨m, l, hleast, hchosen⟩ := hdiffer.chosen
  · exact absurd hnil (by decide +kernel)
  · have hcandidates : candidates [withUse "a" 900 10, withUse "b" 500 90] =
        [(withUse "a" 900 10, ⟨900, 8192, .ofInt 10, .epoch⟩),
          (withUse "b" 500 90, ⟨500, 8192, .ofInt 90, .epoch⟩)] := by decide +kernel
    have hmem := hleast.mem
    have hle := hleast.least (withUse "b" 500 90, ⟨500, 8192, .ofInt 90, .epoch⟩)
      (by simp [hcandidates])
    simp only [hcandidates, List.mem_cons, List.not_mem_nil, or_false] at hmem
    obtain heq | heq := hmem
    · cases heq
      exact absurd hle (by decide)
    · cases heq
      exact ((hchosen ⟨256⟩).2.1 (by decide)).1

/-- At the cap a candidate that uses more memory may be chosen since it is less busy. -/
theorem idle_chosen_at_cap :
    ¬ ∀ members, UsesDiffer members → ∀ d m l, LeastUsed members m l →
      selectFrom members d = some m := by
  intro h
  have hleast : LeastUsed [withUse "a" 900 10, withUse "b" 500 90] (withUse "b" 500 90)
      ⟨500, 8192, .ofInt 90, .epoch⟩ := ⟨by decide +kernel, by decide +kernel⟩
  exact absurd (h _ (by decide +kernel) ⟨2 ^ 64 - 1⟩ _ _ hleast) (by decide +kernel)

end Fleet
