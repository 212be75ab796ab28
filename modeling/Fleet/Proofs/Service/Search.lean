import Fleet.Proofs.Service.Naming
import Mathlib.Order.Bounds.Basic

/-!
# The search for a name comes to an end

Nothing but a name that is not in use ends the search for one: it goes on round by round, and each
round takes a number of the task. It ends all the same, since no more numbers in a row can have
names in use than there are names. So it takes one round more than that at most, and what it leaves
behind is the counter of the task at the number it came to.

## Main definitions

* `Ledger.round` — what one round of a search does.
* `Ledger.Rounds` — rounds one after another, as many as it takes.

## Main statements

* `Ledger.FirstFree.toNat_le` — how far the first number is whose name is not in use.
* `Ledger.FirstFree.rounds` — the rounds that lead there, and what they change.
* `Ledger.search_ends` — every search ends, at the least number whose name is not in use.
-/

namespace Fleet.Ledger

variable {l mid l' : Ledger} {task name : String} {n : UInt32} {count : Nat}

/-- A round takes the next number of a task; it comes to a name if that of the number is not in
use. -/
def round (l : Ledger) (task : String) : Option String × Ledger :=
  let (n, l) := l.takeIndex task
  (if l.isTaken (autoName task n) then none else some (autoName task n), l)

/-- Rounds one after another, however many, until one comes to a name: their number, the name, and
the ledger after them. -/
inductive Rounds (task : String) : Ledger → Nat → String → Ledger → Prop
  | last {l l' : Ledger} {name : String} (h : l.round task = (some name, l')) :
      Rounds task l 1 name l'
  | more {l mid l' : Ledger} {count : Nat} {name : String} (h : l.round task = (none, mid))
      (hrest : Rounds task mid count name l') : Rounds task l (count + 1) name l'

/-! ### One round -/

theorem round_of_taken (h : l.isTaken (autoName task (l.counter task + 1)) = true) :
    l.round task = (none, l.setCounter task (l.counter task + 1)) :=
  Prod.ext (if_pos h) rfl

theorem round_of_free (h : ¬ l.isTaken (autoName task (l.counter task + 1)) = true) :
    l.round task =
      (some (autoName task (l.counter task + 1)), l.setCounter task (l.counter task + 1)) :=
  Prod.ext (if_neg h) rfl

theorem search_of_last {rounds : Nat} (h : l.round task = (some name, l')) :
    nextName.search task (rounds + 1) l = (name, l') := by
  rw [nextName.search]
  by_cases htaken : l.isTaken (autoName task (l.counter task + 1)) = true
  · rw [round_of_taken htaken] at h
    cases h
  · rw [round_of_free htaken] at h
    cases h
    exact if_neg htaken

theorem search_of_more {rounds : Nat} (h : l.round task = (none, mid)) :
    nextName.search task (rounds + 1) l = nextName.search task rounds mid := by
  rw [nextName.search]
  by_cases htaken : l.isTaken (autoName task (l.counter task + 1)) = true
  · rw [round_of_taken htaken] at h
    cases h
    exact if_pos htaken
  · rw [round_of_free htaken] at h
    cases h

/-- A search that may take as many rounds as are needed comes to what they come to. -/
theorem Rounds.search_eq (h : Rounds task l count name l') {rounds : Nat} (hle : count ≤ rounds) :
    nextName.search task rounds l = (name, l') := by
  induction h generalizing rounds with
  | last hround =>
    obtain ⟨rounds, rfl⟩ := Nat.exists_eq_add_of_le' hle
    exact search_of_last hround
  | more hround _ ih =>
    obtain ⟨rounds, rfl⟩ := Nat.exists_eq_add_of_le' (Nat.le_of_add_left_le hle)
    rw [search_of_more hround]
    exact ih (Nat.le_of_add_le_add_right hle)

/-- Rounds have no choice. -/
theorem Rounds.count_unique (h : Rounds task l count name l') {count' : Nat} {name' : String}
    {l'' : Ledger} (h' : Rounds task l count' name' l'') : count' = count := by
  induction h generalizing count' with
  | last hround =>
    cases h' with
    | last => rfl
    | more hround' => cases hround.symm.trans hround'
  | more hround _ ih =>
    cases h' with
    | last hround' => cases hround.symm.trans hround'
    | more hround' hrest' =>
      cases hround.symm.trans hround'
      rw [ih hrest']

/-! ### How far a search goes -/

theorem triesAfter_le (names : Table String Uuid) (task : String) (rounds : Nat) (n : UInt32) :
    triesAfter names task rounds n ≤ rounds := by
  induction rounds generalizing n with
  | zero => exact Nat.le_refl _
  | succ rounds ih =>
    rw [triesAfter]
    split
    · exact Nat.succ_le_succ (ih _)
    · exact Nat.le_add_left _ _

/-- The first number whose name is not in use is not farther away than there are names. -/
theorem FirstFree.toNat_le {last : UInt32} (h : FirstFree (l.isTaken · = true) task last n) :
    n.toNat ≤ last.toNat + l.names.size + 1 := by
  have hlt := UInt32.lt_iff_toNat_lt.1 h.lt
  have hbefore : (UInt32.ofNat (n.toNat - 1)).toNat = n.toNat - 1 :=
    UInt32.toNat_ofNat_of_lt' (lt_of_le_of_lt (Nat.sub_le _ _) n.toNat_lt)
  have htaken : ∀ k, last < k → k ≤ UInt32.ofNat (n.toNat - 1) →
      l.isTaken (autoName task k) = true := by
    intro k hk hkn
    rw [UInt32.le_iff_toNat_le, hbefore] at hkn
    exact h.skipped k hk (UInt32.lt_iff_toNat_lt.2 (by omega))
  have hle := toNat_le_of_taken htaken
  omega

/-- Among all numbers of a task after another one, the first one whose name is not in use is the
least. -/
theorem FirstFree.isLeast {last : UInt32} (h : FirstFree (l.isTaken · = true) task last n) :
    IsLeast {m : Nat | last.toNat < m ∧ l.names.get? s!"{task}-{Decimal.text m}" = none}
      n.toNat := by
  refine ⟨⟨UInt32.lt_iff_toNat_lt.1 h.lt, ?_⟩, ?_⟩
  · exact Table.contains_eq_false_iff.1 (Bool.eq_false_iff.2 h.free)
  · rintro m ⟨hlast, hfree⟩
    by_contra hlt
    rw [not_le] at hlt
    have hm : (UInt32.ofNat m).toNat = m :=
      UInt32.toNat_ofNat_of_lt' (hlt.trans n.toNat_lt)
    have htaken := h.skipped (UInt32.ofNat m) (UInt32.lt_iff_toNat_lt.2 (by omega))
      (UInt32.lt_iff_toNat_lt.2 (by omega))
    rw [isTaken, autoName, hm, Table.contains_eq_false_iff.2 hfree] at htaken
    cases htaken

/-- The first number whose name is not in use is the next one, or the name of the next one is in use
and it is the first one after that. -/
theorem FirstFree.next_or_later {used : String → Prop} {last : UInt32}
    (h : FirstFree used task last n) :
    n = last + 1 ∨ used (autoName task (last + 1)) ∧ FirstFree used task (last + 1) n := by
  have hlt := UInt32.lt_iff_toNat_lt.1 h.lt
  have hnext := toNat_add_one (lt_of_le_of_lt hlt n.toNat_lt)
  by_cases hn : n = last + 1
  · exact .inl hn
  · have hne : n.toNat ≠ (last + 1).toNat := fun heq => hn (UInt32.toNat_inj.1 heq)
    have hlast : last < last + 1 := UInt32.lt_iff_toNat_lt.2 (by omega)
    have hnextlt : last + 1 < n := UInt32.lt_iff_toNat_lt.2 (by omega)
    exact .inr ⟨h.skipped _ hlast hnextlt, hnextlt, h.free,
      fun k hk hkn => h.skipped k (UInt32.lt_trans hlast hk) hkn⟩

/-- The rounds of a search go through the numbers one by one up to the first one whose name is not
in use, and leave the counter there. -/
theorem FirstFree.rounds (h : FirstFree (l.isTaken · = true) task (l.counter task) n) :
    ∃ counters : Table String UInt32,
      Rounds task l (n.toNat - (l.counter task).toNat) (autoName task n) { l with counters } ∧
        ∀ other, counters.get? other = if other = task then some n else l.counters.get? other := by
  have hlt := UInt32.lt_iff_toNat_lt.1 h.lt
  have hnext := toNat_add_one (lt_of_le_of_lt hlt n.toNat_lt)
  -- Each round brings the counter one number nearer, so the induction is on how far that is.
  induction hdistance : n.toNat - (l.counter task).toNat generalizing l with
  | zero => omega
  | succ distance ih =>
    rcases h.next_or_later with hn | ⟨htaken, hlater⟩
    · obtain rfl : distance = 0 := by
        rw [hn] at hdistance
        omega
      have hfree := h.free
      rw [hn] at hfree ⊢
      exact ⟨_, .last (round_of_free hfree), fun other => Table.get?_insert ..⟩
    · have hcounter : (l.setCounter task (l.counter task + 1)).counter task =
          l.counter task + 1 := counter_setCounter _
      have hmid : FirstFree ((l.setCounter task (l.counter task + 1)).isTaken · = true) task
          ((l.setCounter task (l.counter task + 1)).counter task) n := by
        rw [hcounter]
        exact hlater
      have hltmid := UInt32.lt_iff_toNat_lt.1 hmid.lt
      have hnextmid := toNat_add_one (lt_of_le_of_lt hltmid n.toNat_lt)
      obtain ⟨counters, hrounds, hcounters⟩ := ih hmid hltmid hnextmid (by rw [hcounter]; omega)
      refine ⟨counters, .more (round_of_taken htaken) hrounds, fun other => ?_⟩
      rw [hcounters, setCounter, Table.get?_insert]
      split <;> rfl

/-- As long as a counter has room for one number more than there are names, the search for a name
ends after that many rounds at most, and in one way only. It comes to the name of the least number
after the counter whose name is not in use, leaves the counter at this number, and changes neither
another counter nor anything else. -/
theorem search_ends (hroom : (l.counter task).toNat + l.names.size + 1 < 2 ^ 32) :
    ∃ (rounds : Nat) (n : UInt32), rounds ≤ l.names.size + 1 ∧
      n.toNat = (l.counter task).toNat + rounds ∧
      (∀ count name l', Rounds task l count name l' ↔
        count = rounds ∧ l.nextName task = (name, l')) ∧
      (l.nextName task).1 = s!"{task}-{Decimal.text n.toNat}" ∧
      IsLeast {m : Nat | (l.counter task).toNat < m ∧
        l.names.get? s!"{task}-{Decimal.text m}" = none} n.toNat ∧
      (∀ other, (l.nextName task).2.counters.get? other =
        if other = task then some n else l.counters.get? other) ∧
      (l.nextName task).2 = { l with counters := (l.nextName task).2.counters } := by
  have htries : l.tries task ≤ l.names.size + 1 := triesAfter_le ..
  have hlasts : (l.counter task).toNat + l.tries task < 2 ^ 32 := by omega
  obtain ⟨n, -, -, hfree⟩ := nextName_spec hlasts
  have hlt := UInt32.lt_iff_toNat_lt.1 hfree.lt
  have hle := hfree.toNat_le
  have hbound : n.toNat - (l.counter task).toNat ≤ l.names.size + 1 := by omega
  obtain ⟨counters, hrounds, hcounters⟩ := hfree.rounds
  have hnext : l.nextName task = (autoName task n, { l with counters }) := hrounds.search_eq hbound
  rw [hnext]
  refine ⟨_, n, hbound, by omega, fun count name l' => ⟨fun h => ?_, ?_⟩, rfl, hfree.isLeast,
    hcounters, rfl⟩
  · obtain rfl := hrounds.count_unique h
    exact ⟨rfl, hnext.symm.trans (h.search_eq hbound)⟩
  · rintro ⟨rfl, heq⟩
    cases heq
    exact hrounds

/-- Beside services that are called `t-2` and `t-3` one of the task `t` is started. -/
def crowded : Ledger :=
  let second := ((new "a" 64).start { task := "u", name := some "t-2", memory := 1 } (.fresh 0)
    .epoch).2
  let third := (second.start { task := "u", name := some "t-3", memory := 1 } (.fresh 1) .epoch).2
  (third.start { task := "t", memory := 1 } (.fresh 2) .epoch).2

/-- The search passes over two numbers and ends with the third round. -/
theorem crowded_search_ends :
    (crowded.counter "t").toNat + crowded.names.size + 1 < 2 ^ 32 ∧
      Rounds "t" crowded 3 "t-4" (crowded.nextName "t").2 ∧
      IsLeast {m : Nat | 1 < m ∧ crowded.names.get? ("t" ++ "-" ++ Decimal.text m) = none} 4 := by
  have hroom : (crowded.counter "t").toNat + crowded.names.size + 1 < 2 ^ 32 := by decide +kernel
  have hcounter : (crowded.counter "t").toNat = 1 := by decide +kernel
  have hname : (crowded.nextName "t").1 = "t-4" := by decide +kernel
  have hafter : (crowded.nextName "t").2.counters.get? "t" = some 4 := by decide +kernel
  obtain ⟨rounds, n, -, hn, honly, -, hleast, hcounters, -⟩ := search_ends hroom
  obtain rfl : 4 = n := Option.some.inj (hafter.symm.trans (hcounters "t"))
  rw [hcounter] at hn hleast
  obtain rfl : rounds = 3 := Nat.add_left_cancel hn.symm
  exact ⟨hroom, (honly _ _ _).2 ⟨rfl, Prod.ext hname rfl⟩, hleast⟩

end Fleet.Ledger
