import Fleet.Proofs.Number.Decimal
import Fleet.Proofs.Table
import Fleet.Service.Ledger
import Mathlib.Data.List.Perm.Subperm

/-!
# Names for services that have none

Numerals have no dash, so a name tells its task and its number, and the names of a task's numbers
differ from each other. So of one number more than there are names there is one whose name is not
in use, and the search for a name comes to an end there, if the counter of the task does not run
over before.

## Main definitions

* `Ledger.tries` — how many numbers a search takes.
* `Ledger.FirstFree` — the first number of a task after another one whose name is not in use.

## Main statements

* `Ledger.autoName_inj` — a name tells its task and its number.
* `Ledger.toNat_le_of_taken` — there are no more numbers in a row with names in use than names.
* `Ledger.nextName_spec` — a search takes the first number whose name is not in use.
-/

namespace Fleet.Ledger

/-! ### A name tells its task and its number -/

theorem toList_autoName (task : String) (n : UInt32) :
    (autoName task n).toList = task.toList ++ '-' :: Decimal.digits n.toNat := by
  simp [autoName, Decimal.text, toString]

theorem dash_not_mem_digits (n : Nat) : '-' ∉ Decimal.digits n := by
  intro h
  have hdigit := Decimal.isDigit_of_mem_digits h
  revert hdigit
  decide

/-- A numeral after a dash has no other dash in it. -/
theorem eq_nil_of_dash {more : List Char} {m n : Nat}
    (h : '-' :: Decimal.digits m = more ++ '-' :: Decimal.digits n) : more = [] ∧ m = n := by
  cases more with
  | nil => exact ⟨rfl, Decimal.digits_injective (List.cons.inj h).2⟩
  | cons c more =>
    have hmem : '-' ∈ Decimal.digits m := by
      rw [(List.cons.inj h).2]
      simp
    exact absurd hmem (dash_not_mem_digits m)

/-- Of two texts that end in a dash and a numeral, the last dash of the one is that of the other. -/
theorem eq_of_append_dash {s t : List Char} {m n : Nat}
    (h : s ++ '-' :: Decimal.digits m = t ++ '-' :: Decimal.digits n) : s = t ∧ m = n := by
  rcases List.append_eq_append_iff.1 h with ⟨more, rfl, hrest⟩ | ⟨more, rfl, hrest⟩
  · obtain ⟨rfl, hnumber⟩ := eq_nil_of_dash hrest
    exact ⟨by simp, hnumber⟩
  · obtain ⟨rfl, hnumber⟩ := eq_nil_of_dash hrest
    exact ⟨by simp, hnumber.symm⟩

theorem autoName_inj {task task' : String} {m n : UInt32}
    (h : autoName task m = autoName task' n) : task = task' ∧ m = n := by
  have hlist := congrArg String.toList h
  rw [toList_autoName, toList_autoName] at hlist
  obtain ⟨htask, hnumber⟩ := eq_of_append_dash hlist
  exact ⟨String.toList_inj.1 htask, UInt32.toNat_inj.1 hnumber⟩

/-! ### The search for a free one -/

/-- How many numbers are taken after a number until one has a name that is not in use, that one
included, and at most so many. -/
def triesAfter (names : Table String Uuid) (task : String) : Nat → UInt32 → Nat
  | 0, _ => 0
  | rounds + 1, n =>
    if names.contains (autoName task (n + 1)) then triesAfter names task rounds (n + 1) + 1 else 1

/-- How many numbers of a task the search for a name takes. -/
def tries (l : Ledger) (task : String) : Nat :=
  triesAfter l.names task (l.names.size + 1) (l.counter task)

variable {l : Ledger} {task : String}

theorem counter_setCounter_eq (l : Ledger) (task : String) (n : UInt32) (other : String) :
    (l.setCounter task n).counter other = if other = task then n else l.counter other := by
  rw [counter, setCounter, Table.get?_insert]
  split <;> rfl

@[simp] theorem counter_setCounter (n : UInt32) : (l.setCounter task n).counter task = n := by
  rw [counter_setCounter_eq, if_pos rfl]

/-- A search changes nothing but counters. -/
theorem search_eq (task : String) (rounds : Nat) (l : Ledger) :
    ∃ counters, (nextName.search task rounds l).2 = { l with counters } := by
  induction rounds generalizing l with
  | zero => exact ⟨_, rfl⟩
  | succ rounds ih =>
    rw [nextName.search]
    dsimp only
    split
    · obtain ⟨counters, h⟩ := ih (l.takeIndex task).2
      exact ⟨counters, h⟩
    · exact ⟨_, rfl⟩

theorem nameFor_eq (l : Ledger) (spec : ServiceSpec) :
    ∃ name counters, l.nameFor spec = (name, { l with counters }) := by
  rw [nameFor]
  split
  · exact ⟨_, _, rfl⟩
  · obtain ⟨counters, h⟩ := search_eq spec.task (l.names.size + 1) l
    exact ⟨_, counters, Prod.ext rfl h⟩

/-- While a counter does not run over, its numbers follow one another. -/
theorem toNat_add_one {n : UInt32} (h : n.toNat + 1 < 2 ^ 32) : (n + 1).toNat = n.toNat + 1 := by
  rw [UInt32.toNat_add]
  exact Nat.mod_eq_of_lt h

/-- A number is the first one of a task after another one whose name is not in use. -/
structure FirstFree (used : String → Prop) (task : String) (last n : UInt32) : Prop where
  lt : last < n
  free : ¬ used (autoName task n)
  /-- The numbers in between are passed over because their names are in use. -/
  skipped : ∀ k, last < k → k < n → used (autoName task k)

/-- A greater number is the next one, or greater than that. -/
theorem eq_or_lt_of_lt {last k : UInt32} (hlasts : last.toNat + 1 < 2 ^ 32) (hk : last < k) :
    k = last + 1 ∨ last + 1 < k := by
  have hnext := toNat_add_one hlasts
  rw [UInt32.lt_iff_toNat_lt] at hk ⊢
  rw [← UInt32.toNat_inj]
  omega

/-- A search goes through the numbers of a task one by one. The number that it comes to is the
first one whose name is not in use, or it has tried as many as it may and all of them are. -/
theorem search_spec {rounds : Nat}
    (hlasts : (l.counter task).toNat + triesAfter l.names task rounds (l.counter task) < 2 ^ 32) :
    ∃ n, (nextName.search task rounds l).1 = autoName task n ∧
      (∀ other, (nextName.search task rounds l).2.counter other =
        if other = task then n else l.counter other) ∧
      (FirstFree (l.isTaken · = true) task (l.counter task) n ∨
        n.toNat = (l.counter task).toNat + rounds ∧
          ∀ k, l.counter task < k → k ≤ n → l.isTaken (autoName task k) = true) := by
  induction rounds generalizing l with
  | zero =>
    refine ⟨l.counter task, rfl, fun other => ?_, .inr ⟨rfl, fun k hk hle => ?_⟩⟩
    · split
      · next h =>
        rw [h]
        rfl
      · rfl
    · exact absurd hle (UInt32.not_le.2 hk)
  | succ rounds ih =>
    rw [triesAfter] at hlasts
    rw [nextName.search]
    dsimp only [takeIndex]
    have hroom : (l.counter task).toNat + 1 < 2 ^ 32 := by split at hlasts <;> omega
    have hnext := toNat_add_one hroom
    have hlt : l.counter task < l.counter task + 1 := UInt32.lt_iff_toNat_lt.2 (by omega)
    by_cases htaken : l.isTaken (autoName task (l.counter task + 1)) = true
    · have hcontains : l.names.contains (autoName task (l.counter task + 1)) = true := htaken
      have htaken' : (l.setCounter task (l.counter task + 1)).isTaken
          (autoName task (l.counter task + 1)) = true := htaken
      rw [if_pos hcontains] at hlasts
      rw [if_pos htaken']
      have hlasts' : (l.counter task + 1).toNat +
          triesAfter l.names task rounds (l.counter task + 1) < 2 ^ 32 := by omega
      obtain ⟨n, hname, hcounters, hn⟩ :=
        @ih (l.setCounter task (l.counter task + 1)) (by rwa [counter_setCounter])
      rw [counter_setCounter] at hn
      refine ⟨n, hname, fun other => ?_, hn.imp (fun hfree => ?_) fun ⟨hrounds, hall⟩ => ?_⟩
      · rw [hcounters, counter_setCounter_eq]
        split <;> rfl
      · refine ⟨UInt32.lt_trans hlt hfree.lt, hfree.free, fun k hk hkn => ?_⟩
        obtain rfl | hk := eq_or_lt_of_lt hroom hk
        · exact htaken
        · exact hfree.skipped k hk hkn
      · refine ⟨by omega, fun k hk hkn => ?_⟩
        obtain rfl | hk := eq_or_lt_of_lt hroom hk
        · exact htaken
        · exact hall k hk hkn
    · have htaken' : ¬ (l.setCounter task (l.counter task + 1)).isTaken
          (autoName task (l.counter task + 1)) = true := htaken
      rw [if_neg htaken']
      refine ⟨l.counter task + 1, rfl, counter_setCounter_eq l task _,
        .inl ⟨hlt, htaken, fun k hk hkn => ?_⟩⟩
      rw [UInt32.lt_iff_toNat_lt] at hk hkn
      omega

/-- There are no more numbers of a task in a row with names in use than there are names. -/
theorem toNat_le_of_taken {last n : UInt32}
    (hall : ∀ k, last < k → k ≤ n → l.isTaken (autoName task k) = true) :
    n.toNat ≤ last.toNat + l.names.size := by
  let candidate (i : Nat) := UInt32.ofNat (last.toNat + 1 + i)
  have hcandidate {i : Nat} (hi : i < n.toNat - last.toNat) :
      (candidate i).toNat = last.toNat + 1 + i :=
    UInt32.toNat_ofNat_of_lt' (lt_of_le_of_lt (by omega) n.toNat_lt)
  let row := (List.range (n.toNat - last.toNat)).map fun i => autoName task (candidate i)
  have hnodup : row.Nodup := by
    refine List.Nodup.map_on (fun i hi j hj heq => ?_) List.nodup_range
    have hsame := congrArg UInt32.toNat (autoName_inj heq).2
    rw [hcandidate (List.mem_range.1 hi), hcandidate (List.mem_range.1 hj)] at hsame
    omega
  have hsub : row ⊆ l.names.keys := by
    intro name hname
    obtain ⟨i, hi, rfl⟩ := List.mem_map.1 hname
    have hnumber := hcandidate (List.mem_range.1 hi)
    rw [List.mem_range] at hi
    refine Table.mem_keys_iff.2 (Table.contains_iff.1 (hall _ ?_ ?_))
    · exact UInt32.lt_iff_toNat_lt.2 (by omega)
    · exact UInt32.le_iff_toNat_le.2 (by omega)
  have hle := (hnodup.subperm hsub).length_le
  rw [List.length_map, List.length_range, Table.keys, List.length_map] at hle
  exact Nat.sub_le_iff_le_add'.1 hle

/-- The search for a name takes the first number whose name is not in use, if the counter does not
run over. Else there were more names in use than there are names. -/
theorem nextName_spec (hlasts : (l.counter task).toNat + l.tries task < 2 ^ 32) :
    ∃ n, (l.nextName task).1 = autoName task n ∧
      (∀ other, (l.nextName task).2.counter other = if other = task then n else l.counter other) ∧
      FirstFree (l.isTaken · = true) task (l.counter task) n := by
  obtain ⟨n, hname, hcounters, hfree | ⟨hrounds, hall⟩⟩ := search_spec hlasts
  · exact ⟨n, hname, hcounters, hfree⟩
  · have hle := toNat_le_of_taken hall
    omega

/-- The search for a name finds one that is not in use, if the counter does not run over. -/
theorem isTaken_nextName (hlasts : (l.counter task).toNat + l.tries task < 2 ^ 32) :
    l.isTaken (l.nextName task).1 = false := by
  obtain ⟨n, hname, -, hfree⟩ := nextName_spec hlasts
  rw [hname]
  exact Bool.eq_false_iff.2 hfree.free

end Fleet.Ledger
