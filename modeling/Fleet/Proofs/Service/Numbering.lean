import Fleet.Proofs.Service.Answers

/-!
# No name is given twice

A service that is started without a name gets that of the next number of its task. The counter of a
task only moves forward, to the first number whose name no service has, and text and number can be
told from a name, since numerals have no dash. So no such name is ever given again, whatever the
tasks are called and whichever services have gone in the meantime.

## Main definitions

* `Ledger.Grant`, `Ledger.Granted` — the names that were given to services without one, in any run.
* `Ledger.Numbered` — names that follow the numbers of a task.

## Main statements

* `Ledger.Granted.numbered` — the names given to a task follow its numbers.
* `Ledger.Granted.names_distinct` — all names given in a run are different.
-/

namespace Fleet.Ledger

variable {l : Ledger} {task : String}

/-! ### The names given in a run -/

/-- A name that a service was given because its specification has none, for a task, and the ledger
as it was then. -/
structure Grant where
  task : String
  name : String
  before : Ledger

/-- The name that a start has given, if it was to give one. -/
def grant? (l : Ledger) (spec : ServiceSpec) : Except LedgerError Service → Option Grant
  | .ok s => if spec.name = none then some ⟨spec.task, s.name, l⟩ else none
  | .error _ => none

/-- The ledger after a removal; nothing changes if there is no service with the id. -/
def without (l : Ledger) (id : Uuid) : Ledger := (l.remove id).elim l Prod.snd

/-- The ledgers that starts and removals lead to, from one without services, with all names that
were given on the way. Each start has an identifier that no service has, and no counter runs
over. -/
inductive Granted (node : String) (max : UInt64) : Ledger → List Grant → Prop
  | new : Granted node max (.new node max) []
  | start {l : Ledger} {grants : List Grant} (h : Granted node max l grants) (spec : ServiceSpec)
      (id : Uuid) (now : Instant) (hnew : l.services.get? id = none)
      (hlasts : l.CounterLasts spec) :
      Granted node max (l.start spec id now).2
        (grants ++ (l.grant? spec (l.start spec id now).1).toList)
  | remove {l : Ledger} {grants : List Grant} (h : Granted node max l grants) (id : Uuid) :
      Granted node max (l.without id) grants

/-- A service that is there has the name. -/
def HasName (l : Ledger) (name : String) : Prop := ∃ s ∈ l.present, s.name = name

/-- Names follow the numbers of a task from one number to another: each is the first one that was
free when it was given. -/
def Numbered (task : String) : UInt32 → List Grant → UInt32 → Prop
  | first, [], last => first = last
  | first, g :: rest, last => ∃ n, g.name = autoName task n ∧
      FirstFree g.before.HasName task first n ∧ Numbered task n rest last

variable {node : String} {max : UInt64} {grants : List Grant} {first last n : UInt32}

theorem Numbered.concat {g : Grant} (h : Numbered task first grants last)
    (hname : g.name = autoName task n) (hfree : FirstFree g.before.HasName task last n) :
    Numbered task first (grants ++ [g]) n := by
  induction grants generalizing first with
  | nil =>
    obtain rfl : first = last := h
    exact ⟨n, hname, hfree, rfl⟩
  | cons g' rest ih =>
    obtain ⟨n', hname', hfree', hrest⟩ := h
    exact ⟨n', hname', hfree', ih hrest⟩

theorem Numbered.toNat_le (h : Numbered task first grants last) : first.toNat ≤ last.toNat := by
  induction grants generalizing first with
  | nil => exact Nat.le_of_eq (congrArg UInt32.toNat h)
  | cons g rest ih =>
    obtain ⟨n, -, hfree, hrest⟩ := h
    have hlt := UInt32.lt_iff_toNat_lt.1 hfree.lt
    have hle := ih hrest
    omega

/-- Every name that follows the numbers is that of one of them. -/
theorem Numbered.exists_number {g : Grant} (h : Numbered task first grants last)
    (hg : g ∈ grants) : ∃ n, g.name = autoName task n ∧ n.toNat ≤ last.toNat := by
  induction grants generalizing first with
  | nil => cases hg
  | cons g' rest ih =>
    obtain ⟨n, hname, -, hrest⟩ := h
    rcases List.mem_cons.1 hg with rfl | hg
    · exact ⟨n, hname, hrest.toNat_le⟩
    · exact ih hrest hg

theorem Granted.reached (h : Granted node max l grants) : Reached node max l := by
  induction h with
  | new => exact .new
  | start _ spec id now hnew _ ih => exact .start ih spec id now hnew
  | @remove l _ _ id ih =>
    rw [without]
    cases hremove : l.remove id with
    | none => exact ih
    | some p => exact .remove ih hremove

theorem counter_without (l : Ledger) (id : Uuid) (task : String) :
    (l.without id).counter task = l.counter task := by
  rw [without]
  cases hremove : l.remove id with
  | none => rfl
  | some p =>
    obtain ⟨s, l'⟩ := p
    obtain ⟨-, rfl⟩ := remove_eq hremove
    rfl

/-- A start that gives a name moves the counter of its task to the first number that is free, and
any other start moves no counter. -/
theorem Balanced.grant?_start (h : l.Balanced 0 0) {spec : ServiceSpec} (id : Uuid) (now : Instant)
    (hlasts : l.CounterLasts spec) :
    (l.grant? spec (l.start spec id now).1 = none ∧
      ∀ other, (l.start spec id now).2.counter other = l.counter other) ∨
    ∃ n, l.grant? spec (l.start spec id now).1 =
        some ⟨spec.task, autoName spec.task n, l⟩ ∧
      FirstFree l.HasName spec.task (l.counter spec.task) n ∧
      ∀ other, (l.start spec id now).2.counter other =
        if other = spec.task then n else l.counter other := by
  have hmemory : l.reserved.toNat = l.used := h.memory
  have houtcome := outcome_start l spec id now
  generalize l.start spec id now = p at houtcome
  cases houtcome with
  | invalid | full => exact .inl ⟨rfl, fun _ => rfl⟩
  | taken hspec hfits hname htaken =>
    have hspec := ServiceSpec.fault?_eq_none_iff.1 hspec
    obtain ⟨-, rfl⟩ := name_of_taken (fun hnone => hlasts hnone hspec (hmemory ▸ hfits)) hname
      htaken
    exact .inl ⟨rfl, fun _ => rfl⟩
  | @started name counters hspec hfits hname hfree =>
    have hspec := ServiceSpec.fault?_eq_none_iff.1 hspec
    cases hown : spec.name with
    | some own =>
      rw [nameFor_of_name hown] at hname
      cases hname
      exact .inl ⟨by simp [grant?, hown], fun _ => rfl⟩
    | none =>
      have hsearch := nextName_spec (l := { l with reserved := l.reserved + spec.memory })
        (hlasts hown hspec (hmemory ▸ hfits))
      have hnext : nextName { l with reserved := l.reserved + spec.memory } spec.task =
          (name, { l with reserved := l.reserved + spec.memory, counters }) := by
        rwa [nameFor, hown] at hname
      rw [hnext] at hsearch
      obtain ⟨n, rfl, hcounters, hn⟩ := hsearch
      refine .inr ⟨n, by simp [grant?, hown, recordOf], ⟨hn.lt, ?_, fun k hk hkn => ?_⟩,
        hcounters⟩
      · exact fun hused => hn.free (h.isTaken_iff.2 hused)
      · exact h.isTaken_iff.1 (hn.skipped k hk hkn)

/-- The names given to a task follow its numbers, up to its counter. -/
theorem Granted.numbered (h : Granted node max l grants) (task : String) :
    Numbered task 0 (grants.filter (·.task = task)) (l.counter task) := by
  induction h with
  | new => rfl
  | @start l grants hg spec id now hnew hlasts ih =>
    rw [List.filter_append]
    rcases hg.reached.sound.1.grant?_start id now hlasts with
      ⟨hgrant, hcounter⟩ | ⟨n, hgrant, hfree, hcounter⟩
    · rw [hgrant, hcounter, Option.toList_none, List.filter_nil, List.append_nil]
      exact ih
    · rw [hgrant, hcounter, Option.toList_some]
      by_cases htask : spec.task = task
      · subst htask
        have hnext := ih.concat (g := ⟨spec.task, autoName spec.task n, l⟩) rfl hfree
        simpa using hnext
      · simpa [htask, Ne.symm htask] using ih
  | remove _ id ih =>
    rw [counter_without]
    exact ih

theorem Granted.exists_number (h : Granted node max l grants) {g : Grant} (hg : g ∈ grants) :
    ∃ n, g.name = autoName g.task n ∧ n.toNat ≤ (l.counter g.task).toNat :=
  (h.numbered g.task).exists_number (List.mem_filter.2 ⟨hg, decide_eq_true rfl⟩)

/-- A name that is given is not that of an earlier one, be it of the same task or of another. -/
theorem Granted.nodup (h : Granted node max l grants) : (grants.map (·.name)).Nodup := by
  induction h with
  | new => exact List.nodup_nil
  | @start l grants hg spec id now hnew hlasts ih =>
    rcases hg.reached.sound.1.grant?_start id now hlasts with
      ⟨hgrant, -⟩ | ⟨n, hgrant, hfree, -⟩
    · rwa [hgrant, Option.toList_none, List.append_nil]
    · rw [hgrant, Option.toList_some, List.map_append, List.map_singleton,
        List.nodup_append_comm, List.singleton_append, List.nodup_cons]
      refine ⟨fun hmem => ?_, ih⟩
      obtain ⟨g, hgmem, hname⟩ := List.mem_map.1 hmem
      obtain ⟨k, hk, hle⟩ := hg.exists_number hgmem
      obtain ⟨htask, rfl⟩ := autoName_inj (hk.symm.trans hname)
      rw [htask] at hle
      have hlt := UInt32.lt_iff_toNat_lt.1 hfree.lt
      omega
  | remove _ _ ih => exact ih

/-- All names that were given in a run to services without one are different, whatever their tasks
are called and whichever services are still there. Those of one task follow its numbers: each has
the first number after the one before it whose name no service had when it was given. -/
theorem Granted.names_distinct (h : Granted node max l grants) :
    (grants.map (·.name)).Nodup ∧
      ∀ task, Numbered task 0 (grants.filter (·.task = task)) (l.counter task) :=
  ⟨h.nodup, h.numbered⟩

/-- A specification without a name. -/
def unnamed (task : String) : ServiceSpec := { task, memory := 16 }

/-- Beside a service that is called `t-1` one of the task `t` is started and removed, then another
one, and one of a task that is called `t-2`. -/
def renumbered : Ledger :=
  let removed := (occupied.start (unnamed "t") (.fresh 1) .epoch).2.without (.fresh 1)
  ((removed.start (unnamed "t") (.fresh 1) .epoch).2.start (unnamed "t-2") (.fresh 2) .epoch).2

/-- The first number is passed over, and the second one is not given again. -/
theorem renumbered_distinct :
    ∃ grants, Granted "a" 64 renumbered grants ∧
      grants.map (·.name) = ["t-2", "t-3", "t-2-1"] ∧ (grants.map (·.name)).Nodup ∧
      Numbered "t" 0 (grants.filter (·.task = "t")) 3 := by
  have hlasts {l : Ledger} {task : String}
      (h : (l.counter task).toNat + l.tries task < 2 ^ 32) : l.CounterLasts (unnamed task) :=
    fun _ _ _ => h
  have hfirst : Granted "a" 64 occupied [] :=
    .start .new { task := "t", name := some "t-1", memory := 16 } (.fresh 0) .epoch rfl nofun
  have hsecond := hfirst.start (unnamed "t") (.fresh 1) .epoch (by decide +kernel)
    (hlasts (by decide +kernel))
  have hthird := (hsecond.remove (.fresh 1)).start (unnamed "t") (.fresh 1) .epoch
    (by decide +kernel) (hlasts (by decide +kernel))
  have hfourth := hthird.start (unnamed "t-2") (.fresh 2) .epoch (by decide +kernel)
    (hlasts (by decide +kernel))
  obtain ⟨hnodup, hnumbered⟩ := hfourth.names_distinct
  have hcounter : renumbered.counter "t" = 3 := by decide +kernel
  exact ⟨_, hfourth, by decide +kernel, hnodup, hcounter ▸ hnumbered "t"⟩

end Fleet.Ledger
