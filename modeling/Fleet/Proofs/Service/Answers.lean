import Fleet.Proofs.Service.Accounts
import Fleet.Proofs.Service.Ledger
import Fleet.Proofs.Service.Naming

/-!
# What a ledger answers

The services that are there decide what comes of a start: whether there is memory for one more,
whether the name it asks for is in use, and that nothing is left behind when it is refused. The
ledger keeps separate books of the memory and of the names, and both agree with the services after
any sequence of starts and removals.

## Main definitions

* `Ledger.Reached` — the ledgers that starts and removals lead to.
* `Ledger.Answers` — what a start must come to, told by the services that are there.
* `Ledger.Removes` — what a removal must come to.

## Main statements

* `Ledger.answers_by_services` — every start and every removal comes to that.
-/

namespace Fleet

/-- A specification that is accepted: neither its task nor a name of its own is blank. -/
def ServiceSpec.Acceptable (spec : ServiceSpec) : Prop :=
  ¬ Text.Blank spec.task ∧ ∀ name, spec.name = some name → ¬ Text.Blank name

theorem ServiceSpec.fault?_eq_none_iff {spec : ServiceSpec} :
    spec.fault? = none ↔ spec.Acceptable := by
  rw [fault?, Acceptable]
  split
  · next hblank => simp [hblank]
  · next hblank => cases spec.name <;> simp [hblank]

theorem ServiceSpec.fault?_of_blankTask {spec : ServiceSpec} (h : Text.Blank spec.task) :
    spec.fault? = some .blankTask := if_pos h

theorem ServiceSpec.fault?_of_blankName {spec : ServiceSpec} (htask : ¬ Text.Blank spec.task)
    {name : String} (hname : spec.name = some name) (hblank : Text.Blank name) :
    spec.fault? = some .blankName := by
  rw [fault?, if_neg htask, hname]
  exact if_pos hblank

namespace Ledger

/-- The ways in which a start ends. -/
inductive Outcome (l : Ledger) (spec : ServiceSpec) (id : Uuid) (now : Instant) :
    Except LedgerError Service × Ledger → Prop
  | invalid {fault : SpecFault} (hfault : spec.fault? = some fault) :
      Outcome l spec id now (.error (.invalid fault), l)
  | full (hspec : spec.fault? = none) (hfull : l.max.toNat < l.reserved.toNat + spec.memory.toNat) :
      Outcome l spec id now (.error (.noCapacity spec.memory l.spare), l)
  /-- The name is in use; numbers that were taken are not given back. -/
  | taken {name : String} {counters : Table String UInt32} (hspec : spec.fault? = none)
      (hfits : l.reserved.toNat + spec.memory.toNat ≤ l.max.toNat)
      (hname : ({ l with reserved := l.reserved + spec.memory }.nameFor spec) =
        (name, { l with reserved := l.reserved + spec.memory, counters }))
      (htaken : l.isTaken name = true) :
      Outcome l spec id now (.error (.nameTaken name), { l with counters })
  | started {name : String} {counters : Table String UInt32} (hspec : spec.fault? = none)
      (hfits : l.reserved.toNat + spec.memory.toNat ≤ l.max.toNat)
      (hname : ({ l with reserved := l.reserved + spec.memory }.nameFor spec) =
        (name, { l with reserved := l.reserved + spec.memory, counters }))
      (hfree : l.isTaken name = false) :
      Outcome l spec id now (.ok (l.recordOf spec id name now),
        enter { l with
          reserved := l.reserved + spec.memory
          names := l.names.insert name id
          counters } (l.recordOf spec id name now))

theorem outcome_start (l : Ledger) (spec : ServiceSpec) (id : Uuid) (now : Instant) :
    Outcome l spec id now (l.start spec id now) := by
  rw [start]
  cases hspec : spec.fault? with
  | some fault => exact .invalid hspec
  | none =>
    by_cases hfits : l.reserved.toNat + spec.memory.toNat ≤ l.max.toNat
    · have hreserve : l.reserve spec.memory = .ok { l with reserved := l.reserved + spec.memory } :=
        if_pos hfits
      obtain ⟨name, counters, hname⟩ :=
        nameFor_eq { l with reserved := l.reserved + spec.memory } spec
      have hgiven : l.reserved + spec.memory - spec.memory = l.reserved := by simp
      simp only [hreserve, hname]
      cases htaken : l.isTaken name with
      | true =>
        have hclaim : claim? { l with reserved := l.reserved + spec.memory, counters } name id =
            none := if_pos htaken
        simp only [hclaim, release, hgiven]
        exact .taken hspec hfits hname htaken
      | false =>
        have hclaim : claim? { l with reserved := l.reserved + spec.memory, counters } name id =
            some { l with
              reserved := l.reserved + spec.memory
              names := l.names.insert name id
              counters } := if_neg (Bool.eq_false_iff.1 htaken)
        simp only [hclaim]
        exact .started hspec hfits hname htaken
    · have hreserve : l.reserve spec.memory = .error (.noCapacity spec.memory l.spare) :=
        if_neg hfits
      simp only [hreserve]
      exact .full hspec (Nat.lt_of_not_le hfits)

/-- The ledgers that starts and removals lead to, from one without services. Each start has an
identifier that no service has. -/
inductive Reached (node : String) (max : UInt64) : Ledger → Prop
  | new : Reached node max (.new node max)
  | start {l : Ledger} (hr : Reached node max l) (spec : ServiceSpec) (id : Uuid) (now : Instant)
      (hnew : l.services.get? id = none) : Reached node max (l.start spec id now).2
  | remove {l l' : Ledger} (hr : Reached node max l) {id : Uuid} {s : Service}
      (hremove : l.remove id = some (s, l')) : Reached node max l'

/-- A start does not let the counter of its task run over: if it takes numbers at all, so many of
them are left. -/
def CounterLasts (l : Ledger) (spec : ServiceSpec) : Prop :=
  spec.name = none → spec.Acceptable → l.used + spec.memory.toNat ≤ l.max.toNat →
    (l.counter spec.task).toNat + l.tries spec.task < 2 ^ 32

/-- The books of a ledger agree with its services. -/
structure Agrees (node : String) (max : UInt64) (l : Ledger) : Prop where
  node : l.node = node
  max : l.max = max
  memory : l.reserved.toNat = l.used
  names : ∀ name id, l.names.get? name = some id ↔
    ∃ s, l.services.get? id = some s ∧ s.name = name

/-- What a start must come to, told by the services that are there. -/
structure Answers (l : Ledger) (spec : ServiceSpec) (id : Uuid) (now : Instant)
    (r : Except LedgerError Service) (l' : Ledger) : Prop where
  blankTask : Text.Blank spec.task → r = .error (.invalid .blankTask)
  blankName : ¬ Text.Blank spec.task → ∀ name, spec.name = some name → Text.Blank name →
    r = .error (.invalid .blankName)
  full : spec.Acceptable → l.max.toNat < l.used + spec.memory.toNat →
    ∃ left : UInt64, left.toNat = l.max.toNat - l.used ∧
      r = .error (.noCapacity spec.memory left)
  taken : spec.Acceptable → l.used + spec.memory.toNat ≤ l.max.toNat →
    ∀ s ∈ l.present, spec.name = some s.name → r = .error (.nameTaken s.name)
  started : spec.Acceptable → l.used + spec.memory.toNat ≤ l.max.toNat →
    (∀ s ∈ l.present, spec.name ≠ some s.name) →
      ∃ s, r = .ok s ∧ s.id = id ∧ Serves spec l.node now s ∧ (∀ s' ∈ l.present, s'.name ≠ s.name) ∧
        l'.present = s ::ₘ l.present ∧
          (∀ id', l'.services.get? id' = if id' = id then some s else l.services.get? id') ∧
            l'.reserved.toNat = l.used + spec.memory.toNat
  unnamed : spec.name = none → ∀ name, r ≠ .error (.nameTaken name)
  refused : ∀ e, r = .error e → l' = l

/-- What the removal of a service must come to: it takes back the memory and the name of the service
and touches nothing else. -/
structure Removes (l : Ledger) (id : Uuid) (s : Service) (l' : Ledger) : Prop where
  memory : l'.reserved.toNat + s.memory.toNat = l.reserved.toNat
  named : l.names.get? s.name = some id
  names : ∀ name, l'.names.get? name = if name = s.name then none else l.names.get? name
  services : ∀ id', l'.services.get? id' = if id' = id then none else l.services.get? id'
  counters : l'.counters = l.counters
  node : l'.node = l.node
  max : l'.max = l.max

variable {node : String} {max : UInt64} {l l' : Ledger} {spec : ServiceSpec} {id : Uuid}
  {now : Instant}

theorem Balanced.start (h : l.Balanced 0 0) (hnew : l.services.get? id = none) :
    (l.start spec id now).2.Balanced 0 0 := by
  have houtcome := outcome_start l spec id now
  generalize l.start spec id now = p at houtcome
  cases houtcome with
  | invalid | full => exact h
  | taken => exact ⟨h.memory, h.bounded, h.names, h.keyed⟩
  | @started name counters _ hfits _ hfree =>
    have hreserved : { l with reserved := l.reserved + spec.memory }.Balanced
        (spec.memory.toNat + 0) 0 := h.reserve (if_pos hfits)
    have hcounted : { l with reserved := l.reserved + spec.memory, counters }.Balanced
        (spec.memory.toNat + 0) 0 :=
      ⟨hreserved.memory, hreserved.bounded, hreserved.names, hreserved.keyed⟩
    have hclaim : claim? { l with reserved := l.reserved + spec.memory, counters } name id =
        some _ := if_neg (Bool.eq_false_iff.1 hfree)
    have hclaimed := hcounted.claim hclaim
    show (Ledger.enter _ (l.recordOf spec id name now)).Balanced 0 0
    exact hclaimed.enter hnew

theorem remove_eq {s : Service} (h : l.remove id = some (s, l')) :
    l.services.get? id = some s ∧ l' = { l with
      services := l.services.erase id
      names := l.names.erase s.name
      reserved := l.reserved - s.memory } := by
  obtain ⟨⟨struck, rest⟩, hstrike, heq⟩ := Option.map_eq_some_iff.1 h
  obtain ⟨hs, rfl⟩ := strike?_eq hstrike
  cases heq
  exact ⟨hs, rfl⟩

theorem Balanced.remove (h : l.Balanced 0 0) {s : Service} (hremove : l.remove id = some (s, l')) :
    l'.Balanced 0 0 := by
  obtain ⟨⟨struck, rest⟩, hstrike, heq⟩ := Option.map_eq_some_iff.1 hremove
  cases heq
  exact (h.strike hstrike).freeName.release

theorem Balanced.agrees (h : l.Balanced 0 0) : l.Agrees l.node l.max := by
  refine ⟨rfl, rfl, h.memory, fun name id => ?_⟩
  rw [h.get?_names_iff]
  simp

theorem frame_start (l : Ledger) (spec : ServiceSpec) (id : Uuid) (now : Instant) :
    (l.start spec id now).2.node = l.node ∧ (l.start spec id now).2.max = l.max := by
  have houtcome := outcome_start l spec id now
  generalize l.start spec id now = p at houtcome
  cases houtcome <;> exact ⟨rfl, rfl⟩

theorem Reached.sound (hr : Reached node max l) :
    l.Balanced 0 0 ∧ l.node = node ∧ l.max = max := by
  induction hr with
  | new => exact ⟨.new node max, rfl, rfl⟩
  | start _ spec id now hnew ih =>
    obtain ⟨hbalanced, hnode, hmax⟩ := ih
    obtain ⟨hnode', hmax'⟩ := frame_start _ spec id now
    exact ⟨hbalanced.start hnew, hnode'.trans hnode, hmax'.trans hmax⟩
  | remove _ hremove ih =>
    obtain ⟨hbalanced, hnode, hmax⟩ := ih
    refine ⟨hbalanced.remove hremove, ?_⟩
    obtain ⟨-, rfl⟩ := remove_eq hremove
    exact ⟨hnode, hmax⟩

theorem Balanced.isTaken_iff (h : l.Balanced 0 0) {name : String} :
    l.isTaken name = true ↔ ∃ s ∈ l.present, s.name = name := by
  rw [isTaken, Table.contains_iff]
  constructor
  · rintro ⟨id, hid⟩
    obtain ⟨s, hs, hname⟩ := (h.agrees.names name id).1 hid
    exact ⟨s, mem_present_iff.2 ⟨id, hs⟩, hname⟩
  · rintro ⟨s, hs, hname⟩
    obtain ⟨id, hid⟩ := mem_present_iff.1 hs
    exact ⟨id, (h.agrees.names name id).2 ⟨s, hid, hname⟩⟩

/-- A name of its own is taken as it is, and no number is. -/
theorem nameFor_of_name {name : String} (h : spec.name = some name) :
    l.nameFor spec = (name, l) := by
  rw [nameFor, h]

/-- A start finds a name in use only if it asks for it. -/
theorem name_of_taken {reserved : UInt64} {name : String} {counters : Table String UInt32}
    (hlasts : spec.name = none → (l.counter spec.task).toNat + l.tries spec.task < 2 ^ 32)
    (hname : ({ l with reserved }.nameFor spec) = (name, { l with reserved, counters }))
    (htaken : l.isTaken name = true) : spec.name = some name ∧ counters = l.counters := by
  cases hspec : spec.name with
  | some own =>
    rw [nameFor_of_name hspec] at hname
    cases hname
    exact ⟨rfl, rfl⟩
  | none =>
    have hfree : isTaken { l with reserved } (nextName { l with reserved } spec.task).1 = false :=
      isTaken_nextName (hlasts hspec)
    rw [nameFor, hspec] at hname
    dsimp only at hname
    rw [hname] at hfree
    exact absurd htaken (Bool.eq_false_iff.1 hfree)

theorem Balanced.answers (h : l.Balanced 0 0) (hnew : l.services.get? id = none)
    (hlasts : l.CounterLasts spec) :
    Answers l spec id now (l.start spec id now).1 (l.start spec id now).2 := by
  have hmemory : l.reserved.toNat = l.used := h.memory
  have houtcome := outcome_start l spec id now
  generalize l.start spec id now = p at houtcome
  cases houtcome with
  | @invalid fault hfault =>
    have hnot : ¬ spec.Acceptable := fun hspec => by
      rw [ServiceSpec.fault?_eq_none_iff.2 hspec] at hfault
      cases hfault
    refine ⟨fun hblank => ?_, fun htask name hname hblank => ?_, fun hspec => absurd hspec hnot,
      fun hspec => absurd hspec hnot, fun hspec => absurd hspec hnot, fun _ _ => by simp,
      fun _ _ => rfl⟩
    · rw [ServiceSpec.fault?_of_blankTask hblank] at hfault
      cases hfault
      rfl
    · rw [ServiceSpec.fault?_of_blankName htask hname hblank] at hfault
      cases hfault
      rfl
  | full hspec hfull =>
    have hspec := ServiceSpec.fault?_eq_none_iff.1 hspec
    refine ⟨fun hblank => absurd hblank hspec.1, fun _ name hname hblank =>
      absurd hblank (hspec.2 name hname), fun _ _ => ⟨l.spare, ?_, rfl⟩, fun _ _ => by omega,
      fun _ _ => by omega, fun _ _ => by simp, fun _ _ => rfl⟩
    rw [spare, toNat_saturatingSub, hmemory]
  | @taken name counters hspec hfits hname htaken =>
    have hspec := ServiceSpec.fault?_eq_none_iff.1 hspec
    obtain ⟨hown, rfl⟩ := name_of_taken (fun hnone => hlasts hnone hspec (hmemory ▸ hfits)) hname
      htaken
    refine ⟨fun hblank => absurd hblank hspec.1, fun _ name hname hblank =>
      absurd hblank (hspec.2 name hname), fun _ _ => by omega, fun _ _ s _ heq => ?_,
      fun _ _ hfree => ?_, fun hnone => ?_, fun _ _ => rfl⟩
    · rw [Option.some.inj (hown.symm.trans heq)]
    · obtain ⟨s, hs, rfl⟩ := h.isTaken_iff.1 htaken
      exact absurd hown (hfree s hs)
    · rw [hown] at hnone
      cases hnone
  | @started name counters hspec hfits hname hfree =>
    have hspec := ServiceSpec.fault?_eq_none_iff.1 hspec
    have hothers : ∀ s ∈ l.present, s.name ≠ name := fun s hs heq =>
      Bool.eq_false_iff.1 hfree (h.isTaken_iff.2 ⟨s, hs, heq⟩)
    have hown : ∀ own, spec.name = some own → name = own := by
      intro own hown
      rw [nameFor_of_name hown] at hname
      exact (congrArg Prod.fst hname).symm
    refine ⟨fun hblank => absurd hblank hspec.1, fun _ name hname hblank =>
      absurd hblank (hspec.2 name hname), fun _ _ => by omega, fun _ _ s hs heq => ?_,
      fun _ _ _ => ⟨_, rfl, rfl, ⟨rfl, rfl, rfl, hown, rfl, rfl⟩, hothers,
        present_enter hnew, fun id' => Table.get?_insert .., ?_⟩, fun _ _ => by simp,
      fun _ herror => by cases herror⟩
    · exact absurd (hown _ heq).symm (hothers s hs)
    · rw [← hmemory]
      exact toNat_reserved_add hfits

theorem Balanced.removes (h : l.Balanced 0 0) {s : Service} (hs : l.services.get? id = some s) :
    ∃ l', l.remove id = some (s, l') ∧ Removes l id s l' := by
  have hremove : l.remove id = some (s, { l with
      services := l.services.erase id
      names := l.names.erase s.name
      reserved := l.reserved - s.memory }) := by
    rw [Ledger.remove, strike?, hs]
    rfl
  refine ⟨_, hremove, ?_, (h.agrees.names _ _).2 ⟨s, hs, rfl⟩, fun name => Table.get?_erase ..,
    fun id' => Table.get?_erase .., rfl, rfl, rfl⟩
  have hleft : (l.reserved - s.memory).toNat = used { l with services := l.services.erase id } :=
    (h.remove hremove).agrees.memory
  have hmemory : l.reserved.toNat = l.used := h.memory
  rw [hleft, hmemory, used_eq_add hs, Nat.add_comm]

theorem answers_by_services (hr : Reached node max l) :
    l.Agrees node max ∧
      (∀ spec id now, l.services.get? id = none → l.CounterLasts spec →
        Answers l spec id now (l.start spec id now).1 (l.start spec id now).2) ∧
      ∀ id, match l.services.get? id with
        | none => l.remove id = none
        | some s => ∃ l', l.remove id = some (s, l') ∧ Removes l id s l' := by
  obtain ⟨hbalanced, rfl, rfl⟩ := hr.sound
  refine ⟨hbalanced.agrees, fun spec id now => hbalanced.answers, fun id => ?_⟩
  cases hs : l.services.get? id with
  | none => simp [remove, strike?, hs]
  | some s => exact hbalanced.removes hs

/-- A ledger with one service, which has the name of the first number of its task. -/
def occupied : Ledger :=
  ((new "a" 64).start { task := "t", name := some "t-1", memory := 16 } (.fresh 0) .epoch).2

theorem occupied_answers :
    Reached "a" 64 occupied ∧ occupied.tries "t" = 2 ∧ occupied.services.get? (.fresh 1) = none ∧
      occupied.CounterLasts { task := "t", memory := 16 } ∧ occupied.Agrees "a" 64 ∧
        Answers occupied { task := "t", memory := 16 } (.fresh 1) .epoch
          (occupied.start { task := "t", memory := 16 } (.fresh 1) .epoch).1
          (occupied.start { task := "t", memory := 16 } (.fresh 1) .epoch).2 := by
  have hr : Reached "a" 64 occupied := .start .new _ (.fresh 0) _ rfl
  have htries : occupied.tries "t" = 2 := by decide +kernel
  have hnew : occupied.services.get? (.fresh 1) = none := by decide +kernel
  have hlasts : occupied.CounterLasts { task := "t", memory := 16 } := by
    intro _ _ _
    rw [htries]
    decide +kernel
  obtain ⟨hagrees, hstart, -⟩ := answers_by_services hr
  exact ⟨hr, htries, hnew, hlasts, hagrees, hstart _ _ _ hnew hlasts⟩

end Ledger

end Fleet
