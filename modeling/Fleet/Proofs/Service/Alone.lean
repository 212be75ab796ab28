import Fleet.Proofs.Service.Answers
import Fleet.Service.Ledger.Calls
import Mathlib.Logic.Relation

/-!
# A call that nothing interrupts

When no other call takes a step in between, the steps of a start and of a removal add up to what the
ledger does at once.

## Main statements

* `Ledger.Call.start_alone`, `Ledger.Call.remove_alone` — the two kinds of calls.
-/

namespace Fleet.Ledger.Call

/-- Where a call comes to when it alone takes its steps. -/
def Alone : Call × Ledger → Call × Ledger → Prop :=
  Relation.ReflTransGen fun p q => q = p.1.step p.2

/-- The end of a call to start a service. -/
def ofResult : Except LedgerError Service → Call
  | .ok s => .started s
  | .error e => .refused e

variable {l l' : Ledger} {c c' : Call}

theorem Alone.head {q : Call × Ledger} (hstep : c.step l = (c', l')) (h : Alone (c', l') q) :
    Alone (c, l) q := Relation.ReflTransGen.head hstep.symm h

theorem Alone.once (hstep : c.step l = (c', l')) : Alone (c, l) (c', l') := .head hstep .refl

/-- The search for a name, number by number. The number taken last before it has a name in use. -/
theorem alone_search (o : Order) (rounds : Nat)
    (htried : rounds = 0 → l.isTaken (autoName o.spec.task (l.counter o.spec.task)) = true)
    (hfree : l.isTaken (nextName.search o.spec.task rounds l).1 = false) :
    Alone (.counting o, l) (.claiming o (nextName.search o.spec.task rounds l).1,
      (nextName.search o.spec.task rounds l).2) := by
  induction rounds generalizing l with
  | zero => exact absurd (htried rfl) (Bool.eq_false_iff.1 hfree)
  | succ rounds ih =>
    rw [nextName.search] at hfree ⊢
    dsimp only [takeIndex] at hfree ⊢
    have hcount : step l (.counting o) = (.checking o (l.counter o.spec.task + 1),
        l.setCounter o.spec.task (l.counter o.spec.task + 1)) := rfl
    refine .head hcount ?_
    by_cases htaken : (l.setCounter o.spec.task (l.counter o.spec.task + 1)).isTaken
        (autoName o.spec.task (l.counter o.spec.task + 1)) = true
    · rw [if_pos htaken] at hfree ⊢
      refine .head (by rw [step, if_pos htaken]) (ih (fun _ => ?_) hfree)
      rwa [counter_setCounter]
    · rw [if_neg htaken]
      exact .once (by rw [step, if_neg htaken])

/-- A start that has its memory comes to claim the name that the ledger chooses. -/
theorem alone_naming {o : Order} {name : String} (hname : l.nameFor o.spec = (name, l'))
    (hfree : o.spec.name = none → l.isTaken name = false) :
    Alone (match o.spec.name with
      | some own => .claiming o own
      | none => .counting o, l) (.claiming o name, l') := by
  rw [nameFor] at hname
  cases hspec : o.spec.name with
  | some own =>
    rw [hspec] at hname
    cases hname
    exact .refl
  | none =>
    simp only [hspec] at hname
    rw [nextName] at hname
    have hsearch : _ → Alone (.counting o, l) _ := alone_search o (l.names.size + 1) (by simp)
    rw [hname] at hsearch
    exact hsearch (hfree hspec)

/-- A start that fits comes to claim the name that the ledger chooses. -/
theorem alone_reserving {o : Order} {name : String}
    (hfits : l.reserved.toNat + o.spec.memory.toNat ≤ l.max.toNat)
    (hname : { l with reserved := l.reserved + o.spec.memory }.nameFor o.spec = (name, l'))
    (hfree : o.spec.name = none → l.isTaken name = false) :
    Alone (.reserving o, l) (.claiming o name, l') := by
  have hreserve : l.reserve o.spec.memory =
      .ok { l with reserved := l.reserved + o.spec.memory } := if_pos hfits
  refine .head ?_ (alone_naming hname hfree)
  rw [step, hreserve]
  cases o.spec.name <;> rfl

/-- A start by itself. -/
theorem start_alone (o : Order) (hlasts : o.spec.name = none →
    (l.counter o.spec.task).toNat + l.tries o.spec.task < 2 ^ 32) :
    Alone (ofOrder o, l)
      (ofResult (l.start o.spec o.id o.now).1, (l.start o.spec o.id o.now).2) := by
  have houtcome := outcome_start l o.spec o.id o.now
  generalize l.start o.spec o.id o.now = p at houtcome
  have hreserving (hspec : o.spec.fault? = none) : ofOrder o = .reserving o := by
    rw [ofOrder, hspec]
  cases houtcome with
  | invalid hfault =>
    rw [ofOrder, hfault]
    exact .refl
  | full hspec hfull =>
    rw [hreserving hspec]
    have hreserve : l.reserve o.spec.memory = .error (.noCapacity o.spec.memory l.spare) :=
      if_neg (Nat.not_le.2 hfull)
    exact .once (by rw [step, hreserve]; rfl)
  | @taken name counters hspec hfits hname htaken =>
    rw [hreserving hspec]
    have hown := (name_of_taken hlasts hname htaken).1
    have hclaim : claim? { l with reserved := l.reserved + o.spec.memory, counters } name o.id =
        none := if_pos htaken
    have hclaiming := alone_reserving hfits hname fun hnone => absurd (hown.symm.trans hnone) nofun
    have hrefused : step { l with reserved := l.reserved + o.spec.memory, counters }
        (.claiming o name) = (.releasing o name,
          { l with reserved := l.reserved + o.spec.memory, counters }) := by rw [step, hclaim]
    refine hclaiming.trans (Alone.head hrefused (.once ?_))
    simp [step, release, ofResult]
  | @started name counters hspec hfits hname hfree =>
    rw [hreserving hspec]
    have hclaim : claim? { l with reserved := l.reserved + o.spec.memory, counters } name o.id =
        some _ := if_neg (Bool.eq_false_iff.1 hfree)
    have hclaiming := alone_reserving hfits hname fun _ => hfree
    exact hclaiming.trans (Alone.head (by rw [step, hclaim]) (.once rfl))

/-- A removal by itself. -/
theorem remove_alone (id : Uuid) :
    Alone (.striking id, l) (match l.remove id with
      | none => (.absent, l)
      | some (s, l') => (.removed s, l')) := by
  cases hstrike : l.strike? id with
  | none =>
    have hremove : l.remove id = none := by rw [remove, hstrike]; rfl
    rw [hremove]
    exact .once (by rw [step, hstrike])
  | some p =>
    obtain ⟨s, l'⟩ := p
    have hremove : l.remove id = some (s, (l'.freeName s.name).release s.memory) := by
      rw [remove, hstrike]
      rfl
    have hstruck : step l (.striking id) = (.freeing s, l') := by rw [step, hstrike]
    have hfreed : step l' (.freeing s) = (.returning s, l'.freeName s.name) := rfl
    rw [hremove]
    exact .head hstruck (.head hfreed (.once rfl))

end Fleet.Ledger.Call
