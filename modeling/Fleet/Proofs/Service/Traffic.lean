import Fleet.Proofs.Service.Accounts
import Fleet.Service.Ledger.Calls
import Mathlib.Algebra.Order.BigOperators.Group.Multiset
import Mathlib.Algebra.Order.Group.Nat

/-!
# Many calls on one ledger

Any number of calls start and remove services on one ledger, and their steps come in any order. No
order of the steps lets them reserve more than there is, lose or return memory twice, or give two
services one name; and when all of them have ended, the names in use are those of the services.

## Main definitions

* `Ledger.Traffic` — a ledger and the calls on it.
* `Ledger.Traffic.Next`, `Ledger.Traffic.Reachable` — how it goes on, and where it may come to.

## Main statements

* `Ledger.Traffic.books_kept` — what holds between any two steps.
-/

namespace Fleet.Ledger

/-- A ledger, the calls that were made on it, and the identifiers they have drawn. -/
structure Traffic where
  ledger : Ledger
  calls : Multiset Call
  drawn : List Uuid

namespace Call

/-- The name that a call has claimed, for a service that is not in the ledger. -/
def claims : Call → Multiset (String × Uuid)
  | .entering s | .freeing s => {(s.name, s.id)}
  | _ => 0

/-- The identifier of the service that a call may still enter. -/
def due : Call → Multiset Uuid
  | .reserving o | .counting o | .checking o _ | .claiming o _ => {o.id}
  | .entering s => {s.id}
  | _ => 0

/-- The memory that a call subtracts with its next step. -/
def subtracts? : Call → Option UInt64
  | .releasing o _ => some o.spec.memory
  | .returning s => some s.memory
  | _ => none

theorem claims_of_ended {c : Call} (h : c.ended = true) : c.claims = 0 := by
  cases c <;> first | rfl | cases h

theorem held_of_subtracts? {c : Call} {memory : UInt64} (h : c.subtracts? = some memory) :
    c.held = memory.toNat := by
  cases c <;> cases h <;> rfl

/-- A call to start a service has nothing yet. -/
theorem ofOrder_spec (o : Order) :
    (ofOrder o).held = 0 ∧ (ofOrder o).claims = 0 ∧ (ofOrder o).due ≤ {o.id} := by
  rw [ofOrder]
  split
  · exact ⟨rfl, rfl, Multiset.zero_le _⟩
  · exact ⟨rfl, rfl, le_rfl⟩

variable {l : Ledger} {c : Call}

/-- A step of a call keeps the books, if the service that it may enter is a new one. -/
theorem balanced_step {rest : Nat} {others : Multiset (String × Uuid)}
    (h : l.Balanced (c.held + rest) (c.claims + others))
    (hnew : ∀ id ∈ c.due, l.services.get? id = none) :
    (c.step l).2.Balanced ((c.step l).1.held + rest) ((c.step l).1.claims + others) := by
  cases c with
  | reserving o =>
    have h' : l.Balanced rest others := by simpa [held, claims] using h
    simp only [step]
    cases hreserve : l.reserve o.spec.memory with
    | error e => exact h
    | ok l' =>
      have hreserved := h'.reserve hreserve
      cases o.spec.name <;> simpa [held, claims] using hreserved
  | counting o => exact h.setCounter _ _
  | checking o n =>
    simp only [step]
    split <;> exact h
  | claiming o name =>
    have h' : l.Balanced (o.spec.memory.toNat + rest) others := by simpa [held, claims] using h
    simp only [step]
    cases hclaim : l.claim? name o.id with
    | none => exact h
    | some l' => exact h'.claim hclaim
  | releasing o name => simpa [step, held, claims] using h.release
  | entering s =>
    have hentered := h.enter (hnew s.id (Multiset.mem_singleton_self _))
    simpa [step, held, claims] using hentered
  | striking id =>
    have h' : l.Balanced rest others := by simpa [held, claims] using h
    simp only [step]
    cases hstrike : l.strike? id with
    | none => exact h
    | some p => exact h'.strike hstrike
  | freeing s => simpa [step, held, claims] using h.freeName
  | returning s => simpa [step, held, claims] using h.release
  | started | refused | removed | absent => exact h

theorem frame_step (l : Ledger) (c : Call) :
    (c.step l).2.node = l.node ∧ (c.step l).2.max = l.max := by
  cases c with
  | reserving o =>
    simp only [step]
    cases hreserve : l.reserve o.spec.memory with
    | error e => exact ⟨rfl, rfl⟩
    | ok l' =>
      obtain ⟨-, rfl⟩ := reserve_eq hreserve
      cases o.spec.name <;> exact ⟨rfl, rfl⟩
  | claiming o name =>
    simp only [step]
    cases hclaim : l.claim? name o.id with
    | none => exact ⟨rfl, rfl⟩
    | some l' =>
      obtain ⟨-, rfl⟩ := claim?_eq hclaim
      exact ⟨rfl, rfl⟩
  | striking id =>
    simp only [step]
    cases hstrike : l.strike? id with
    | none => exact ⟨rfl, rfl⟩
    | some p =>
      obtain ⟨s, l'⟩ := p
      obtain ⟨-, rfl⟩ := strike?_eq hstrike
      exact ⟨rfl, rfl⟩
  | counting | checking | releasing | entering | freeing | returning | started | refused | removed
    | absent => exact ⟨rfl, rfl⟩

/-- A step brings no identifier up again. -/
theorem keys_step (hnew : ∀ id ∈ c.due, l.services.get? id = none) :
    ((c.step l).2.services.keys : Multiset Uuid) + (c.step l).1.due ≤ l.services.keys + c.due := by
  cases c with
  | reserving o =>
    simp only [step]
    cases hreserve : l.reserve o.spec.memory with
    | error e => exact add_le_add_right (Multiset.zero_le _) _
    | ok l' =>
      obtain ⟨-, rfl⟩ := reserve_eq hreserve
      cases o.spec.name <;> exact le_rfl
  | checking o n =>
    simp only [step]
    split <;> exact le_rfl
  | claiming o name =>
    simp only [step]
    cases hclaim : l.claim? name o.id with
    | none => exact add_le_add_right (Multiset.zero_le _) _
    | some l' =>
      obtain ⟨-, rfl⟩ := claim?_eq hclaim
      exact le_rfl
  | entering s =>
    have hentries := Table.entries_insert (v := s) (hnew s.id (Multiset.mem_singleton_self _))
    have hkeys : ((l.services.insert s.id s).keys : Multiset Uuid) = s.id ::ₘ l.services.keys :=
      congrArg (Multiset.map Prod.fst) hentries
    simp only [step, Ledger.enter, due, hkeys, add_zero]
    rw [add_comm, Multiset.singleton_add]
  | striking id =>
    simp only [step]
    cases hstrike : l.strike? id with
    | none => exact le_rfl
    | some p =>
      obtain ⟨s, l'⟩ := p
      obtain ⟨hs, rfl⟩ := strike?_eq hstrike
      have hkeys : (l.services.keys : Multiset Uuid) = id ::ₘ (l.services.erase id).keys :=
        congrArg (Multiset.map Prod.fst) (Table.entries_erase hs)
      rw [hkeys]
      exact add_le_add_left (Multiset.le_cons_self _ _) _
  | counting | releasing | freeing | returning | started | refused | removed | absent =>
    exact le_rfl

end Call

namespace Traffic

/-- What has been reserved and is held by calls. -/
def held (t : Traffic) : Nat := (t.calls.map Call.held).sum

/-- The ways in which calls go on: a start or a removal is called, or any call takes its step. Each
start draws an identifier that was not drawn before. -/
inductive Next : Traffic → Traffic → Prop
  | start (t : Traffic) (o : Order) (hnew : o.id ∉ t.drawn) :
      Next t { t with calls := .ofOrder o ::ₘ t.calls, drawn := o.id :: t.drawn }
  | remove (t : Traffic) (id : Uuid) : Next t { t with calls := .striking id ::ₘ t.calls }
  | step (l : Ledger) (c : Call) (others : Multiset Call) (drawn : List Uuid) :
      Next ⟨l, c ::ₘ others, drawn⟩ ⟨(c.step l).2, (c.step l).1 ::ₘ others, drawn⟩

/-- Where calls may come to on a ledger that starts without services. -/
inductive Reachable (node : String) (max : UInt64) : Traffic → Prop
  | new : Reachable node max ⟨.new node max, 0, []⟩
  | next {t t' : Traffic} (hr : Reachable node max t) (hnext : Next t t') : Reachable node max t'

/-- The identifiers that stand for a service, entered or still to come. -/
def ids (t : Traffic) : Multiset Uuid := t.ledger.services.keys + (t.calls.map Call.due).sum

/-- The books are kept, and no identifier stands for two services. -/
structure Sound (node : String) (max : UInt64) (t : Traffic) : Prop where
  node : t.ledger.node = node
  max : t.ledger.max = max
  balanced : t.ledger.Balanced t.held (t.calls.map Call.claims).sum
  nodup : t.ids.Nodup
  drawn : ∀ id ∈ t.ids, id ∈ t.drawn

variable {node : String} {max : UInt64} {t t' : Traffic}

theorem sound_new (node : String) (max : UInt64) : Sound node max ⟨.new node max, 0, []⟩ :=
  ⟨rfl, rfl, .new node max, Multiset.nodup_zero, fun _ h => absurd h (Multiset.notMem_zero _)⟩

theorem Sound.start (h : t.Sound node max) (o : Order) (hnew : o.id ∉ t.drawn) :
    Sound node max { t with calls := .ofOrder o ::ₘ t.calls, drawn := o.id :: t.drawn } := by
  obtain ⟨hheld, hclaims, hdue⟩ := Call.ofOrder_spec o
  have hids : ids { t with calls := .ofOrder o ::ₘ t.calls } ≤ o.id ::ₘ t.ids := by
    rw [ids, ids, Multiset.map_cons, Multiset.sum_cons, ← Multiset.singleton_add, add_left_comm]
    exact add_le_add_left hdue _
  refine ⟨h.node, h.max, ?_, ?_, fun id hid => ?_⟩
  · simpa [held, hheld, hclaims] using h.balanced
  · refine Multiset.nodup_of_le hids (Multiset.nodup_cons.2 ⟨fun hid => ?_, h.nodup⟩)
    exact hnew (h.drawn _ hid)
  · rcases Multiset.mem_cons.1 (Multiset.mem_of_le hids hid) with rfl | hid
    · exact List.mem_cons_self
    · exact List.mem_cons_of_mem _ (h.drawn id hid)

theorem Sound.step {l : Ledger} {c : Call} {others : Multiset Call} {drawn : List Uuid}
    (h : Sound node max ⟨l, c ::ₘ others, drawn⟩) :
    Sound node max ⟨(c.step l).2, (c.step l).1 ::ₘ others, drawn⟩ := by
  have hids : ids ⟨l, c ::ₘ others, drawn⟩ =
      l.services.keys + c.due + (others.map Call.due).sum := by
    rw [ids, Multiset.map_cons, Multiset.sum_cons, add_assoc]
  have hnew : ∀ id ∈ c.due, l.services.get? id = none := by
    intro id hid
    have hdisjoint := (Multiset.nodup_add.1 (Multiset.nodup_add.1 (hids ▸ h.nodup)).1).2.2
    exact Table.get?_eq_none_iff.2 fun hkey => Multiset.disjoint_left.1 hdisjoint hkey hid
  have hle : ids ⟨(c.step l).2, (c.step l).1 ::ₘ others, drawn⟩ ≤
      ids ⟨l, c ::ₘ others, drawn⟩ := by
    rw [hids, ids, Multiset.map_cons, Multiset.sum_cons, ← add_assoc]
    exact add_le_add_left (Call.keys_step hnew) _
  have hbalanced : l.Balanced (c.held + (others.map Call.held).sum)
      (c.claims + (others.map Call.claims).sum) := by
    simpa [held] using h.balanced
  obtain ⟨hnode, hmax⟩ := Call.frame_step l c
  refine ⟨hnode.trans h.node, hmax.trans h.max, ?_, Multiset.nodup_of_le hle h.nodup,
    fun id hid => h.drawn id (Multiset.mem_of_le hle hid)⟩
  simpa [held] using Call.balanced_step hbalanced hnew

theorem Sound.next (h : t.Sound node max) (hnext : Next t t') : t'.Sound node max := by
  cases hnext with
  | start _ o hnew => exact h.start o hnew
  | remove _ id =>
    refine ⟨h.node, h.max, ?_, ?_, ?_⟩
    · simpa [held, Call.held, Call.claims] using h.balanced
    · simpa [ids, Call.due] using h.nodup
    · simpa [ids, Call.due] using h.drawn
  | step l c others drawn => exact h.step

theorem Reachable.sound (hr : Reachable node max t) : t.Sound node max := by
  induction hr with
  | new => exact sound_new node max
  | next _ hnext ih => exact ih.next hnext

/-- What holds between any two steps of the calls on a ledger. -/
structure Orderly (max : UInt64) (t : Traffic) : Prop where
  /-- No more is reserved than there is. -/
  bounded : t.ledger.reserved.toNat ≤ max.toNat
  /-- What is reserved belongs to a service or is held by a call. -/
  memory : t.ledger.reserved.toNat = t.ledger.used + t.held
  /-- No call subtracts more than is reserved. -/
  subtracts : ∀ c ∈ t.calls, ∀ memory, c.subtracts? = some memory → memory ≤ t.ledger.reserved
  /-- No two services have one name. -/
  names : ∀ id id' s s', t.ledger.services.get? id = some s →
    t.ledger.services.get? id' = some s' → s.name = s'.name → id = id'
  /-- When all calls have ended, the names in use are those of the services. -/
  settled : (∀ c ∈ t.calls, c.ended = true) → ∀ name id, t.ledger.names.get? name = some id ↔
    ∃ s, t.ledger.services.get? id = some s ∧ s.id = id ∧ s.name = name

theorem Sound.claimed_of_ended (hended : ∀ c ∈ t.calls, c.ended = true) :
    (t.calls.map Call.claims).sum = 0 := by
  refine Multiset.sum_eq_zero fun x hx => ?_
  obtain ⟨c, hc, rfl⟩ := Multiset.mem_map.1 hx
  exact Call.claims_of_ended (hended c hc)

theorem Sound.le_reserved (h : t.Sound node max) {c : Call} (hc : c ∈ t.calls) :
    c.held ≤ t.ledger.reserved.toNat := by
  have hle : c.held ≤ t.held := Multiset.le_sum_of_mem (Multiset.mem_map_of_mem _ hc)
  have hmemory := h.balanced.memory
  omega

theorem books_kept (hr : Reachable node max t) : t.Orderly max := by
  have hsound := hr.sound
  have hbalanced := hsound.balanced
  refine ⟨hsound.max ▸ hbalanced.bounded, hbalanced.memory, fun c hc memory hm => ?_,
    fun id id' s s' hs hs' hname => ?_, fun hended name id => ?_⟩
  · have hle := hsound.le_reserved hc
    rw [Call.held_of_subtracts? hm] at hle
    exact UInt64.le_iff_toNat_le.2 hle
  · have hfirst := hbalanced.get?_names_iff.2 (.inl ⟨s, hs, rfl⟩)
    have hsecond := hbalanced.get?_names_iff.2 (.inl ⟨s', hs', hname.symm⟩)
    exact Option.some.inj (hfirst.symm.trans hsecond)
  · rw [hbalanced.get?_names_iff, Sound.claimed_of_ended hended]
    constructor
    · rintro (⟨s, hs, hname⟩ | hclaimed)
      · exact ⟨s, hs, hbalanced.keyed id s hs, hname⟩
      · exact absurd hclaimed (Multiset.notMem_zero _)
    · rintro ⟨s, hs, -, hname⟩
      exact .inl ⟨s, hs, hname⟩

/-- Calls that take their steps in turn, each named by its place. -/
def turns (l : Ledger) (calls : List Call) : List Nat → Ledger × List Call
  | [] => (l, calls)
  | k :: rest =>
    match calls[k]? with
    | none => turns l calls rest
    | some c => turns (c.step l).2 (calls.set k (c.step l).1) rest

theorem Reachable.turns {l : Ledger} {calls : List Call} {drawn : List Uuid}
    (hr : Reachable node max ⟨l, calls, drawn⟩) (places : List Nat) :
    Reachable node max ⟨(turns l calls places).1, (turns l calls places).2, drawn⟩ := by
  induction places generalizing l calls with
  | nil => exact hr
  | cons k rest ih =>
    rw [Traffic.turns]
    cases hk : calls[k]? with
    | none => exact ih hr
    | some c =>
      obtain ⟨hlt, rfl⟩ := List.getElem?_eq_some_iff.1 hk
      have hcalls : (calls : Multiset Call) = calls[k] ::ₘ calls.eraseIdx k :=
        Multiset.coe_eq_coe.2 (List.getElem_cons_eraseIdx_perm hlt).symm
      have hset : (calls.set k (calls[k].step l).1 : Multiset Call) =
          (calls[k].step l).1 ::ₘ calls.eraseIdx k :=
        Multiset.coe_eq_coe.2 (List.set_perm_cons_eraseIdx hlt _)
      refine ih (.next hr ?_)
      rw [hcalls, hset]
      exact .step ..

/-- One of several orders for a service of the same name. -/
def rival (n : Nat) : Order := ⟨{ task := "t", name := some "x", memory := 16 }, .fresh n, .epoch⟩

/-- Two calls start a service under the same name. Both have reserved memory, the second one has
claimed the name, and the first one is about to give its memory back. -/
def contested : Traffic :=
  let after := turns (.new "a" 40) [.ofOrder (rival 1), .ofOrder (rival 0)] [0, 1, 1, 0]
  ⟨after.1, after.2, [.fresh 1, .fresh 0]⟩

theorem contested_kept :
    Reachable "a" 40 contested ∧ contested.ledger.reserved = 32 ∧ contested.ledger.used = 0 ∧
      some 16 ∈ contested.calls.map Call.subtracts? ∧ contested.Orderly 40 := by
  have hcalled : Reachable "a" 40 ⟨.new "a" 40,
      ([.ofOrder (rival 1), .ofOrder (rival 0)] : List Call), [.fresh 1, .fresh 0]⟩ :=
    .next (.next .new (.start _ (rival 0) (by decide))) (.start _ (rival 1) (by decide))
  have hr : Reachable "a" 40 contested := hcalled.turns _
  exact ⟨hr, by decide +kernel, by decide +kernel, by decide +kernel, books_kept hr⟩

end Traffic

end Fleet.Ledger
