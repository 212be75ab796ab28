import Fleet.Proofs.Table
import Fleet.Service.Ledger

/-!
# What a ledger accounts for

Between two steps of a call the memory that is reserved is that of the services and what calls hold
on top of it, and the names in use are those of the services and what calls have claimed. Each step
moves memory and names between the two sides, and none of them gets lost or counted twice.

## Main definitions

* `Ledger.used` — the memory of the services that are there.
* `Ledger.Balanced` — the books of a ledger, given what calls hold and claim.
-/

namespace Fleet.Ledger

/-- The services that are there. -/
def present (l : Ledger) : Multiset Service := l.services.values

/-- The memory of the services that are there. -/
def used (l : Ledger) : Nat := (l.present.map (·.memory.toNat)).sum

/-- What is reserved and what is in use stands for the services that are there, and beyond these for
memory that is held and names that are claimed by somebody else. -/
structure Balanced (l : Ledger) (held : Nat) (claimed : Multiset (String × Uuid)) : Prop where
  memory : l.reserved.toNat = l.used + held
  bounded : l.reserved.toNat ≤ l.max.toNat
  names : (l.names.entries : Multiset (String × Uuid)) =
    l.present.map (fun s => (s.name, s.id)) + claimed
  keyed : ∀ id s, l.services.get? id = some s → s.id = id

theorem mem_present_iff {l : Ledger} {s : Service} :
    s ∈ l.present ↔ ∃ id, l.services.get? id = some s := by
  simp [present, Table.values, Table.get?_eq_some_iff]

theorem present_enter {l : Ledger} {s : Service} (h : l.services.get? s.id = none) :
    (l.enter s).present = s ::ₘ l.present :=
  congrArg (Multiset.map Prod.snd) (Table.entries_insert (v := s) h)

theorem present_of_get? {l : Ledger} {id : Uuid} {s : Service}
    (h : l.services.get? id = some s) :
    l.present = s ::ₘ { l with services := l.services.erase id }.present :=
  congrArg (Multiset.map Prod.snd) (Table.entries_erase h)

/-! ### Steps that succeed -/

theorem reserve_eq {l l' : Ledger} {memory : UInt64} (h : l.reserve memory = .ok l') :
    l.reserved.toNat + memory.toNat ≤ l.max.toNat ∧
      l' = { l with reserved := l.reserved + memory } := by
  rw [reserve] at h
  split at h
  · next hfits =>
    cases h
    exact ⟨hfits, rfl⟩
  · cases h

theorem claim?_eq {l l' : Ledger} {name : String} {id : Uuid} (h : l.claim? name id = some l') :
    l.names.get? name = none ∧ l' = { l with names := l.names.insert name id } := by
  rw [claim?, isTaken] at h
  split at h
  · cases h
  · next hfree =>
    cases h
    exact ⟨Table.contains_eq_false_iff.1 (by simpa using hfree), rfl⟩

theorem strike?_eq {l l' : Ledger} {id : Uuid} {s : Service} (h : l.strike? id = some (s, l')) :
    l.services.get? id = some s ∧ l' = { l with services := l.services.erase id } := by
  obtain ⟨s', hs, heq⟩ := Option.map_eq_some_iff.1 h
  cases heq
  exact ⟨hs, rfl⟩

/-- An amount that fits is added without running over. -/
theorem toNat_reserved_add {l : Ledger} {memory : UInt64}
    (h : l.reserved.toNat + memory.toNat ≤ l.max.toNat) :
    (l.reserved + memory).toNat = l.reserved.toNat + memory.toNat := by
  rw [UInt64.toNat_add]
  exact Nat.mod_eq_of_lt (h.trans_lt l.max.toNat_lt)

/-- The memory that is used by one service and by the rest. -/
theorem used_eq_add {l : Ledger} {id : Uuid} {s : Service} (h : l.services.get? id = some s) :
    l.used = s.memory.toNat + used { l with services := l.services.erase id } := by
  rw [used, present_of_get? h, Multiset.map_cons, Multiset.sum_cons, used]

/-! ### What the steps do to the books -/

namespace Balanced

variable {l l' : Ledger} {held : Nat} {claimed : Multiset (String × Uuid)}

theorem new (node : String) (max : UInt64) : (Ledger.new node max).Balanced 0 0 :=
  ⟨rfl, Nat.zero_le _, rfl, fun _ _ h => by cases h⟩

theorem setCounter (h : l.Balanced held claimed) (task : String) (n : UInt32) :
    (l.setCounter task n).Balanced held claimed :=
  ⟨h.memory, h.bounded, h.names, h.keyed⟩

theorem reserve (h : l.Balanced held claimed) {memory : UInt64}
    (hl : l.reserve memory = .ok l') : l'.Balanced (memory.toNat + held) claimed := by
  obtain ⟨hfits, rfl⟩ := reserve_eq hl
  have hsum := toNat_reserved_add hfits
  have hmemory := h.memory
  refine ⟨?_, hsum ▸ hfits, h.names, h.keyed⟩
  change (l.reserved + memory).toNat = l.used + (memory.toNat + held)
  omega

theorem release {memory : UInt64} (h : l.Balanced (memory.toNat + held) claimed) :
    (l.release memory).Balanced held claimed := by
  have hmemory := h.memory
  have hbounded := h.bounded
  have hle : memory ≤ l.reserved := UInt64.le_iff_toNat_le.2 (by omega)
  have hdiff : (l.reserved - memory).toNat = l.reserved.toNat - memory.toNat :=
    UInt64.toNat_sub_of_le _ _ hle
  refine ⟨?_, ?_, h.names, h.keyed⟩
  · change (l.reserved - memory).toNat = l.used + held
    omega
  · change (l.reserved - memory).toNat ≤ l.max.toNat
    omega

theorem claim (h : l.Balanced held claimed) {name : String} {id : Uuid}
    (hl : l.claim? name id = some l') : l'.Balanced held ({(name, id)} + claimed) := by
  obtain ⟨hnone, rfl⟩ := claim?_eq hl
  refine ⟨h.memory, h.bounded, ?_, h.keyed⟩
  calc ((l.names.insert name id).entries : Multiset (String × Uuid))
      = (name, id) ::ₘ l.names.entries := Table.entries_insert hnone
    _ = l.present.map (fun s => (s.name, s.id)) + ({(name, id)} + claimed) := by
      rw [h.names, Multiset.singleton_add, Multiset.add_cons]

theorem enter {s : Service} (h : l.Balanced (s.memory.toNat + held) ({(s.name, s.id)} + claimed))
    (hnew : l.services.get? s.id = none) : (l.enter s).Balanced held claimed := by
  have hpresent := present_enter hnew
  refine ⟨?_, h.bounded, ?_, fun id s' hs' => ?_⟩
  · have hused : (l.enter s).used = s.memory.toNat + l.used := by
      rw [used, hpresent, Multiset.map_cons, Multiset.sum_cons, used]
    rw [hused, Nat.add_comm s.memory.toNat, Nat.add_assoc]
    exact h.memory
  · rw [hpresent, Multiset.map_cons, Multiset.cons_add, ← Multiset.add_cons,
      ← Multiset.singleton_add (_, _) claimed]
    exact h.names
  · rw [Ledger.enter, Table.get?_insert] at hs'
    split at hs'
    · next heq =>
      cases hs'
      exact heq.symm
    · exact h.keyed id s' hs'

theorem strike (h : l.Balanced held claimed) {id : Uuid} {s : Service}
    (hl : l.strike? id = some (s, l')) :
    l'.Balanced (s.memory.toNat + held) ({(s.name, s.id)} + claimed) := by
  obtain ⟨hs, rfl⟩ := strike?_eq hl
  have hpresent := present_of_get? hs
  refine ⟨?_, h.bounded, ?_, fun id' s' hs' => ?_⟩
  · have hused := used_eq_add hs
    have hmemory := h.memory
    change l.reserved.toNat = _
    omega
  · rw [Multiset.singleton_add, Multiset.add_cons, ← Multiset.cons_add,
      ← Multiset.map_cons (fun s : Service => (s.name, s.id)), ← hpresent]
    exact h.names
  · rw [Table.get?_erase] at hs'
    split at hs'
    · cases hs'
    · exact h.keyed id' s' hs'

/-- A name that is claimed or that a service has is in use for it. -/
theorem get?_names_iff (h : l.Balanced held claimed) {name : String} {id : Uuid} :
    l.names.get? name = some id ↔
      (∃ s, l.services.get? id = some s ∧ s.name = name) ∨ (name, id) ∈ claimed := by
  rw [Table.get?_eq_some_iff, ← Multiset.mem_coe, h.names, Multiset.mem_add, Multiset.mem_map]
  refine or_congr_left ⟨?_, ?_⟩
  · rintro ⟨s, hs, heq⟩
    obtain ⟨id', hs'⟩ := mem_present_iff.1 hs
    cases heq
    exact ⟨s, h.keyed _ _ hs' ▸ hs', rfl⟩
  · rintro ⟨s, hs, rfl⟩
    exact ⟨s, mem_present_iff.2 ⟨id, hs⟩, by rw [h.keyed _ _ hs]⟩

theorem freeName {name : String} {id : Uuid} (h : l.Balanced held ({(name, id)} + claimed)) :
    (l.freeName name).Balanced held claimed := by
  refine ⟨h.memory, h.bounded, ?_, h.keyed⟩
  have hname : l.names.get? name = some id := h.get?_names_iff.2 (.inr (by simp))
  have hnames := h.names
  rw [Table.entries_erase hname, Multiset.singleton_add, Multiset.add_cons,
    Multiset.cons_inj_right] at hnames
  exact hnames

end Balanced

end Fleet.Ledger
