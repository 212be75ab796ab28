import Fleet.Member.Roster
import Fleet.Proofs.Instant
import Fleet.Proofs.Table

/-!
# Rosters keep a roll

A roster keeps its peers by id, each with the number of its registration, and the node itself apart
from them; it lists the members by sorting the peers by these numbers.  The roll is what it stands
for: the plain list of the members, the node itself first, which registering extends at its end,
unregistering shortens, and nothing else but a change in place touches.  Roster and roll give the
same answers and show the same members, whatever is done to them.

That the listing is the roll does not rest on how the peers lie in the store: the numbers are all
different, so any arrangement of them is sorted into the same order.

## Main definitions

* `Op`, `Roster.perform`, `Roster.run` — the operations, one and in sequence.
* `Roll`, `Roll.perform`, `Roll.run` — the reference.
* `Roster.Shows` — all that can be read from a roster is read from a roll.
* `Roster.Sorted`, `Roster.roll` — the peers lie in order in the store, and the roll they make.
* `Roster.InStep` — an operation on both gives one answer and leaves the two in step.
* `Roster.Leads` — operations of one kind lead from one roster to another.

## Main statements

* `Roster.Sorted.perform` — every operation does so on a roster that is in order.
* `Roster.behaves_as_roll` — so it is in every run.
* `Roster.members_wrapped` — numbers of 64 bits that wrap list the same members.
-/

namespace Fleet

/-- An operation on a roster. -/
inductive Roster.Op where
  | register (i : Identity)
  | unregister (id : String)
  | report (id : String) (load : Load)
  | markConnected (id : String) (connected : Bool)

/-- What an operation answers: the member that came or went, if one did, or a refusal. -/
abbrev Roster.Answer := Except RosterError (Option Member)

namespace Roster

/-- An operation's answer and the roster after it; a refused one leaves the roster as it is. -/
def perform (r : Roster) : Op → Answer × Roster
  | .register i => match r.register i with
    | .ok (m, r) => (.ok (some m), r)
    | .error e => (.error e, r)
  | .unregister id => match r.unregister id with
    | .ok (m, r) => (.ok (some m), r)
    | .error e => (.error e, r)
  | .report id load => match r.report id load with
    | .ok r => (.ok none, r)
    | .error e => (.error e, r)
  | .markConnected id connected => match r.markConnected id connected with
    | .ok r => (.ok none, r)
    | .error e => (.error e, r)

/-- The roster after several operations. -/
def run (r : Roster) (ops : List Op) : Roster := ops.foldl (fun r op => (r.perform op).2) r

theorem run_append (r : Roster) (ops later : List Op) :
    r.run (ops ++ later) = (r.run ops).run later := List.foldl_append ..

theorem run_concat (r : Roster) (ops : List Op) (op : Op) :
    r.run (ops ++ [op]) = ((r.run ops).perform op).2 := r.run_append ops [op]

/-- Operations of one kind lead from one roster to another. -/
def Leads (kind : Op → Prop) (r r' : Roster) : Prop := ∃ ops, (∀ op ∈ ops, kind op) ∧ r' = r.run ops

namespace Leads

variable {kind kind' : Op → Prop} {r r' r'' : Roster}

theorem refl (r : Roster) : r.Leads kind r := ⟨[], by simp, rfl⟩

theorem perform (r : Roster) {op : Op} (h : kind op) : r.Leads kind (r.perform op).2 :=
  ⟨[op], by simpa using h, rfl⟩

theorem mono (h : r.Leads kind r') (hkind : ∀ op, kind op → kind' op) : r.Leads kind' r' := by
  obtain ⟨ops, hops, rfl⟩ := h
  exact ⟨ops, fun op hop => hkind op (hops op hop), rfl⟩

/-- What every operation of a kind keeps is kept. -/
theorem keeps (keep : Roster → Prop) (h : r.Leads kind r') (hr : keep r)
    (hstep : ∀ r op, kind op → keep r → keep (r.perform op).2) : keep r' := by
  obtain ⟨ops, hops, rfl⟩ := h
  induction ops generalizing r with
  | nil => exact hr
  | cons op rest ih =>
    exact ih (hstep r op (hops op List.mem_cons_self) hr)
      fun op hop => hops op (List.mem_cons_of_mem _ hop)

end Leads

/-- The listing that a roster gives if its peers lie in its store in a given order. -/
def listing (r : Roster) (stored : List Entry) : List Member :=
  r.self :: ((stored.mergeSort fun a b => a.number ≤ b.number).map (·.member))

theorem members_eq_listing (r : Roster) : r.members = r.listing r.peers.values := rfl

end Roster

/-- The members in the order in which they are listed. -/
abbrev Roll := List Member

namespace Roll

open Roster (Op Answer)

/-- The ids on a roll. -/
def ids (roll : Roll) : List String := roll.map Member.id

/-- The first entry with an id. -/
def at? (roll : Roll) (id : String) : Option Member := roll.find? (·.id = id)

/-- Changes the entries with an id in place. -/
def amend (roll : Roll) (id : String) (f : Member → Member) : Roll :=
  roll.map fun m => if m.id = id then f m else m

/-- A member with a load, unless the one it has is of a later time. -/
def withLoad (load : Load) (m : Member) : Member :=
  if ∃ old ∈ m.load, load.at_ < old.at_ then m else { m with load := some load }

/-- An id that is on the roll once leads to its entry. -/
theorem at?_of_mem {roll : Roll} (h : roll.ids.Nodup) {m : Member} (hm : m ∈ roll) :
    roll.at? m.id = some m := by
  cases hfound : roll.at? m.id with
  | none => exact absurd (decide_eq_true rfl) (List.find?_eq_none.1 hfound m hm)
  | some m' =>
    have hdecide := List.find?_some hfound
    have hid : m'.id = m.id := of_decide_eq_true hdecide
    rw [List.inj_on_of_nodup_map h (List.mem_of_find?_eq_some hfound) hm hid]

theorem report_eq (load : Load) : (Member.report · load) = withLoad load := by
  funext m
  obtain ⟨identity, old, available⟩ := m
  cases old with
  | none => simp [Member.report, Member.accepts, withLoad]
  | some old =>
    have hle : old.at_ ≤ load.at_ ↔ ¬ load.at_ < old.at_ := not_lt.symm
    change old.at_.le load.at_ = true ↔ _ at hle
    by_cases h : load.at_ < old.at_ <;> simp [Member.report, Member.accepts, withLoad, hle, h]

/-- An operation's answer and the roll after it, on the roll of the node `me`. -/
def perform (me : String) (roll : Roll) : Op → Answer × Roll
  | .register i =>
    if i.id ∈ roll.ids then (.error (.registered i.id), roll)
    else (.ok (some ⟨i, none, false⟩), roll ++ [⟨i, none, false⟩])
  | .unregister id =>
    if id = me then (.error (.isSelf id), roll)
    else match roll.at? id with
      | none => (.error (.unknown id), roll)
      | some m => (.ok (some m), roll.filter (·.id ≠ id))
  | .report id load =>
    if id ∈ roll.ids then (.ok none, roll.amend id (withLoad load))
    else (.error (.unknown id), roll)
  | .markConnected id connected =>
    if id = me then (.ok none, roll)
    else if id ∈ roll.ids then (.ok none, roll.amend id ({ · with available := connected }))
    else (.error (.unknown id), roll)

/-- The roll of a node after several operations, at first with the node alone on it. -/
def run (me : Identity) (ops : List Op) : Roll :=
  ops.foldl (fun roll op => (roll.perform me.id op).2) [⟨me, none, true⟩]

end Roll

namespace Roster

/-- All that can be read from the roster of a node is read from a roll. -/
structure Shows (r : Roster) (me : Identity) (roll : Roll) : Prop where
  members : r.members = roll
  /-- The order in which the store gives the peers does not matter. -/
  arranged : ∀ stored, stored.Perm r.peers.values → r.listing stored = roll
  distinct : roll.ids.Nodup
  size : r.size = roll.length
  find? : ∀ id, r.find? id = roll.at? id
  first : roll.head? = some r.self ∧ r.self.identity = me ∧ r.self.available = true

/-- The numbers of the peers as they lie in the store. -/
def numbers (r : Roster) : List Nat := r.peers.entries.map fun p => p.2.number

/-- The roster of a node is in order: the peers lie in its store by rising numbers, each under its
own id, and the node is not among them. -/
structure Sorted (r : Roster) (me : Identity) : Prop where
  identity : r.self.identity = me
  available : r.self.available = true
  keyed : ∀ p ∈ r.peers.entries, p.2.member.id = p.1
  others : me.id ∉ r.peers.keys
  rising : r.numbers.Pairwise (· < ·)
  below : ∀ n ∈ r.numbers, n < r.next

/-- The roll of a roster that is in order. -/
def roll (r : Roster) : Roll := r.self :: r.peers.entries.map fun p => p.2.member

/-- An operation on a roster and on its roll gives one answer, and leaves the roster in order and
the two in step. -/
def InStep (r : Roster) (me : Identity) (op : Op) : Prop :=
  (r.perform op).2.Sorted me ∧ r.roll.perform me.id op = ((r.perform op).1, (r.perform op).2.roll)

variable {me : Identity} {r : Roster} {id : String}

/-- An operation that is refused changes nothing. -/
theorem perform_of_error {op : Op} {e : RosterError} (h : (r.perform op).1 = .error e) :
    (r.perform op).2 = r := by
  cases op with
  | register i =>
    rw [perform] at h ⊢
    cases hr : r.register i with
    | ok p => simp [hr] at h
    | error e => rfl
  | unregister id =>
    rw [perform] at h ⊢
    cases hr : r.unregister id with
    | ok p => simp [hr] at h
    | error e => rfl
  | report id load =>
    rw [perform] at h ⊢
    cases hr : r.report id load with
    | ok r' => simp [hr] at h
    | error e => rfl
  | markConnected id connected =>
    rw [perform] at h ⊢
    cases hr : r.markConnected id connected with
    | ok r' => simp [hr] at h
    | error e => rfl

theorem numbers_update (r : Roster) (id : String) (f : Member → Member) :
    (r.update id f).numbers = r.numbers := by
  rw [numbers, update, Table.entries_modify, List.map_map, numbers]
  refine List.map_congr_left fun p _ => ?_
  simp only [Function.comp]
  split <;> rfl

namespace Sorted

theorem new (me : Identity) : (Roster.new me).Sorted me where
  identity := rfl
  available := rfl
  keyed := by simp [Roster.new, Table.empty]
  others := by simp [Roster.new, Table.empty, Table.keys]
  rising := List.Pairwise.nil
  below := by simp [Roster.new, Table.empty, numbers]

theorem selfId (h : r.Sorted me) : r.selfId = me.id := by
  rw [Roster.selfId, Member.id, h.identity]

/-! ### Reading a roster -/

/-- Any arrangement of the peers is sorted into the one order there is. -/
theorem listing_eq (h : r.Sorted me) {stored : List Entry} (hs : stored.Perm r.peers.values) :
    r.listing stored = r.roll := by
  have hrising : (r.peers.values.map (·.number)).Pairwise (· < ·) := by
    rw [Table.values, List.map_map]
    exact h.rising
  have heq : stored.mergeSort (fun a b => a.number ≤ b.number) = r.peers.values := by
    refine mergeSort_eq_of_perm (fun a b c => ?_) (fun a b => ?_)
      ((List.pairwise_map.1 hrising).imp fun hlt => ?_) hs
    · simp only [decide_eq_true_eq]
      exact Nat.le_trans
    · simp only [Bool.or_eq_true, decide_eq_true_eq]
      exact Nat.le_total ..
    · exact ⟨decide_eq_true (Nat.le_of_lt hlt), decide_eq_false (Nat.not_le_of_lt hlt)⟩
  rw [listing, heq, roll, Table.values, List.map_map]
  rfl

/-- Numbers of 64 bits that wrap sort the peers into the same order, as long as no number has come a
second time. -/
theorem listing_wrapped (h : r.Sorted me) (hnext : r.next ≤ 2 ^ 64) {stored : List Entry}
    (hs : stored.Perm r.peers.values) :
    r.self :: ((stored.mergeSort fun a b =>
      UInt64.ofNat a.number ≤ UInt64.ofNat b.number).map (·.member)) = r.roll := by
  have hbelow (e : Entry) (he : e ∈ stored) : e.number < UInt64.size := by
    obtain ⟨p, hp, rfl⟩ := List.mem_map.1 (hs.mem_iff.1 he)
    exact Nat.lt_of_lt_of_le (h.below _ (List.mem_map.2 ⟨p, hp, rfl⟩)) hnext
  have hsame : stored.mergeSort (fun a b => UInt64.ofNat a.number ≤ UInt64.ofNat b.number) =
      stored.mergeSort fun a b => a.number ≤ b.number := by
    refine mergeSort_congr fun a ha b hb => ?_
    simp only [UInt64.ofNat_le_iff_le (hbelow a ha) (hbelow b hb)]
  rw [hsame]
  exact h.listing_eq hs

/-- The ids on the roll are the node's own and the keys of the store. -/
theorem ids_roll (h : r.Sorted me) : r.roll.ids = me.id :: r.peers.keys := by
  rw [Roll.ids, roll, List.map_cons, List.map_map, ← h.selfId]
  exact congrArg (r.selfId :: ·) (List.map_congr_left h.keyed)

theorem mem_ids_roll (h : r.Sorted me) (id : String) :
    id ∈ r.roll.ids ↔ id = r.selfId ∨ r.peers.contains id = true := by
  rw [h.ids_roll, List.mem_cons, h.selfId, Table.mem_keys_iff, Table.contains_iff]

theorem at?_peers {entries : List (String × Entry)} (h : ∀ p ∈ entries, p.2.member.id = p.1) :
    Roll.at? (entries.map fun p => p.2.member) id = (Table.lookup id entries).map (·.member) := by
  induction entries with
  | nil => rfl
  | cons p rest ih =>
    obtain ⟨key, e⟩ := p
    have hkey : e.member.id = key := h _ List.mem_cons_self
    have hrest := ih fun p hp => h p (List.mem_cons_of_mem _ hp)
    rw [List.map_cons, Roll.at?, List.find?_cons, hkey, Table.lookup]
    by_cases hid : id = key
    · simp [hid]
    · rw [if_neg hid, decide_eq_false (Ne.symm hid)]
      exact hrest

theorem find?_eq (h : r.Sorted me) (id : String) : r.find? id = r.roll.at? id := by
  rw [Roster.find?, Roll.at?, roll, List.find?_cons]
  by_cases hid : id = r.selfId
  · simp [hid, Roster.selfId]
  · have hne : ¬ r.self.id = id := fun heq => hid heq.symm
    rw [if_neg hid, decide_eq_false hne]
    exact (at?_peers h.keyed).symm

theorem shows (h : r.Sorted me) : r.Shows me r.roll where
  members := r.members_eq_listing.trans (h.listing_eq (.refl _))
  arranged _ hs := h.listing_eq hs
  distinct := by
    rw [h.ids_roll]
    exact List.nodup_cons.2 ⟨h.others, r.peers.nodup⟩
  size := by simp [size, roll, Table.size]
  find? := h.find?_eq
  first := ⟨rfl, h.identity, h.available⟩

/-! ### Changing a roster -/

/-- A peer that is entered under the next number comes last. -/
theorem enter (h : r.Sorted me) {i : Identity} (hself : i.id ≠ r.selfId)
    (hnew : r.peers.get? i.id = none) :
    Sorted { r with
      peers := r.peers.insert i.id ⟨r.next, .new i⟩
      next := r.next + 1 } me where
  identity := h.identity
  available := h.available
  keyed p hp := by
    rw [Table.entries_insert_new hnew, List.mem_append, List.mem_singleton] at hp
    rcases hp with hp | rfl
    · exact h.keyed p hp
    · rfl
  others := by
    rw [Table.keys, Table.entries_insert_new hnew, List.map_append, List.mem_append, not_or]
    exact ⟨h.others, by simpa [h.selfId] using hself.symm⟩
  rising := by
    rw [numbers, Table.entries_insert_new hnew, List.map_append, List.pairwise_append]
    refine ⟨h.rising, List.pairwise_singleton .., fun n hn next hnext => ?_⟩
    rw [List.mem_singleton.1 hnext]
    exact h.below n hn
  below n hn := by
    rw [numbers, Table.entries_insert_new hnew, List.map_append, List.mem_append] at hn
    rcases hn with hn | hn
    · exact Nat.lt_succ_of_lt (h.below n hn)
    · rw [List.mem_singleton.1 hn]
      exact Nat.lt_succ_self _

/-- The entries of the peers on the roll change together with those in the store. -/
theorem roll_erase (h : r.Sorted me) {id : String} (hself : id ≠ r.selfId) :
    r.roll.filter (·.id ≠ id) = roll { r with peers := r.peers.erase id } := by
  have hme : decide (r.self.id ≠ id) = true := decide_eq_true (Ne.symm hself)
  rw [roll, List.filter_cons, if_pos hme, List.filter_map, roll, Table.erase]
  refine congrArg (r.self :: List.map _ ·) (List.filter_congr fun p hp => ?_)
  simp [h.keyed p hp]

theorem roll_update (h : r.Sorted me) {id : String} (hself : id ≠ r.selfId)
    (f : Member → Member) : (r.update id f).roll = r.roll.amend id f := by
  have hme : r.self.id ≠ id := Ne.symm hself
  rw [roll, Roll.amend, roll, List.map_cons, if_neg hme, Roster.update, Table.entries_modify,
    List.map_map, List.map_map]
  refine congrArg (r.self :: ·) (List.map_congr_left fun p hp => ?_)
  simp only [Function.comp, h.keyed p hp]
  split <;> rfl

theorem roll_self (h : r.Sorted me) {id : String} (hself : id = r.selfId) (f : Member → Member) :
    r.roll.amend id f = roll { r with self := f r.self } := by
  have hme : r.self.id = id := hself.symm
  rw [roll, Roll.amend, List.map_cons, if_pos hme, roll, List.map_map]
  refine congrArg (f r.self :: ·) (List.map_congr_left fun p hp => if_neg fun heq => ?_)
  refine h.others ?_
  rw [← h.selfId, ← hself, ← heq, h.keyed p hp]
  exact List.mem_map_of_mem hp

/-- A peer that is taken out leaves the order of the others. -/
theorem erase (h : r.Sorted me) (id : String) :
    Sorted { r with peers := r.peers.erase id } me where
  identity := h.identity
  available := h.available
  keyed p hp := h.keyed p (List.mem_of_mem_filter hp)
  others hin := h.others ((List.filter_sublist.map _).mem hin)
  rising := h.rising.sublist (List.filter_sublist.map _)
  below n hn := h.below n ((List.filter_sublist.map _).mem hn)

/-- A peer that is changed but for its identity stays where it is. -/
theorem update (h : r.Sorted me) (id : String) {f : Member → Member}
    (hf : ∀ m, (f m).identity = m.identity) : (r.update id f).Sorted me where
  identity := h.identity
  available := h.available
  keyed p hp := by
    obtain ⟨q, hq, rfl⟩ := List.mem_map.1 hp
    split
    · rw [Member.id, hf]
      exact h.keyed q hq
    · exact h.keyed q hq
  others := by
    rw [Table.keys, Roster.update, Table.modify, Table.keys_modifyEntries]
    exact h.others
  rising := by
    rw [numbers_update]
    exact h.rising
  below n hn := h.below n (numbers_update r id f ▸ hn)

theorem register (h : r.Sorted me) (i : Identity) : r.InStep me (.register i) := by
  have hlisted := h.mem_ids_roll i.id
  rw [InStep, Roll.perform, Roster.perform, Roster.register]
  by_cases hin : i.id = r.selfId ∨ r.peers.contains i.id = true
  · rw [if_pos (hlisted.2 hin), if_pos hin]
    exact ⟨h, rfl⟩
  · rw [if_neg (mt hlisted.1 hin), if_neg hin]
    simp only [not_or, Bool.not_eq_true, Table.contains_eq_false_iff] at hin
    obtain ⟨hself, hnew⟩ := hin
    refine ⟨h.enter hself hnew, ?_⟩
    simp [roll, Table.entries_insert_new hnew, Member.new]

theorem unregister (h : r.Sorted me) (id : String) : r.InStep me (.unregister id) := by
  rw [InStep, Roll.perform, ← h.find?_eq, Roster.perform, Roster.unregister, Roster.find?,
    ← h.selfId]
  by_cases hself : id = r.selfId
  · rw [if_pos hself, if_pos hself]
    exact ⟨h, rfl⟩
  · rw [if_neg hself, if_neg hself, if_neg hself]
    cases hpeer : r.peers.get? id with
    | none => exact ⟨h, rfl⟩
    | some e => exact ⟨h.erase id, congrArg _ (h.roll_erase hself)⟩

theorem report (h : r.Sorted me) (id : String) (load : Load) :
    r.InStep me (.report id load) := by
  have hlisted := h.mem_ids_roll id
  rw [InStep, Roll.perform, ← Roll.report_eq, Roster.perform, Roster.report]
  by_cases hself : id = r.selfId
  · rw [if_pos (hlisted.2 (.inl hself)), if_pos hself]
    refine ⟨⟨?_, ?_, h.keyed, h.others, h.rising, h.below⟩, congrArg _ (h.roll_self hself _)⟩
    · exact (Member.identity_report ..).trans h.identity
    · exact (Member.available_report ..).trans h.available
  · rw [if_neg hself]
    by_cases hpeer : r.peers.contains id = true
    · rw [if_pos hpeer, if_pos (hlisted.2 (.inr hpeer)), ← h.roll_update hself]
      exact ⟨h.update id (Member.identity_report · load), rfl⟩
    · rw [if_neg hpeer, if_neg (mt hlisted.1 (not_or.2 ⟨hself, hpeer⟩))]
      exact ⟨h, rfl⟩

theorem markConnected (h : r.Sorted me) (id : String) (connected : Bool) :
    r.InStep me (.markConnected id connected) := by
  have hlisted := h.mem_ids_roll id
  rw [InStep, Roll.perform, Roster.perform, Roster.markConnected, ← h.selfId]
  by_cases hself : id = r.selfId
  · rw [if_pos hself, if_pos hself]
    exact ⟨h, rfl⟩
  · rw [if_neg hself, if_neg hself]
    by_cases hpeer : r.peers.contains id = true
    · rw [if_pos hpeer, if_pos (hlisted.2 (.inr hpeer)), ← h.roll_update hself]
      exact ⟨h.update id (f := ({ · with available := connected })) fun _ => rfl, rfl⟩
    · rw [if_neg hpeer, if_neg (mt hlisted.1 (not_or.2 ⟨hself, hpeer⟩))]
      exact ⟨h, rfl⟩

theorem perform (h : r.Sorted me) (op : Op) : r.InStep me op := by
  cases op with
  | register i => exact h.register i
  | unregister id => exact h.unregister id
  | report id load => exact h.report id load
  | markConnected id connected => exact h.markConnected id connected

theorem leads (h : r.Sorted me) {kind : Op → Prop} {r' : Roster} (hleads : r.Leads kind r') :
    r'.Sorted me :=
  hleads.keeps (·.Sorted me) h fun _ op _ h => (h.perform op).1

end Sorted

/-- In every run a roster stays in order, and its roll is the one that the operations make. -/
theorem run_new (me : Identity) (ops : List Op) :
    ((Roster.new me).run ops).Sorted me ∧ ((Roster.new me).run ops).roll = Roll.run me ops := by
  induction ops using List.reverseRecOn with
  | nil => exact ⟨.new me, rfl⟩
  | append_singleton ops op ih =>
    obtain ⟨hsorted, hroll⟩ := ih
    obtain ⟨hnext, heq⟩ := hsorted.perform op
    rw [run_concat, Roll.run, List.foldl_append, ← Roll.run, ← hroll]
    exact ⟨hnext, (congrArg Prod.snd heq).symm⟩

/-- An operation gives out one number at most. -/
theorem next_perform_le (r : Roster) (op : Op) : (r.perform op).2.next ≤ r.next + 1 := by
  cases op with
  | register i =>
    rw [perform, register]
    split_ifs
    · exact Nat.le_succ _
    · exact Nat.le_refl _
  | unregister id =>
    rw [perform, unregister]
    split_ifs
    · exact Nat.le_succ _
    · cases r.peers.get? id <;> exact Nat.le_succ _
  | report id load =>
    rw [perform, report]
    split_ifs <;> exact Nat.le_succ _
  | markConnected id connected =>
    rw [perform, markConnected]
    split_ifs <;> exact Nat.le_succ _

theorem next_run_le (me : Identity) (ops : List Op) : ((new me).run ops).next ≤ ops.length := by
  induction ops using List.reverseRecOn with
  | nil => exact Nat.le_refl 0
  | append_singleton ops op ih =>
    rw [run_concat, List.length_append]
    exact Nat.le_trans (next_perform_le _ op) (Nat.succ_le_succ ih)

/-- In a run that is not so long that a number comes a second time, a roster whose numbers have 64
bits and wrap lists the same members in the same order. -/
theorem members_wrapped {ops : List Op} (hops : ops.length ≤ 2 ^ 64) (me : Identity)
    {stored : List Entry} (hs : stored.Perm ((new me).run ops).peers.values) :
    ((new me).run ops).self :: ((stored.mergeSort fun a b =>
      UInt64.ofNat a.number ≤ UInt64.ofNat b.number).map (·.member)) =
        ((new me).run ops).members := by
  have hsorted := (run_new me ops).1
  rw [hsorted.listing_wrapped (Nat.le_trans (next_run_le me ops) hops) hs, hsorted.shows.members]

/-- Whatever operations come, what a roster answers and shows is what the roll answers and is. -/
theorem behaves_as_roll (me : Identity) (ops : List Op) :
    ((new me).run ops).Shows me (Roll.run me ops) ∧
      ∀ op, (((new me).run ops).perform op).1 = ((Roll.run me ops).perform me.id op).1 ∧
        (((new me).run ops).perform op).2.Shows me ((Roll.run me ops).perform me.id op).2 ∧
          ∀ e, (((new me).run ops).perform op).1 = .error e →
            (((new me).run ops).perform op).2 = (new me).run ops := by
  obtain ⟨hsorted, hroll⟩ := run_new me ops
  refine ⟨hroll ▸ hsorted.shows, fun op => ?_⟩
  obtain ⟨hnext, heq⟩ := hsorted.perform op
  rw [← hroll, heq]
  exact ⟨rfl, hnext.shows, fun e => perform_of_error⟩

end Roster

end Fleet
