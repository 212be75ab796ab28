import Fleet.Proofs.Member.Head
import Fleet.Proofs.Member.Newest
import Mathlib.Data.String.Basic
import Mathlib.Order.Bounds.Basic

/-!
# Who follows the head

The head is the least of the ids that a node counts as available, and that says all of it: neither
the order of the registrations nor the loads nor the members that are not available have a part in
it. So an operation moves the head only by changing this set. A peer that becomes available is the
new head if its id is smaller than the head's; a peer that leaves is followed by the next one if it
was the head; nothing else moves it.

## Main definitions

* `Roster.up` — the ids of the available members.
* `Roster.IsPeer` — a member other than the node itself.

## Main statements

* `Roster.Sorted.isLeast_head` — the head is the least of them.
* `Roster.Sorted.mem_up_perform_iff` — what an operation does to this set, and from it, operation
  by operation, `up_register`, `up_report`, `up_markConnected_true`, `up_markConnected_false` and
  `up_unregister`.
* `Roster.least_available` — the head in every run, and who follows it.
-/

namespace Fleet.Roster

/-- The ids of the members that are available. -/
def up (r : Roster) : Set String := {id | ∃ m ∈ r.available, m.id = id}

/-- A member other than the node itself. -/
def IsPeer (r : Roster) (id : String) : Prop := id ≠ r.selfId ∧ ∃ m ∈ r.members, m.id = id

variable {me : Identity} {r r' : Roster} {p : String}

theorem mem_available {m : Member} : m ∈ r.available ↔ m ∈ r.members ∧ m.available = true := by
  simp [available]

/-! ### The head is the least available id -/

theorem Sorted.members_eq (h : r.Sorted me) : r.members = r.roll := h.shows.members

theorem members_run (me : Identity) (ops : List Op) :
    ((new me).run ops).members = Roll.run me ops :=
  (run_new me ops).1.members_eq.trans (run_new me ops).2

theorem Sorted.isLeast_head (h : r.Sorted me) : IsLeast r.up r.head.id := by
  refine ⟨⟨r.head, head_mem_available h.available, rfl⟩, ?_⟩
  rintro id ⟨m, hm, rfl⟩
  exact head_le h.available hm

/-- Two members that have one id are the same. -/
theorem Sorted.eq_of_id_eq (h : r.Sorted me) {m m' : Member} (hm : m ∈ r.members)
    (hm' : m' ∈ r.members) (hid : m.id = m'.id) : m = m' := by
  rw [h.members_eq] at hm hm'
  exact List.inj_on_of_nodup_map h.shows.distinct hm hm' hid

/-- Every other available member has a greater id. -/
theorem Sorted.head_lt_of_ne (h : r.Sorted me) {m : Member} (hm : m ∈ r.available)
    (hne : m ≠ r.head) : r.head.id < m.id := by
  refine lt_of_le_of_ne (head_le h.available hm) fun hid => hne ?_
  have hhead := head_mem_available h.available
  exact h.eq_of_id_eq (mem_available.1 hm).1 (mem_available.1 hhead).1 hid.symm

theorem Sorted.self_mem_up (h : r.Sorted me) : r.selfId ∈ r.up :=
  ⟨r.self, mem_available.2 ⟨List.mem_cons_self, h.available⟩, rfl⟩

/-- The node itself is the head if no available peer has a smaller id. -/
theorem Sorted.isSelfHead_iff (h : r.Sorted me) :
    r.isSelfHead = true ↔
      ∀ m ∈ r.members, m.available = true → m.id ≠ r.selfId → ¬ m.id < r.selfId := by
  rw [isSelfHead, decide_eq_true_eq]
  constructor
  · intro hself m hm hup _
    rw [← hself, not_lt]
    exact head_le h.available (mem_available.2 ⟨hm, hup⟩)
  · intro hall
    by_contra hne
    obtain ⟨hmember, havailable⟩ := mem_available.1 (head_mem_available h.available)
    exact hall r.head hmember havailable hne (head_lt h.available hne)

/-- Who the head is depends on nothing but the ids that are available. -/
theorem Sorted.head_eq_of_up_eq {me' : Identity} (h : r.Sorted me) (h' : r'.Sorted me')
    (hup : r'.up = r.up) : r'.head.id = r.head.id := by
  have hleast' := h'.isLeast_head
  rw [hup] at hleast'
  exact hleast'.unique h.isLeast_head

/-! ### What the operations do to the available ids -/

/-- What is found under an id is the member that has it. -/
theorem Sorted.find?_eq_some_iff (h : r.Sorted me) {id : String} {m : Member} :
    r.find? id = some m ↔ m ∈ r.members ∧ m.id = id := by
  rw [h.find?_eq, h.members_eq]
  constructor
  · intro hfound
    have hid := List.find?_some (p := fun m : Member => m.id = id) hfound
    exact ⟨List.mem_of_find?_eq_some hfound, of_decide_eq_true hid⟩
  · rintro ⟨hm, rfl⟩
    exact Roll.at?_of_mem h.shows.distinct hm

theorem Sorted.mem_up_iff (h : r.Sorted me) {id : String} :
    id ∈ r.up ↔ ∃ m, r.find? id = some m ∧ m.available = true := by
  simp only [up, Set.mem_ofPred_eq, mem_available, h.find?_eq_some_iff, and_right_comm]

theorem Sorted.isPeer_iff (h : r.Sorted me) :
    r.IsPeer p ↔ p ≠ r.selfId ∧ ∃ m, r.find? p = some m := by
  simp only [IsPeer, h.find?_eq_some_iff]

/-- What an operation does to the available ids, told by what it does to each member. -/
theorem Sorted.mem_up_perform_iff (h : r.Sorted me) {op : Op} {id : String} :
    id ∈ (r.perform op).2.up ↔
      ∃ m, op.entry r.selfId id (r.find? id) = some m ∧ m.available = true := by
  rw [(h.perform op).1.mem_up_iff, find?_perform]

/-- A new member is not available yet. -/
theorem Sorted.up_register (h : r.Sorted me) (i : Identity) :
    (r.perform (.register i)).2.up = r.up := by
  ext id
  rw [h.mem_up_perform_iff, h.mem_up_iff, Op.entry]
  split
  · cases r.find? id <;> simp [Member.new]
  · rfl

theorem Sorted.up_report (h : r.Sorted me) (i : String) (load : Load) :
    (r.perform (.report i load)).2.up = r.up := by
  ext id
  rw [h.mem_up_perform_iff, h.mem_up_iff, Op.entry]
  split
  · cases r.find? id <;> simp
  · rfl

theorem Sorted.up_markConnected_true (h : r.Sorted me) (hp : r.IsPeer p) :
    (r.perform (.markConnected p true)).2.up = insert p r.up := by
  obtain ⟨hself, m, hm⟩ := h.isPeer_iff.1 hp
  ext id
  rw [h.mem_up_perform_iff, Set.mem_insert_iff, h.mem_up_iff, Op.entry]
  by_cases hid : p = id
  · subst hid
    simp [hself, hm]
  · simp [hid, Ne.symm hid]

theorem Sorted.up_markConnected_false (h : r.Sorted me) (hp : r.IsPeer p) :
    (r.perform (.markConnected p false)).2.up = r.up \ {p} := by
  obtain ⟨hself, m, hm⟩ := h.isPeer_iff.1 hp
  ext id
  rw [h.mem_up_perform_iff, Set.mem_sdiff_singleton, h.mem_up_iff, Op.entry]
  by_cases hid : p = id
  · subst hid
    simp [hself, hm]
  · simp [hid, Ne.symm hid]

theorem Sorted.up_unregister (h : r.Sorted me) (hp : r.IsPeer p) :
    (r.perform (.unregister p)).2.up = r.up \ {p} := by
  ext id
  rw [h.mem_up_perform_iff, Set.mem_sdiff_singleton, h.mem_up_iff, Op.entry]
  by_cases hid : p = id
  · subst hid
    simp [hp.1]
  · simp [hid, Ne.symm hid]

/-! ### Who comes next -/

/-- The head after an operation is the least of the ids that are available then. -/
theorem Sorted.isLeast_head_perform (h : r.Sorted me) {op : Op} {ids : Set String}
    (hup : (r.perform op).2.up = ids) : IsLeast ids (r.perform op).2.head.id := by
  rw [← hup]
  exact (h.perform op).1.isLeast_head

/-- Someone who comes is the head if nobody is smaller. -/
theorem head_changes_iff_lt (h : IsLeast r.up r.head.id)
    (h' : IsLeast (insert p r.up) r'.head.id) : r'.head.id ≠ r.head.id ↔ p < r.head.id := by
  constructor
  · intro hne
    rcases h'.1 with hid | hid
    · rw [← hid]
      exact lt_of_le_of_ne (h'.2 (Set.mem_insert_of_mem p h.1)) hne
    · have hle : r'.head.id ≤ r.head.id := h'.2 (Set.mem_insert_of_mem p h.1)
      exact absurd (le_antisymm hle (h.2 hid)) hne
  · intro hlt
    exact (lt_of_le_of_lt (h'.2 (Set.mem_insert p r.up)) hlt).ne

/-- Someone who goes was the head if that changes the head. -/
theorem head_changes_iff_eq (h : IsLeast r.up r.head.id)
    (h' : IsLeast (r.up \ {p}) r'.head.id) : r'.head.id ≠ r.head.id ↔ p = r.head.id := by
  constructor
  · intro hne
    by_contra hp
    have hle : r'.head.id ≤ r.head.id := h'.2 ⟨h.1, Ne.symm hp⟩
    exact hne (le_antisymm hle (h.2 h'.1.1))
  · rintro rfl
    exact h'.1.2

/-- In every run the head is available and its id is strictly the smallest of those that are, so it
is the node itself exactly if no available peer has a smaller one. The id depends on the available
ids alone, also on two different nodes. A peer that becomes available changes it exactly if it has
a smaller id, a peer that leaves does so exactly if it is the head, and then the next one follows;
a registration or a load changes nothing. -/
theorem least_available (me : Identity) (ops : List Op) :
    let r := (new me).run ops
    (r.head ∈ r.members ∧ r.head.available = true ∧
      ∀ m ∈ r.members, m.available = true → m ≠ r.head → r.head.id < m.id) ∧
    r.head.id ≤ me.id ∧
    (r.isSelfHead = true ↔
      ∀ m ∈ r.members, m.available = true → m.id ≠ me.id → ¬ m.id < me.id) ∧
    (∀ me' ops', ((new me').run ops').up = r.up → ((new me').run ops').head.id = r.head.id) ∧
    (∀ p, r.IsPeer p →
      let joined := (r.perform (.markConnected p true)).2
      joined.up = insert p r.up ∧ (joined.head.id ≠ r.head.id ↔ p < r.head.id) ∧
        IsLeast (insert p r.up) joined.head.id) ∧
    (∀ p, r.IsPeer p → ∀ op, op = .markConnected p false ∨ op = .unregister p →
      let left := (r.perform op).2
      left.up = r.up \ {p} ∧ (left.head.id ≠ r.head.id ↔ p = r.head.id) ∧
        IsLeast (r.up \ {p}) left.head.id) ∧
    (∀ op : Op, (∃ i, op = .register i) ∨ (∃ i load, op = .report i load) →
      (r.perform op).2.head.id = r.head.id) := by
  intro r
  have h : r.Sorted me := (run_new me ops).1
  have hleast : IsLeast r.up r.head.id := h.isLeast_head
  have hself : r.selfId = me.id := h.selfId
  obtain ⟨hmember, havailable⟩ := mem_available.1 (head_mem_available h.available)
  refine ⟨⟨hmember, havailable, fun m hm hup hne => ?_⟩, ?_, ?_, fun me' ops' hup => ?_,
    fun p hp => ?_, fun p hp op hop => ?_, fun op hop => ?_⟩
  · exact h.head_lt_of_ne (mem_available.2 ⟨hm, hup⟩) hne
  · rw [← hself]
    exact hleast.2 h.self_mem_up
  · rw [h.isSelfHead_iff, hself]
  · exact h.head_eq_of_up_eq (run_new me' ops').1 hup
  · have hup := h.up_markConnected_true hp
    have hjoined := h.isLeast_head_perform hup
    exact ⟨hup, head_changes_iff_lt hleast hjoined, hjoined⟩
  · have hup : (r.perform op).2.up = r.up \ {p} := by
      rcases hop with rfl | rfl
      · exact h.up_markConnected_false hp
      · exact h.up_unregister hp
    have hleft := h.isLeast_head_perform hup
    exact ⟨hup, head_changes_iff_eq hleast hleft, hleft⟩
  · have hup : (r.perform op).2.up = r.up := by
      rcases hop with ⟨i, rfl⟩ | ⟨i, load, rfl⟩
      · exact h.up_register i
      · exact h.up_report i load
    exact h.head_eq_of_up_eq (h.perform op).1 hup

/-- The node `c` comes to know two peers and is connected to one of them. -/
def oneConnected : List Op :=
  [.register ⟨"b", ""⟩, .register ⟨"a", ""⟩, .markConnected "b" true]

/-- It is connected to the same peer, but has met another one before and has the peer's load. -/
def oneReported : List Op :=
  [.register ⟨"0", ""⟩, .register ⟨"b", ""⟩, .markConnected "b" true,
    .report "b" ⟨1, 2, .ofInt 3, .epoch⟩]

/-- A peer with a smaller id takes over when it comes, the node itself does when its only peer goes,
and a peer that has only been registered does not. -/
theorem oneConnected_succession :
    let r := (new ⟨"c", ""⟩).run oneConnected
    let reported := (new ⟨"c", ""⟩).run oneReported
    r.head.id = "b" ∧ r.IsPeer "a" ∧ r.IsPeer "b" ∧
      reported.up = r.up ∧ reported.head.id = r.head.id ∧
      (r.perform (.markConnected "a" true)).2.head.id ≠ r.head.id ∧
      (r.perform (.unregister "b")).2.head.id ≠ r.head.id ∧
      (r.perform (.register ⟨"0", ""⟩)).2.head.id = r.head.id := by
  intro r reported
  have hmembers : r.members =
      [⟨⟨"c", ""⟩, none, true⟩, ⟨⟨"b", ""⟩, none, true⟩, ⟨⟨"a", ""⟩, none, false⟩] :=
    (members_run ..).trans (by decide +kernel)
  have hreported : reported.members = [⟨⟨"c", ""⟩, none, true⟩, ⟨⟨"0", ""⟩, none, false⟩,
      ⟨⟨"b", ""⟩, some ⟨1, 2, .ofInt 3, .epoch⟩, true⟩] :=
    (members_run ..).trans (by decide +kernel)
  have hhead : r.head.id = "b" := by
    rw [head, hmembers]
    decide +kernel
  have ha : r.IsPeer "a" := ⟨by decide, ⟨⟨"a", ""⟩, none, false⟩, by simp [hmembers], rfl⟩
  have hb : r.IsPeer "b" := ⟨by decide, ⟨⟨"b", ""⟩, none, true⟩, by simp [hmembers], rfl⟩
  have hup : reported.up = r.up := by
    ext id
    simp [up, available, hmembers, hreported, Member.id]
  obtain ⟨-, -, -, hsame, hjoin, hleave, hquiet⟩ := least_available ⟨"c", ""⟩ oneConnected
  refine ⟨hhead, ha, hb, hup, hsame _ _ hup, ?_, ?_, ?_⟩
  · exact (hjoin "a" ha).2.1.2 (by rw [hhead]; decide)
  · exact (hleave "b" hb _ (.inr rfl)).2.1.2 hhead.symm
  · exact hquiet _ (.inl ⟨_, rfl⟩)

end Fleet.Roster
