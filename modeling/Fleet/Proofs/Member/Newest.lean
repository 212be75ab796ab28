import Fleet.Proofs.Member.Roll

/-!
# Rosters keep the newest load

Of all loads that are reported for a member since it was registered, its roster has the one of the
latest time, and of several of that time the one reported last.  Nothing else that happens to the
roster has a part in this, and as far as the times differ the order of the reports has none either.

## Main definitions

* `Newest` — the load of the latest time in a list of reports.
* `Roster.Op.entry` — what an operation makes of one member.
* `Roster.given` — the loads reported for a member since it was registered.

## Main statements

* `Roster.find?_perform` — an operation does to every member what it says.
* `Roster.newest_run` — the load that a roster has is the newest one given.
* `Roster.load_run` — as long as a member stays, its load depends on the reports alone.
-/

namespace Fleet

/-! ### The newest of several loads -/

/-- A load is the one of the latest time in a list, and the last one of that time; there is none if
the list is empty. -/
def Newest (loads : List Load) : Option Load → Prop
  | none => loads = []
  | some l => ∃ before after, loads = before ++ l :: after ∧
      (∀ x ∈ before, x.at_ ≤ l.at_) ∧ ∀ x ∈ after, x.at_ < l.at_

/-- The load that is stored after one more report. -/
def newer : Option Load → Load → Option Load
  | none, l => some l
  | some old, l => if old.at_ ≤ l.at_ then some l else some old

theorem Member.load_report (m : Member) (l : Load) : (m.report l).load = newer m.load l := by
  obtain ⟨identity, old, available⟩ := m
  cases old with
  | none => rfl
  | some old => exact apply_ite Member.load ..

theorem Newest.report {loads : List Load} {old : Option Load} (h : Newest loads old) (l : Load) :
    Newest (loads ++ [l]) (newer old l) := by
  cases old with
  | none =>
    obtain rfl : loads = [] := h
    exact ⟨[], [], rfl, by simp, by simp⟩
  | some old =>
    obtain ⟨before, after, rfl, hbefore, hafter⟩ := h
    rw [newer]
    split
    · next hle =>
      refine ⟨before ++ old :: after, [], by simp, fun x hx => ?_, by simp⟩
      rcases List.mem_append.1 hx with hx | hx
      · exact (hbefore x hx).trans hle
      · rcases List.mem_cons.1 hx with rfl | hx
        · exact hle
        · exact (hafter x hx).le.trans hle
    · next hlt =>
      refine ⟨before, after ++ [l], by simp, hbefore, fun x hx => ?_⟩
      rcases List.mem_append.1 hx with hx | hx
      · exact hafter x hx
      · rw [List.mem_singleton.1 hx]
        exact not_le.1 hlt

/-- What reports leave is the newest of them. -/
theorem newest_foldl (loads : List Load) : Newest loads (loads.foldl newer none) := by
  induction loads using List.reverseRecOn with
  | nil => rfl
  | append_singleton loads l ih =>
    rw [List.foldl_append]
    exact ih.report l

/-- Reports do not take a load back to an earlier time. -/
theorem le_foldl_newer (loads : List Load) (old : Load) :
    ∃ l, loads.foldl newer (some old) = some l ∧ old.at_ ≤ l.at_ := by
  induction loads generalizing old with
  | nil => exact ⟨old, rfl, le_rfl⟩
  | cons x rest ih =>
    rw [List.foldl_cons, newer]
    split
    · next hle =>
      obtain ⟨l, hl, hlast⟩ := ih x
      exact ⟨l, hl, hle.trans hlast⟩
    · exact ih old

theorem newer_comm {a b : Load} (h : a.at_ ≠ b.at_) (old : Option Load) :
    newer (newer old a) b = newer (newer old b) a := by
  wlog hlt : a.at_ < b.at_ generalizing a b
  · exact (this h.symm (h.lt_or_gt.resolve_left hlt)).symm
  cases old with
  | none => simp [newer, hlt.le, hlt.not_ge]
  | some old =>
    by_cases hb : old.at_ ≤ b.at_
    · by_cases ha : old.at_ ≤ a.at_ <;> simp [newer, ha, hb, hlt.le, hlt.not_ge]
    · have ha : ¬ old.at_ ≤ a.at_ := fun ha => hb (ha.trans hlt.le)
      simp [newer, ha, hb]

/-- Reports of different times may come in any order. -/
theorem foldl_newer_perm {loads loads' : List Load} (hperm : loads.Perm loads')
    (hdiffer : loads.Pairwise (·.at_ ≠ ·.at_)) (old : Option Load) :
    loads.foldl newer old = loads'.foldl newer old := by
  have : Std.Symm fun a b : Load => a.at_ ≠ b.at_ := ⟨fun _ _ => Ne.symm⟩
  refine hperm.foldl_eq' (fun a ha b hb old => ?_) old
  by_cases hab : a = b
  · rw [hab]
  · exact newer_comm (hdiffer.forall ha hb hab) old

namespace Roster

/-! ### What an operation does to one member -/

namespace Op

/-- What an operation on the roster of the node `me` makes of the entry of an id. -/
def entry (me id : String) : Op → Option Member → Option Member
  | .register i, m => if i.id = id then some (m.getD (.new i)) else m
  | .unregister id', m => if id' = id ∧ id ≠ me then none else m
  | .report id' load, m => if id' = id then m.map (·.report load) else m
  | .markConnected id' connected, m =>
    if id' = id ∧ id ≠ me then m.map ({ · with available := connected }) else m

/-- The load that an operation reports for an id. -/
def reported? (id : String) : Op → Option Load
  | .report id' load => if id' = id then some load else none
  | _ => none

/-- The loads reported for an id since it was registered, after one more operation; none while it is
not registered. -/
def given (me id : String) (loads : Option (List Load)) : Op → Option (List Load)
  | .register i => if i.id = id then some (loads.getD []) else loads
  | .unregister id' => if id' = id ∧ id ≠ me then none else loads
  | .report id' load => if id' = id then loads.map (· ++ [load]) else loads
  | .markConnected .. => loads

end Op

/-- The loads that operations report for an id. -/
def reports (id : String) (ops : List Op) : List Load := ops.filterMap (Op.reported? id)

/-- The loads reported for an id since it was registered; none while it is not registered.  The node
itself always is. -/
def given (me id : String) (ops : List Op) : Option (List Load) :=
  ops.foldl (Op.given me id) (if id = me then some [] else none)

/-- Operations leave a member on the roster of the node `me`. -/
def Stays (me id : String) (ops : List Op) : Prop := ∀ op ∈ ops, op = .unregister id → id = me

variable {me : Identity} {r : Roster} {id : String}

/-- The node itself is always found, and of the others those that are stored. -/
theorem isSome_find? (r : Roster) (id : String) :
    (r.find? id).isSome = true ↔ id = r.selfId ∨ r.peers.contains id = true := by
  rw [find?, Table.contains]
  split <;> simp [*]

theorem find?_perform_register (r : Roster) (i : Identity) (id : String) :
    (r.perform (.register i)).2.find? id =
      if i.id = id then some ((r.find? id).getD (.new i)) else r.find? id := by
  by_cases hin : i.id = r.selfId ∨ r.peers.contains i.id = true
  · obtain ⟨m, hm⟩ := Option.isSome_iff_exists.1 ((r.isSome_find? i.id).2 hin)
    have h : r.register i = .error (.registered i.id) := if_pos hin
    rw [perform, h]
    by_cases hid : i.id = id
    · rw [if_pos hid, ← hid, hm]
      rfl
    · rw [if_neg hid]
  · have hnone : r.find? i.id = none := by rwa [← Option.not_isSome_iff_eq_none, isSome_find?]
    have h : r.register i = .ok _ := if_neg hin
    rw [perform, h, find?_register h]
    by_cases hid : i.id = id
    · rw [if_pos hid.symm, if_pos hid, ← hid, hnone]
      rfl
    · rw [if_neg (Ne.symm hid), if_neg hid]

theorem find?_perform_unregister (r : Roster) (i id : String) :
    (r.perform (.unregister i)).2.find? id =
      if i = id ∧ id ≠ r.selfId then none else r.find? id := by
  by_cases hself : i = r.selfId
  · have h : r.unregister i = .error (.isSelf i) := if_pos hself
    rw [perform, h, if_neg fun hand => hand.2 (hand.1 ▸ hself)]
  · cases hpeer : r.peers.get? i with
    | none =>
      have h : r.unregister i = .error (.unknown i) := by simp [unregister, hself, hpeer]
      have hnone : r.find? i = none := by simp [find?, hself, hpeer]
      rw [perform, h]
      by_cases hid : i = id
      · simp [← hid, hnone]
      · rw [if_neg fun hand => hid hand.1]
    | some e =>
      have h : r.unregister i = .ok (e.member, { r with peers := r.peers.erase i }) := by
        rw [unregister, if_neg hself, hpeer]
      rw [perform, h, find?_unregister h]
      by_cases hid : i = id
      · rw [if_pos hid.symm, if_pos ⟨hid, hid ▸ hself⟩]
      · rw [if_neg (Ne.symm hid), if_neg fun hand => hid hand.1]

theorem find?_perform_report (r : Roster) (i : String) (load : Load) (id : String) :
    (r.perform (.report i load)).2.find? id =
      if i = id then (r.find? id).map (·.report load) else r.find? id := by
  cases h : r.report i load with
  | ok r' =>
    rw [perform, h, find?_report h]
    by_cases hid : i = id
    · rw [if_pos hid.symm, if_pos hid, hid]
    · rw [if_neg (Ne.symm hid), if_neg hid]
  | error e =>
    have hnone : r.find? i = none := by
      rw [← Option.not_isSome_iff_eq_none, isSome_find?]
      rintro (hself | hpeer)
      · rw [report, if_pos hself] at h
        cases h
      · rw [report, if_pos hpeer] at h
        split at h <;> cases h
    rw [perform, h]
    by_cases hid : i = id
    · rw [if_pos hid, ← hid, hnone]
      rfl
    · rw [if_neg hid]

theorem find?_perform_markConnected (r : Roster) (i : String) (connected : Bool) (id : String) :
    (r.perform (.markConnected i connected)).2.find? id =
      if i = id ∧ id ≠ r.selfId then (r.find? id).map ({ · with available := connected })
      else r.find? id := by
  by_cases hself : i = r.selfId
  · have h : r.markConnected i connected = .ok r := if_pos hself
    rw [perform, h, if_neg fun hand => hand.2 (hand.1 ▸ hself)]
  · cases h : r.markConnected i connected with
    | ok r' =>
      rw [perform, h, find?_markConnected h hself]
      by_cases hid : i = id
      · rw [if_pos hid.symm, if_pos ⟨hid, hid ▸ hself⟩, hid]
      · rw [if_neg (Ne.symm hid), if_neg fun hand => hid hand.1]
    | error e =>
      have hnone : r.find? i = none := by
        rw [← Option.not_isSome_iff_eq_none, isSome_find?]
        rintro (heq | hpeer)
        · exact hself heq
        · rw [markConnected, if_neg hself, if_pos hpeer] at h
          cases h
      rw [perform, h]
      by_cases hid : i = id
      · simp [← hid, hnone]
      · rw [if_neg fun hand => hid hand.1]

/-- An operation does to every member what it says, and nothing if it is refused. -/
theorem find?_perform (r : Roster) (op : Op) (id : String) :
    (r.perform op).2.find? id = op.entry r.selfId id (r.find? id) := by
  cases op with
  | register i => exact r.find?_perform_register i id
  | unregister i => exact r.find?_perform_unregister i id
  | report i load => exact r.find?_perform_report i load id
  | markConnected i connected => exact r.find?_perform_markConnected i connected id

theorem selfId_perform (r : Roster) (op : Op) : (r.perform op).2.selfId = r.selfId := by
  cases op with
  | register i =>
    simp only [perform, register]
    split
    · next h =>
      split at h <;> cases h
      rfl
    · rfl
  | unregister id =>
    simp only [perform, unregister]
    split
    · next h =>
      split at h
      · cases h
      · split at h <;> cases h
        rfl
    · rfl
  | report id load =>
    simp only [perform, report]
    split
    · next h =>
      split at h
      · cases h
        exact congrArg Identity.id (Member.identity_report ..)
      · split at h <;> cases h
        rfl
    · rfl
  | markConnected id connected =>
    simp only [perform, markConnected]
    split
    · next h =>
      split at h
      · cases h
        rfl
      · split at h <;> cases h
        rfl
    · rfl

theorem selfId_run (r : Roster) (ops : List Op) : (r.run ops).selfId = r.selfId := by
  induction ops generalizing r with
  | nil => rfl
  | cons op rest ih => exact (ih _).trans (r.selfId_perform op)

theorem Leads.selfId {kind : Op → Prop} {r' : Roster} (h : r.Leads kind r') :
    r'.selfId = r.selfId := by
  obtain ⟨ops, -, rfl⟩ := h
  exact r.selfId_run ops

/-! ### What a run does to the load of one member -/

/-- The load that a roster has comes of the reports since the registration. -/
theorem load_run_new (me : Identity) (ops : List Op) (id : String) :
    (((new me).run ops).find? id).map (·.load) =
      (given me.id id ops).map (·.foldl newer none) := by
  induction ops using List.reverseRecOn with
  | nil =>
    have hnew : (new me).find? id = if id = me.id then some ⟨me, none, true⟩ else none := rfl
    rw [run, List.foldl_nil, given, List.foldl_nil, hnew]
    split <;> rfl
  | append_singleton ops op ih =>
    rw [run_concat, find?_perform, selfId_run, given, List.foldl_append, ← given]
    show Option.map _ (op.entry me.id id _) = Option.map _ (Op.given me.id id _ op)
    generalize ((new me).run ops).find? id = m at ih ⊢
    generalize given me.id id ops = loads at ih ⊢
    cases op with
    | register i =>
      rw [Op.entry, Op.given]
      split
      · cases m <;> cases loads <;> simp_all [Member.new]
      · exact ih
    | unregister i =>
      rw [Op.entry, Op.given]
      split
      · rfl
      · exact ih
    | report i load =>
      rw [Op.entry, Op.given]
      split
      · cases m <;> cases loads <;> simp_all [Member.load_report]
      · exact ih
    | markConnected i connected =>
      rw [Op.entry, Op.given]
      split
      · rw [Option.map_map]
        exact ih
      · exact ih

/-- An operation that leaves a member on the roster changes its load by a report of it alone. -/
theorem load_perform {m : Member} (h : r.find? id = some m) {op : Op}
    (hstays : op = .unregister id → id = r.selfId) :
    ∃ m', (r.perform op).2.find? id = some m' ∧
      m'.load = (op.reported? id).elim m.load (newer m.load) := by
  rw [find?_perform, h]
  cases op with
  | register i =>
    rw [Op.entry]
    split <;> exact ⟨m, rfl, rfl⟩
  | unregister i =>
    rw [Op.entry, if_neg fun hand => hand.2 (hstays (congrArg _ hand.1))]
    exact ⟨m, rfl, rfl⟩
  | report i load =>
    rw [Op.entry, Op.reported?]
    split
    · exact ⟨_, rfl, m.load_report load⟩
    · exact ⟨m, rfl, rfl⟩
  | markConnected i connected =>
    rw [Op.entry]
    split <;> exact ⟨_, rfl, rfl⟩

/-- As long as a member stays on the roster its load depends on the reports alone. -/
theorem load_run {m : Member} (h : r.find? id = some m) {ops : List Op}
    (hstays : Stays r.selfId id ops) :
    ∃ m', (r.run ops).find? id = some m' ∧ m'.load = (reports id ops).foldl newer m.load := by
  induction ops generalizing r m with
  | nil => exact ⟨m, h, rfl⟩
  | cons op rest ih =>
    have hrest : Stays (r.perform op).2.selfId id rest := by
      rw [selfId_perform]
      exact fun op hop => hstays op (List.mem_cons_of_mem _ hop)
    obtain ⟨m', hm', hload⟩ := load_perform h (hstays op List.mem_cons_self)
    obtain ⟨m'', hm'', hload'⟩ := ih hm' hrest
    refine ⟨m'', hm'', hload'.trans ?_⟩
    rw [hload, reports, reports, List.filterMap_cons]
    cases op.reported? id <;> rfl

/-- What becomes of the load of a member in the runs of the roster of a node. -/
structure KeepsNewest (me : Identity) (ops : List Op) (id : String) : Prop where
  /-- The roster has the newest of the loads given. -/
  newest : match given me.id id ops with
    | none => ((new me).run ops).find? id = none
    | some loads => ∃ m, ((new me).run ops).find? id = some m ∧ Newest loads m.load
  /-- A load never gives way to one of an earlier time. -/
  rises : ∀ m l later, ((new me).run ops).find? id = some m → m.load = some l →
    Stays me.id id later → ∃ m' l', ((new me).run (ops ++ later)).find? id = some m' ∧
      m'.load = some l' ∧ l.at_ ≤ l'.at_
  /-- Reports of different times may come in any order, and anything else between them. -/
  unordered : ∀ m later later', ((new me).run ops).find? id = some m → Stays me.id id later →
    Stays me.id id later' → (reports id later).Perm (reports id later') →
      (reports id later).Pairwise (·.at_ ≠ ·.at_) →
        ∃ n n', ((new me).run (ops ++ later)).find? id = some n ∧
          ((new me).run (ops ++ later')).find? id = some n' ∧ n.load = n'.load

theorem keepsNewest (me : Identity) (ops : List Op) (id : String) : KeepsNewest me ops id := by
  have hself : ((new me).run ops).selfId = me.id := (new me).selfId_run ops
  refine ⟨?_, fun m l later hm hl hstays => ?_,
    fun m later later' hm hstays hstays' hperm hdiffer => ?_⟩
  · have hload := load_run_new me ops id
    cases hgiven : given me.id id ops with
    | none => simpa [hgiven] using hload
    | some loads =>
      obtain ⟨m, hm, hm'⟩ : ∃ m, ((new me).run ops).find? id = some m ∧
          m.load = loads.foldl newer none := by simpa [hgiven] using hload
      exact ⟨m, hm, hm' ▸ newest_foldl loads⟩
  · obtain ⟨m', hm', hload⟩ := load_run hm (hself ▸ hstays)
    obtain ⟨l', hl', hle⟩ := le_foldl_newer (reports id later) l
    exact ⟨m', l', run_append .. ▸ hm', by rw [hload, hl, hl'], hle⟩
  · obtain ⟨n, hn, hload⟩ := load_run hm (hself ▸ hstays)
    obtain ⟨n', hn', hload'⟩ := load_run hm (hself ▸ hstays')
    refine ⟨n, n', run_append .. ▸ hn, run_append .. ▸ hn', ?_⟩
    rw [hload, hload', foldl_newer_perm hperm hdiffer]

end Roster

end Fleet
