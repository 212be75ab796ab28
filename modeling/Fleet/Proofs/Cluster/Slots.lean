import Fleet.Proofs.Cluster.Correlation
import Fleet.Proofs.Messenger.Outcomes

/-!
# What is kept about a query

A messenger keeps whose response a query waits for, and after that the outcome until its task picks
it up. Only the task of the query and the events of its node change this, because no two tasks ever
wait for queries with the same id, and a query returns once at most.
-/

namespace Fleet

/-- What a messenger keeps about a query. -/
structure Slot where
  /-- The node whose response it waits for. -/
  target : Option String
  /-- The outcome that its task has not picked up. -/
  outcome : Option Reply

def Messenger.slot (m : Messenger) (id : Uuid) : Slot := ⟨m.pending.get? id, m.replies.get? id⟩

/-- What is kept about a query after an event: its response ends the wait, and so does the loss of
its target. -/
def Slot.after (id : Uuid) (s : Slot) : TransportEvent → Slot
  | .connected _ => s
  | .disconnected b => if s.target = some b then ⟨none, some .gone⟩ else s
  | .message m =>
    if s.target.isSome && m.isResponse && m.correlation = some id then ⟨none, some (.answer m)⟩
    else s

/-- The id of the query that some work waits for. -/
def Work.id? (work : Work) : Option Uuid := work.query?.bind Query.id?

/-! ### Events -/

theorem Messenger.slot_failPending (m : Messenger) (b : String) (id : Uuid) :
    (m.failPending b).2.slot id = (m.slot id).after id (.disconnected b) := by
  obtain ⟨hpending, hreplies⟩ := (m.failPending_spec b).2 id
  rw [slot, slot, hpending, hreplies, Slot.after]
  split <;> rfl

theorem Messenger.slot_complete {m m' : Messenger} {r : Message} (h : m.complete r = .ok m')
    (hr : r.isResponse = true) (id : Uuid) : m'.slot id = (m.slot id).after id (.message r) := by
  obtain ⟨id', hid, hcontains, rfl⟩ := complete_eq_ok h
  obtain ⟨target, htarget⟩ := Table.contains_iff.1 hcontains
  by_cases heq : id = id'
  · subst heq
    simp [slot, Slot.after, deliver, dropQuery, htarget, hr, hid, Table.get?_erase,
      Table.get?_insert]
  · have hne : ¬ id' = id := fun h => heq h.symm
    cases hp : m.pending.get? id <;>
      simp [slot, Slot.after, deliver, dropQuery, hp, hid, heq, hne, Table.get?_erase,
        Table.get?_insert]

theorem Messenger.slot_unknown {m : Messenger} {r : Message} {fault : ProtocolError}
    (h : m.complete r = .error fault) (id : Uuid) :
    m.slot id = (m.slot id).after id (.message r) := by
  cases hp : m.pending.get? id with
  | none => simp [slot, Slot.after, hp]
  | some target =>
    have hid : r.correlation ≠ some id := by
      intro hid
      have hcontains : m.pending.contains id = true := Table.contains_iff.2 ⟨target, hp⟩
      simp [complete, hid, hcontains] at h
    simp [slot, Slot.after, hp, hid]

theorem Site.slot_handle {σ : Type} (s : Site σ) (e : TransportEvent) (id : Uuid) :
    (s.handle e).node.messenger.slot id = (s.node.messenger.slot id).after id e := by
  cases e with
  | connected peer =>
    obtain ⟨roster, heq, -⟩ := s.node.connected_eq peer
    change (s.node.connected peer).messenger.slot id = _
    rw [heq]
    rfl
  | disconnected b => exact s.node.messenger.slot_failPending b id
  | message m =>
    change (s.receive m).node.messenger.slot id = _
    unfold receive
    split
    · next hm =>
      split
      · next messenger hcomplete => exact Messenger.slot_complete hcomplete hm id
      · next fault hcomplete => exact Messenger.slot_unknown hcomplete id
    · next hm =>
      change s.node.messenger.slot id = _
      simp [Slot.after, hm]

/-! ### Activities -/

variable {σ : Type} [Transport σ] {s s' : Site σ} {id : Uuid}

/-- A query changes nothing but what is kept about itself. -/
theorem Query.Move.slot {q q' : Query} (hmove : Query.Move s q q' s') (hq : q.id? ≠ some id)
    (hq' : q'.id? ≠ some id) : s'.node.messenger.slot id = s.node.messenger.slot id := by
  have hne : ∀ {id' : Uuid}, some id' ≠ some id → id ≠ id' :=
    fun h heq => h (congrArg some heq.symm)
  cases hmove with
  | enters =>
    simp [Messenger.slot, Site.withMessenger, Messenger.openQuery, Table.get?_insert, hne hq']
  | unwritten | expires =>
    simp [Messenger.slot, Site.withMessenger, Messenger.dropQuery, Table.get?_erase, hne hq]
  | picks hwaits =>
    rcases hwaits with rfl | ⟨deadline, rfl⟩ <;>
      simp [Messenger.slot, Site.withMessenger, Table.get?_erase, hne hq]
  | unaddressed | written | late | rests => rfl

theorem Creation.Move.slot {c c' : Creation} (hmove : Creation.Move s c c' s')
    (hc : c.query?.bind Query.id? ≠ some id) (hc' : c'.query?.bind Query.id? ≠ some id) :
    s'.node.messenger.slot id = s.node.messenger.slot id := by
  cases hmove with
  | refuses | leads | starts | sends | concludes | rests => rfl
  | refreshes =>
    obtain ⟨roster, heq, -⟩ := s.node.exists_refreshLoad s.now
    rw [heq]
  | asks hdone hmove => exact hmove.slot hc hc'

theorem Site.slot_respond (s : Site σ) (d : Delivery) (content : Bytes) (id : Uuid) :
    (s.respond d content).2.node.messenger.slot id = s.node.messenger.slot id := by
  unfold respond
  cases h : s.node.messenger.claimAnswer d with
  | error => rfl
  | ok messenger =>
    obtain ⟨-, answered, rfl⟩ := Messenger.exists_claimAnswer h
    rfl

theorem Dispatch.Move.slot {d d' : Dispatch} (hmove : Dispatch.Move s d d' s')
    (hd : (Work.dispatch d).id? ≠ some id) (hd' : (Work.dispatch d').id? ≠ some id) :
    s'.node.messenger.slot id = s.node.messenger.slot id := by
  cases hmove with
  | opens | ends | ignores | rests | records | starts | places | resumes => rfl
  | @stores ticket e =>
    obtain ⟨roster, heq, -⟩ := storeLoad_eq e.message s
    rw [heq]
    rfl
  | creates hdone hmove => exact hmove.slot hd hd'
  | answers => exact s.slot_respond _ _ id

theorem Work.Move.slot {work work' : Work} (hmove : Work.Move s work work' s')
    (hid : work.id? ≠ some id) (hid' : work'.id? ≠ some id) :
    s'.node.messenger.slot id = s.node.messenger.slot id := by
  cases hmove with
  | query hmove => exact hmove.slot hid hid'
  | creation hmove => exact hmove.slot hid hid'
  | dispatch hmove => exact hmove.slot hid hid'

/-- Work that waits for a query did so before, or the query is a new one. -/
theorem Work.Move.id?_new {work work' : Work} (hmove : Work.Move s work work' s')
    (hid : work'.id? = some id) :
    work.id? = some id ∨ id = .fresh s.drawn ∧ s.drawn < s'.drawn := by
  obtain ⟨q', hq', hid⟩ := Option.bind_eq_some_iff.1 hid
  rcases hmove.awaited hq' with ⟨m, timeout, rfl⟩ | ⟨q, hq, hquery⟩
  · cases hid
  · have hwork : work.id? = q.id? := by rw [Work.id?, hq, Option.bind_some]
    cases hquery with
    | enters =>
      cases hid
      exact .inr ⟨rfl, Nat.lt_succ_self _⟩
    | written | late | rests => exact .inl (hwork.trans hid)
    | @picks _ _ r => cases r <;> cases hid
    | unaddressed | unwritten | expires => cases hid

/-- Work that does not wait for a query does not wait for it after a step, unless it is a new
one. -/
theorem Work.Move.id?_ne {work work' : Work} (hmove : Work.Move s work work' s')
    (hid : work.id? ≠ some id) (hfresh : s.drawn < s'.drawn → id ≠ .fresh s.drawn) :
    work'.id? ≠ some id := by
  intro hnew
  rcases hmove.id?_new hnew with hold | ⟨heq, hlt⟩
  · exact hid hold
  · exact hfresh hlt heq

/-! ### One task for each query -/

section Sole

variable {σ : Type} [FaithfulTransport σ]

/-- After a step, whoever waits for a query did so before, but for one task that may have entered a
new one. -/
theorem Cluster.Effect.ids {w w' : Cluster σ} {new : List Note} (heffect : w.Effect new w') :
    ∃ t₀, ∀ t a work id, w'.activity? t = some (a, work) → work.id? = some id →
      (∃ before, w.activity? t = some (a, before) ∧ before.id? = some id) ∨
        t = t₀ ∧ id = .fresh w.drawn ∧ w.drawn < w'.drawn := by
  cases heffect with
  | @goes t₀ station before after s' w' hstation hbefore hafter hmove hframe hdrawn =>
    refine ⟨t₀, fun t a work id hwork hid => ?_⟩
    by_cases ht : t = t₀
    · subst ht
      rw [hafter] at hwork
      cases hwork
      rcases hmove.id?_new hid with hold | ⟨heq, hlt⟩
      · exact .inl ⟨before, hbefore, hold⟩
      · exact .inr ⟨rfl, heq, hdrawn ▸ hlt⟩
    · exact .inl ⟨work, hframe.others t ht ▸ hwork, hid⟩
  | @takes t₀ station d w' hstation hnone hafter hframe =>
    refine ⟨t₀, fun t a work id hwork hid => .inl ⟨work, ?_, hid⟩⟩
    by_cases ht : t = t₀
    · subst ht
      rw [hafter] at hwork
      cases hwork
      cases hid
    · exact hframe.others t ht ▸ hwork
  | begins hstation hnone hafter hframe hnext hnew =>
    refine ⟨.job w.nextJob, fun t a work id hwork hid => .inl ⟨work, ?_, hid⟩⟩
    by_cases ht : t = .job w.nextJob
    · subst ht
      rw [hafter] at hwork
      cases hwork
      rcases hnew with ⟨⟨m, timeout, rfl⟩, -⟩ | ⟨spec, rfl, -⟩ <;> cases hid
    · exact hframe.others t ht ▸ hwork
  | @ends t₀ w' hafter hframe =>
    refine ⟨t₀, fun t a work id hwork hid => .inl ⟨work, ?_, hid⟩⟩
    by_cases ht : t = t₀
    · subst ht
      rw [hafter] at hwork
      cases hwork
    · exact hframe.others t ht ▸ hwork
  | queues _ _ _ hsame | completes _ _ hsame | quiet hsame =>
    exact ⟨.follow 0, fun t a work id hwork hid => .inl ⟨work, hsame.activity? t ▸ hwork, hid⟩⟩

/-- A query returns to the task that waited for it, which waits for it no more. -/
theorem Cluster.Effect.of_mem_returned {w w' : Cluster σ} {new : List Note}
    (heffect : w.Effect new w') {c : Cause} {a : String} {id : Uuid} {r : Option Message}
    (hret : .returned c a id r ∈ new) :
    ∃ t before, w.activity? t = some (a, before) ∧ before.id? = some id ∧
      ∀ a' work, w'.activity? t = some (a', work) → work.id? ≠ some id := by
  cases heffect with
  | @goes t station before after s' w' hstation hbefore hafter hmove hframe =>
    obtain ⟨-, rfl, q, hq, hid, hq'⟩ := Work.of_mem_returned hret
    refine ⟨t, before, hbefore, by rw [Work.id?, hq]; exact hid, fun a' work hwork hid' => ?_⟩
    rw [hafter] at hwork
    cases hwork
    rw [Work.id?, hq'] at hid'
    cases hid'
  | takes =>
    simp only [Cause.taken] at hret
    split at hret
    · cases List.mem_singleton.1 hret
    · cases hret
  | begins hstation hnone hafter hframe hnext hnew =>
    rcases hnew with ⟨-, rfl⟩ | ⟨spec, -, rfl⟩
    · cases hret
    · cases List.mem_singleton.1 hret
  | ends | queues | completes => cases hret
  | quiet hsame hnew =>
    obtain ⟨node, s, heq⟩ := hnew _ hret
    cases heq

namespace History

/-- No two tasks wait for the same query, and nobody waits for one that has returned. -/
structure Sole (h : History σ) : Prop where
  drawn : ∀ t a work id, h.cluster.activity? t = some (a, work) → work.id? = some id →
    ∃ k < h.cluster.drawn, id = .fresh k
  once : ∀ t a work t' a' work' id, h.cluster.activity? t = some (a, work) →
    h.cluster.activity? t' = some (a', work') → work.id? = some id → work'.id? = some id → t = t'
  waiting : ∀ t a work id, h.cluster.activity? t = some (a, work) → work.id? = some id →
    ∀ c a' r, .returned c a' id r ∉ h.notes
  returned : ∀ c a id r, .returned c a id r ∈ h.notes → ∃ k < h.cluster.drawn, id = .fresh k

variable {P : Listeners Handler → Prop} {h h' : History σ}

theorem Next.sole (hnext : Next P h h') (hs : h.cluster.Sound P) (hsole : h.Sole)
    (hdrawn : h'.cluster.drawn ≤ 2 ^ 128) : h'.Sole := by
  obtain ⟨new, hnotes, heffect⟩ := hnext.effect hs
  have hle := hnext.drawn_le hs
  obtain ⟨t₀, hids⟩ := heffect.ids
  have hfresh : h.cluster.drawn < h'.cluster.drawn → ∀ k < h.cluster.drawn,
      Uuid.fresh h.cluster.drawn ≠ .fresh k :=
    fun hlt k hk => Coherent.fresh_not_drawn (hlt.trans_le hdrawn) hk
  refine ⟨fun t a work id hwork hid => ?_, fun t a work t' a' work' id hwork hwork' hid hid' => ?_,
    fun t a work id hwork hid c a' r hret => ?_, fun c a id r hret => ?_⟩
  · rcases hids t a work id hwork hid with ⟨before, hold, hid⟩ | ⟨-, rfl, hlt⟩
    · obtain ⟨k, hk, rfl⟩ := hsole.drawn t a before id hold hid
      exact ⟨k, hk.trans_le hle, rfl⟩
    · exact ⟨_, hlt, rfl⟩
  · rcases hids t a work id hwork hid with ⟨before, hold, hid⟩ | ⟨rfl, rfl, hlt⟩
    · rcases hids t' a' work' id hwork' hid' with ⟨before', hold', hid'⟩ | ⟨-, rfl, hlt⟩
      · exact hsole.once t a before t' a' before' id hold hold' hid hid'
      · obtain ⟨k, hk, heq⟩ := hsole.drawn t a before _ hold hid
        exact absurd heq (hfresh hlt k hk)
    · rcases hids t' a' work' _ hwork' hid' with ⟨before', hold', hid'⟩ | ⟨rfl, -, -⟩
      · obtain ⟨k, hk, heq⟩ := hsole.drawn t' a' before' _ hold' hid'
        exact absurd heq (hfresh hlt k hk)
      · rfl
  · rw [hnotes] at hret
    rcases List.mem_append.1 hret with hnew | hret
    · obtain ⟨t', before', hold', hid', hnone⟩ := heffect.of_mem_returned hnew
      rcases hids t a work id hwork hid with ⟨before, hold, hid₀⟩ | ⟨-, rfl, hlt⟩
      · obtain rfl := hsole.once t a before t' a' before' id hold hold' hid₀ hid'
        exact hnone a work hwork hid
      · obtain ⟨k, hk, heq⟩ := hsole.drawn t' a' before' _ hold' hid'
        exact absurd heq (hfresh hlt k hk)
    · rcases hids t a work id hwork hid with ⟨before, hold, hid⟩ | ⟨-, rfl, hlt⟩
      · exact hsole.waiting t a before id hold hid c a' r hret
      · obtain ⟨k, hk, heq⟩ := hsole.returned c a' _ r hret
        exact absurd heq (hfresh hlt k hk)
  · rw [hnotes] at hret
    have hold : ∃ k < h.cluster.drawn, id = .fresh k := by
      rcases List.mem_append.1 hret with hnew | hret
      · obtain ⟨t, before, hold, hid, -⟩ := heffect.of_mem_returned hnew
        exact hsole.drawn t a before id hold hid
      · exact hsole.returned c a id r hret
    obtain ⟨k, hk, rfl⟩ := hold
    exact ⟨k, hk.trans_le hle, rfl⟩

theorem Reachable.sole (hr : Reachable P h) (hdrawn : h.cluster.drawn ≤ 2 ^ 128) : h.Sole := by
  induction hr with
  | empty w hstations hjobs =>
    have hidle := Cluster.activity?_of_empty hstations hjobs
    exact ⟨fun t a work id hwork => absurd hwork (by simp [hidle]),
      fun t a work _ _ _ _ hwork => absurd hwork (by simp [hidle]),
      fun t a work id hwork => absurd hwork (by simp [hidle]), fun _ _ _ _ hret => nomatch hret⟩
  | next hr hnext ih =>
    exact hnext.sole hr.sound (ih ((hnext.drawn_le hr.sound).trans hdrawn)) hdrawn

end History

end Sole

end Fleet
