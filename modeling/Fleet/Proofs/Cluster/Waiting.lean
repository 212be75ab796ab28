import Fleet.Proofs.Cluster.Descent
import Fleet.Proofs.Cluster.Queues
import Mathlib.Logic.Relation

/-!
# Queues never wait for each other in a circle

The messages of one sender are worked on one at a time, and work in which a node acts as the head
may wait for another node. Then the queue waits for the queue that this node has at the other one. A
node is asked as the head only by nodes with greater ids, however the views differ, so along a chain
of such queues the ids of the nodes fall, and no chain comes back to where it started.
-/

namespace Fleet

/-- The node whose answer a listener waits for. -/
def Dispatch.awaits? : Dispatch → Option String
  | .placing _ _ (.asking node q) _ => if q.id?.isSome then some node else none
  | _ => none

/-- The name of a queue: the place of its node, and its number there. -/
structure Lane where
  place : Nat
  queue : Nat
deriving DecidableEq

namespace Cluster

variable {σ : Type}

/-- A queue, with the id of its node. -/
def lane? (w : Cluster σ) (x : Lane) : Option (String × Inbound.Queue Dispatch) :=
  w.stations[x.place]?.bind fun s =>
    (s.node.inbound.queues.get? x.queue).map fun q => (s.node.id, q)

/-- In a queue of a node `r` for the messages of a sender, a listener waits for the answer to a
query that `r` has sent to `t`. -/
def Blocked (w : Cluster σ) (x : Lane) (r sender t : String) : Prop :=
  ∃ q, w.lane? x = some (r, q) ∧ q.sender = sender ∧ q.current.bind Dispatch.awaits? = some t

/-- A blocked queue waits for the queues of its node at the node that was asked. -/
def WaitsFor (w : Cluster σ) (x y : Lane) : Prop :=
  ∃ r sender t, w.Blocked x r sender t ∧ ∃ q, w.lane? y = some (t, q) ∧ q.sender = r

/-- What a queue is busy with as far as waiting goes: its node, its sender, and whose answer it
waits for. -/
def wait? (w : Cluster σ) (x : Lane) : Option (String × String × Option String) :=
  (w.lane? x).map fun l => (l.1, l.2.sender, l.2.current.bind Dispatch.awaits?)

theorem blocked_iff {w : Cluster σ} {x : Lane} {r sender t : String} :
    w.Blocked x r sender t ↔ w.wait? x = some (r, sender, some t) := by
  constructor
  · rintro ⟨q, hlane, rfl, hawaits⟩
    rw [wait?, hlane, Option.map_some, hawaits]
  · intro h
    obtain ⟨⟨r', q⟩, hlane, heq⟩ := Option.map_eq_some_iff.1 h
    simp only [Prod.mk.injEq] at heq
    obtain ⟨rfl, hsender, hawaits⟩ := heq
    exact ⟨q, hlane, hsender, hawaits⟩

theorem Blocked.waitsFor {w : Cluster σ} {x y : Lane} {r s t : String} {awaited : Option String}
    (hx : w.Blocked x r s t) (hy : w.wait? y = some (t, r, awaited)) : w.WaitsFor x y := by
  obtain ⟨⟨t', q⟩, hlane, heq⟩ := Option.map_eq_some_iff.1 hy
  simp only [Prod.mk.injEq] at heq
  obtain ⟨rfl, hsender, -⟩ := heq
  exact ⟨r, s, t', hx, q, hlane, hsender⟩

theorem lane?_activity {w : Cluster σ} {x : Lane} {r : String} {q : Inbound.Queue Dispatch}
    {d : Dispatch} (h : w.lane? x = some (r, q)) (hd : q.current = some d) :
    w.activity? (.drain x.place x.queue) = some (r, .dispatch d) := by
  obtain ⟨s, hs, hq⟩ := Option.bind_eq_some_iff.1 h
  obtain ⟨q', hget, heq⟩ := Option.map_eq_some_iff.1 hq
  cases heq
  simp [activity?, hs, Node.current?, hget, hd]

theorem Sorted.lane {w : Cluster σ} (h : w.Sorted) {x : Lane} {r : String}
    {q : Inbound.Queue Dispatch} (hx : w.lane? x = some (r, q)) : q.Sorted := by
  obtain ⟨s, hs, hq⟩ := Option.bind_eq_some_iff.1 hx
  obtain ⟨q', hget, heq⟩ := Option.map_eq_some_iff.1 hq
  cases heq
  exact (h s (List.mem_of_getElem? hs)).queues _ q hget

end Cluster

namespace History

variable {σ : Type} [FaithfulTransport σ] {h : History σ} {x y : Lane} {r s t r' s' t' : String}

/-- The node of a blocked queue comes before the sender. -/
theorem Reachable.blocked_lt (hr : Reachable Listeners.Standard h)
    (hcallers : ∀ k a id b m, .asked (.user k) a id b m ∈ h.notes → m.channel ≠ placeChannel)
    (hx : h.cluster.Blocked x r s t) : r < s := by
  obtain ⟨q, hlane, rfl, hawaits⟩ := hx
  obtain ⟨d, hd, hawaits⟩ := Option.bind_eq_some_iff.1 hawaits
  have hfrom := (hr.sorted.lane hlane).current d hd
  cases d with
  | placing ticket e c rest =>
    obtain ⟨hsender, hquery, hplace⟩ := hfrom
    rw [← hsender]
    exact hr.lt_sender hcallers (Cluster.lane?_activity hlane hd) rfl hquery hplace
  | opening | firing | answering | done => cases hawaits

/-- A blocked queue waits for one whose node has a smaller id, if that one is blocked as well. -/
theorem Reachable.waitsFor_lt (hr : Reachable Listeners.Standard h)
    (hcallers : ∀ k a id b m, .asked (.user k) a id b m ∈ h.notes → m.channel ≠ placeChannel)
    (hxy : h.cluster.WaitsFor x y) (hx : h.cluster.Blocked x r s t)
    (hy : h.cluster.Blocked y r' s' t') : r' < r := by
  obtain ⟨r₀, s₀, t₀, ⟨q₀, hlane₀, -⟩, q₁, hlane₁, rfl⟩ := hxy
  have hlt := hr.blocked_lt hcallers hy
  obtain ⟨q, hlane, -⟩ := hx
  obtain ⟨q', hlane', rfl, -⟩ := hy
  cases hlane₀.symm.trans hlane
  cases hlane₁.symm.trans hlane'
  exact hlt

/-- Queues never wait for each other in a circle: along every chain of blocked queues the ids of
their nodes fall. -/
theorem no_circular_wait (hr : Reachable Listeners.Standard h)
    (hcallers : ∀ k a id b m, .asked (.user k) a id b m ∈ h.notes → m.channel ≠ placeChannel) :
    (∀ x y r s t r' s' t', Relation.TransGen h.cluster.WaitsFor x y →
      h.cluster.Blocked x r s t → h.cluster.Blocked y r' s' t' → r' < r) ∧
    ∀ x, ¬ Relation.TransGen h.cluster.WaitsFor x x := by
  have hchain : ∀ x y r s t r' s' t', Relation.TransGen h.cluster.WaitsFor x y →
      h.cluster.Blocked x r s t → h.cluster.Blocked y r' s' t' → r' < r := by
    intro x y r s t r' s' t' hchain hx
    induction hchain generalizing r' s' t' with
    | single hxy => exact fun hy => hr.waitsFor_lt hcallers hxy hx hy
    | tail _ hyz ih =>
      -- whatever waits is blocked, so the ids fall up to the middle of the chain as well
      intro hz
      obtain ⟨r₀, s₀, t₀, hy, -⟩ := id hyz
      exact String.lt_trans (hr.waitsFor_lt hcallers hyz hy hz) (ih _ _ _ hy)
  refine ⟨hchain, fun x hcycle => ?_⟩
  obtain ⟨y, ⟨r, s, t, hx, -⟩, -⟩ := Relation.TransGen.head'_iff.1 hcycle
  exact String.lt_irrefl r (hchain x x r s t r s t hcycle hx hx)

/-- Three nodes of a cluster. -/
def trio : List (String × UInt64 × Listeners Handler) :=
  ["c", "a", "b"].map fun id => (id, 64, (Node.new ⟨id, ""⟩ 64 0).withListeners.messenger.listeners)

/-- Of three nodes "b", "a" and "c", the first takes the second for the head, the second itself, and
the third the first. The first one and then the third one have their heads place a service. The
second one chooses the third one for the former, and the first one the second one for the latter. -/
def queued : History Network :=
  let met := run ⟨Cluster.gathering trio, []⟩
    [.follow 0, .follow 0, .follow 1, .follow 1, .follow 2, .follow 2]
  let seen := met.look fun id =>
    if id = "a" then loaded "c" else if id = "b" then loaded "a" else loaded "b"
  let asked := (seen.call 0 { task := "t", memory := 16 }).run
    ([.job 0, .job 0, .job 0, .follow 1] ++ .replicate 6 (.drain 1 0))
  (asked.call 2 { task := "t", memory := 16 }).run
    ([.job 1, .job 1, .job 1, .follow 0] ++ .replicate 6 (.drain 0 0))

theorem queued_waits_down :
    Reachable Listeners.Standard queued ∧
      (∀ k a id b m, .asked (.user k) a id b m ∈ queued.notes → m.channel ≠ placeChannel) ∧
        queued.cluster.Blocked ⟨0, 0⟩ "b" "c" "a" ∧ queued.cluster.Blocked ⟨1, 0⟩ "a" "b" "c" ∧
          queued.cluster.WaitsFor ⟨0, 0⟩ ⟨1, 0⟩ ∧
            ¬ Relation.TransGen queued.cluster.WaitsFor ⟨1, 0⟩ ⟨0, 0⟩ := by
  have hgathered : Reachable Listeners.Standard ⟨Cluster.gathering trio, []⟩ := by
    refine reachable_gathering (by decide) fun x hx => ?_
    obtain ⟨id, -, rfl⟩ := List.mem_map.1 hx
    exact Node.standard_withListeners _ _ _
  have hr : Reachable Listeners.Standard queued :=
    (((((hgathered.run _).look _).call _ _).run _).call _ _).run _
  have hcallers : ∀ k a id b m, .asked (.user k) a id b m ∈ queued.notes →
      m.channel ≠ placeChannel := by
    have hcauses : ∀ n ∈ queued.notes, (n.cause matches .user _) = false := by decide +kernel
    intro k a id b m hasked
    cases hcauses _ hasked
  have hb : queued.cluster.Blocked ⟨0, 0⟩ "b" "c" "a" :=
    Cluster.blocked_iff.2 (by decide +kernel)
  have ha : queued.cluster.Blocked ⟨1, 0⟩ "a" "b" "c" :=
    Cluster.blocked_iff.2 (by decide +kernel)
  have hwaits := hb.waitsFor (Cluster.blocked_iff.1 ha)
  refine ⟨hr, hcallers, hb, ha, hwaits, fun hback => ?_⟩
  exact (no_circular_wait hr hcallers).2 _ (.head hwaits hback)

end History

end Fleet
