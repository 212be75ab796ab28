import Fleet.Proofs.Cluster.Lineage

/-!
# Where queries go

However the views of the nodes differ, and however they change in between, the queries that a call
causes go from the node that was called to its head, and from there to the node that the head has
chosen. A node never asks itself, and whoever was asked to start a service asks nobody.
-/

namespace Fleet

variable {σ : Type} {h : History σ}

/-- A query is sent once at most for a call, and once at most for a query. -/
theorem Attributed.length_asksOf_le (ha : Attributed h) {c : Cause}
    (hc : (∃ n, c = .call n) ∨ ∃ id, c = .query id) : (asksOf h.notes c).length ≤ 1 := by
  have hle := ha.deeds_le hc
  change (asksOf h.notes c).length + (startsOf h.notes c).length ≤ 1 at hle
  omega

/-- A node sends a query of a call as it was led to. -/
theorem Attributed.led_of_asked (ha : Attributed h) {n : Nat} {a b : String} {id : Uuid}
    {m : Message} (hasked : .asked (.call n) a id b m ∈ h.notes) :
    (∃ spec, .called n a spec ∈ h.notes) ∧ ∃ head, Led h.notes (.call n) a head b m := by
  have hmem : .asked (.call n) a id b m ∈ tale h.notes (.call n) := mem_tale_iff.2 ⟨hasked, rfl⟩
  obtain ⟨-, a', cr, hcalled⟩ := ha.recorded _ (List.ne_nil_of_mem hmem)
  obtain ⟨rfl, spec, head, hspec, hled, -⟩ := hcalled.asked hmem
  refine ⟨⟨spec, (mem_tale_iff.1 hspec).1⟩, head, hled.congr fun x _ hx => ?_⟩
  rw [mem_tale_iff, and_iff_left hx]

namespace History

variable [FaithfulTransport σ]

/-- The queries of a cluster go where they should. -/
structure Routing (h : History σ) : Prop where
  /-- A call sends one query of its own at most. -/
  once : ∀ n, (asksOf h.notes (.call n)).length ≤ 1
  /-- It follows what the node that was called has seen, one thing after another: the query goes to
  the head that was read, which then is another node with a smaller id, or, if the node has read
  that it is the head itself, to the node that it has chosen then, if that is another one. -/
  own : ∀ n a id b m, .asked (.call n) a id b m ∈ h.notes →
    (∃ spec, .called n a spec ∈ h.notes) ∧ ∃ head, Led h.notes (.call n) a head b m
  /-- A node that is asked as the head sends one query at most, to make another node start the
  service, whoever is the head by then. -/
  asHead : ∀ c a id b m, .asked c a id b m ∈ h.notes → m.channel = placeChannel →
    (asksOf h.notes (.query id)).length ≤ 1 ∧
      ∀ a' id' b' m', .asked (.query id) a' id' b' m' ∈ h.notes →
        a' = b ∧ m'.channel = startChannel ∧ b' ≠ b
  /-- A node that is asked to start a service asks nobody. -/
  start : ∀ c a id b m, .asked c a id b m ∈ h.notes → m.channel = startChannel →
    asksOf h.notes (.query id) = []
  /-- A call causes two queries in the whole cluster at most. -/
  whole : ∀ n (l : List Note), l.Sublist h.notes →
    (∀ x ∈ l, ∃ c a id b m, x = Note.asked c a id b m ∧ Caused h.notes n c) → l.length ≤ 2
  /-- No node asks itself, unless a caller has it send a query of the caller's own. -/
  others : ∀ c a id b m, .asked c a id b m ∈ h.notes → (∀ k, c ≠ .user k) → b ≠ a

/-- The queries that a call causes are two at most. -/
theorem Reachable.length_caused_le (hr : Reachable Listeners.Standard h)
    (hdrawn : h.cluster.drawn ≤ 2 ^ 128) {n : Nat} {l : List Note} (hl : l.Sublist h.notes)
    (hcaused : ∀ x ∈ l, ∃ c a id b m, x = Note.asked c a id b m ∧ Caused h.notes n c) :
    l.length ≤ 2 := by
  obtain ⟨cs, hcs, hasks, -⟩ := hr.exists_lineage hdrawn n
  refine (length_le_sum_of_sublist Note.isAsk hl (fun x hx => ?_) cs fun x hx => ?_).trans hasks
  · obtain ⟨c, a, id, b, m, rfl, -⟩ := hcaused x hx
    rfl
  · obtain ⟨c, a, id, b, m, rfl, hc⟩ := hcaused x hx
    exact hcs c hc

/-- A node asks another one than itself. -/
theorem Reachable.asked_ne (hr : Reachable Listeners.Standard h)
    (hdrawn : h.cluster.drawn ≤ 2 ^ 128) {c : Cause} {a b : String} {id : Uuid} {m : Message}
    (hasked : .asked c a id b m ∈ h.notes) (huser : ∀ k, c ≠ .user k) : b ≠ a := by
  have ha := hr.attributed hdrawn
  cases c with
  | call n =>
    obtain ⟨-, head, hled⟩ := ha.led_of_asked hasked
    rcases hled.goes with ⟨-, rfl, hother, -⟩ | ⟨-, -, hother, -⟩
    · exact hother
    · exact hother
  | query id' =>
    have hmem : .asked (.query id') a id b m ∈ tale h.notes (.query id') :=
      mem_tale_iff.2 ⟨hasked, rfl⟩
    obtain ⟨c', a', b', m', d, hasked', -, -⟩ := ha.recorded _ (List.ne_nil_of_mem hmem)
    have honward := hr.onward hdrawn hasked' hasked
    exact honward.node ▸ honward.target
  | user k => exact absurd rfl (huser k)
  | other =>
    have hmem : .asked .other a id b m ∈ tale h.notes .other := mem_tale_iff.2 ⟨hasked, rfl⟩
    obtain ⟨a', s, heq⟩ := ha.recorded _ (List.ne_nil_of_mem hmem) _ hmem
    cases heq

theorem queries_routed (hr : Reachable Listeners.Standard h) (hdrawn : h.cluster.drawn ≤ 2 ^ 128) :
    Routing h := by
  have ha := hr.attributed hdrawn
  refine ⟨fun n => ha.length_asksOf_le (.inl ⟨n, rfl⟩), fun n a id b m => ha.led_of_asked,
    fun c a id b m hasked hplace => ?_, fun c a id b m => hr.asksOf_eq_nil hdrawn,
    fun n l => hr.length_caused_le hdrawn, fun c a id b m => hr.asked_ne hdrawn⟩
  refine ⟨ha.length_asksOf_le (.inr ⟨id, rfl⟩), fun a' id' b' m' honward => ?_⟩
  have hgoes := hr.onward hdrawn hasked honward
  exact ⟨hgoes.node, hgoes.start, hgoes.target⟩

/-- Two nodes of a cluster. -/
def neighbouring : List (String × UInt64 × Listeners Handler) :=
  [("b", 64, (Node.new ⟨"b", ""⟩ 64 0).withListeners.messenger.listeners),
    ("a", 64, (Node.new ⟨"a", ""⟩ 64 0).withListeners.messenger.listeners)]

/-- The second one has met the first one. -/
def neighbours : History Network := run ⟨Cluster.gathering neighbouring, []⟩ [.follow 1]

theorem reachable_neighbouring :
    Reachable Listeners.Standard ⟨Cluster.gathering neighbouring, []⟩ := by
  refine reachable_gathering (by decide) fun x hx => ?_
  rcases List.mem_cons.1 hx with rfl | hx
  · exact Node.standard_withListeners _ _ _
  · rw [List.mem_singleton.1 hx]
    exact Node.standard_withListeners _ _ _

theorem reachable_neighbours : Reachable Listeners.Standard neighbours :=
  reachable_neighbouring.run _

/-- Two calls on the second node, which has not met the first one when it reads for the first call
that it is the head itself. Before it places the request it learns of the first one, which then is
the head in its view: it chooses this node for the first call, and has it place the service for the
second call. -/
def unsettled : History Network :=
  let read := (call ⟨Cluster.gathering neighbouring, []⟩ 1 { task := "t", memory := 16 }).run
    [.job 0]
  let placed := (read.look fun id => if id = "b" then loaded "a" else .empty).run
    [.job 0, .job 0, .job 0]
  (placed.call 1 { task := "t", memory := 16 }).run [.job 1, .job 1]

theorem routing_unsettled :
    Reachable Listeners.Standard unsettled ∧ unsettled.cluster.drawn ≤ 2 ^ 128 ∧
      .read (.call 0) "b" "b" ∈ unsettled.notes ∧ .read (.call 1) "b" "a" ∈ unsettled.notes ∧
      (∀ n < 2, (asksOf unsettled.notes (.call n)).length = 1) ∧ Routing unsettled := by
  have hr : Reachable Listeners.Standard unsettled :=
    (((((reachable_neighbouring.call _ _).run _).look _).run _).call _ _).run _
  have hdrawn : unsettled.cluster.drawn ≤ 2 ^ 128 := by decide +kernel
  exact ⟨hr, hdrawn, by decide +kernel, by decide +kernel, by decide +kernel,
    queries_routed hr hdrawn⟩

end History

end Fleet
