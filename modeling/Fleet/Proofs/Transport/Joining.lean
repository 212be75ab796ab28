import Fleet.Proofs.Cluster.History

/-!
# Nodes that join a network

A node that joins a network gets a mailbox that nobody else has and that nothing has been written
to. So it may join a history.
-/

namespace Fleet

namespace Network

/-- All mailboxes have numbers that were given out. -/
structure Tidy (n : Network) : Prop where
  mailboxes : ∀ k box, n.mailboxes.get? k = some box → k < n.next
  endpoints : ∀ id p, n.endpoints.get? id = some p → p.mailbox < n.next

theorem tidy_empty : empty.Tidy := ⟨fun _ _ h => (nomatch h), fun _ _ h => (nomatch h)⟩

theorem Tidy.post {n : Network} (h : n.Tidy) (k : Nat) (e : TransportEvent) :
    (n.post k e).Tidy := by
  refine ⟨fun k' box hbox => ?_, h.endpoints⟩
  change (n.mailboxes.modify k _).get? k' = some box at hbox
  rw [Table.get?_modify] at hbox
  split at hbox
  · next heq =>
    obtain ⟨old, hold, -⟩ := Option.map_eq_some_iff.1 hbox
    exact h.mailboxes k' old (heq ▸ hold)
  · exact h.mailboxes k' box hbox

/-- The network with a node that has not been told of the others yet. -/
def welcome (n : Network) (i : Identity) : Network :=
  { n with
    endpoints := n.endpoints.insert i.id ⟨i, n.next⟩
    mailboxes := n.mailboxes.insert n.next ⟨[], true⟩
    next := n.next + 1 }

/-- Tells a node with a mailbox of some others, and them of it. -/
def introduce (i : Identity) (mine : Nat) (peers : List Endpoint) (n : Network) : Network :=
  peers.foldl (fun n p => (n.post p.mailbox (.connected i)).post mine (.connected p.identity)) n

theorem join_eq (n : Network) (i : Identity) :
    n.join i = (n.next, introduce i n.next n.endpoints.values (n.welcome i)) := rfl

/-- Telling nodes of each other brings no message and changes no mailbox. -/
theorem introduce_spec (i : Identity) (mine : Nat) (peers : List Endpoint) (n : Network) :
    (introduce i mine peers n).transit ≤ n.transit ∧
      (introduce i mine peers n).box? = n.box? ∧ (introduce i mine peers n).next = n.next ∧
        (n.Tidy → (introduce i mine peers n).Tidy) := by
  induction peers generalizing n with
  | nil => exact ⟨le_refl _, rfl, rfl, id⟩
  | cons p rest ih =>
    obtain ⟨ht, hb, hnext, htidy⟩ := ih ((n.post p.mailbox (.connected i)).post mine
      (.connected p.identity))
    refine ⟨ht.trans ?_, hb, hnext, fun h => htidy ((h.post _ _).post _ _)⟩
    exact (transit_post_of_no_message rfl).trans (transit_post_of_no_message rfl)

theorem transit_join_le (n : Network) (i : Identity) : (n.join i).2.transit ≤ n.transit := by
  refine (introduce_spec i n.next n.endpoints.values (n.welcome i)).1.trans ?_
  rw [transit, welcome, Table.total_insert]
  have hnone : letters n.next ⟨[], true⟩ = 0 := rfl
  rw [hnone, zero_add]
  exact total_erase_le n n.next

theorem box?_join (n : Network) (i : Identity) (id : String) :
    (n.join i).2.box? id = if id = i.id then some n.next else n.box? id := by
  rw [join_eq, (introduce_spec i n.next n.endpoints.values (n.welcome i)).2.1, box?, welcome,
    Table.get?_insert]
  split <;> rfl

theorem next_join (n : Network) (i : Identity) : (n.join i).2.next = n.next + 1 :=
  (introduce_spec i n.next n.endpoints.values (n.welcome i)).2.2.1

theorem Tidy.welcome {n : Network} (h : n.Tidy) (i : Identity) : (n.welcome i).Tidy := by
  refine ⟨fun k box hbox => ?_, fun id p hp => ?_⟩
  · rw [Network.welcome, Table.get?_insert] at hbox
    change k < n.next + 1
    split at hbox
    · omega
    · have := h.mailboxes k box hbox
      omega
  · rw [Network.welcome, Table.get?_insert] at hp
    change p.mailbox < n.next + 1
    split at hp
    · cases hp
      exact Nat.lt_succ_self _
    · have := h.endpoints id p hp
      omega

theorem Tidy.join {n : Network} (h : n.Tidy) (i : Identity) : (n.join i).2.Tidy :=
  (introduce_spec i n.next n.endpoints.values (n.welcome i)).2.2.2 (h.welcome i)

/-- Messages are on their way only to mailboxes that there are. -/
theorem Tidy.lt_of_mem_transit {n : Network} (h : n.Tidy) {k : Nat} {m : Message}
    (hm : (k, m) ∈ n.transit) : k < n.next := by
  obtain ⟨e, he, hm⟩ := Table.mem_sum_map hm
  obtain ⟨m', -, heq⟩ := List.mem_map.1 (Multiset.mem_coe.1 hm)
  cases heq
  exact h.mailboxes _ _ (Table.get?_eq_some_iff.2 he)

end Network

/-- A node that has done nothing yet. -/
def Station.idle (node : Node) (listeners : Listeners Handler) (mailbox : Nat) : Station where
  node := { node with messenger := { node.messenger with listeners } }
  follower := some { mailbox }

/-- A node that joins a network with the mailbox that it gets there joins a history. -/
theorem Station.fresh_join {P : Listeners Handler → Prop} {w : Cluster Network} {i : Identity}
    {memory : UInt64} {timeout : Nat} {listeners : Listeners Handler} (htidy : w.links.Tidy)
    (hid : ∀ s ∈ w.stations, s.node.id ≠ i.id)
    (hmailboxes : ∀ s ∈ w.stations, ∀ f, s.follower = some f → f.mailbox < w.links.next)
    (hlisteners : P listeners) :
    Station.Fresh P w (w.links.join i).2
      (.idle (.new i memory timeout) listeners w.links.next) := by
  refine ⟨hid, rfl, rfl, rfl, hlisteners, rfl, rfl, rfl, w.links.transit_join_le i,
    fun s hs f hf id hbox => ?_, fun f hf => ?_⟩
  · change (w.links.join i).2.box? id = some f.mailbox at hbox
    rw [Network.box?_join] at hbox
    split at hbox
    · have := hmailboxes s hs f hf
      have := Option.some.inj hbox
      omega
    · exact hbox
  · cases hf
    refine ⟨fun m hm => ?_, fun id hbox => ?_⟩
    · have hold := Multiset.mem_of_le (w.links.transit_join_le i) hm
      exact lt_irrefl _ (htidy.lt_of_mem_transit hold)
    · change (w.links.join i).2.box? id = some w.links.next at hbox
      rw [Network.box?_join] at hbox
      split at hbox
      · next heq => exact heq
      · obtain ⟨p, hp, heq⟩ := Option.map_eq_some_iff.1 hbox
        have := htidy.endpoints id p hp
        omega

namespace Cluster

/-- A network of nodes that have joined one after another, the last one first in the list, each with
an id, memory and listeners. -/
def gathering : List (String × UInt64 × Listeners Handler) → Cluster Network
  | [] => { links := .empty, now := .epoch, cpu := Load.unknownCpu }
  | (id, memory, listeners) :: rest =>
    let w := gathering rest
    { w with
      links := (w.links.join ⟨id, ""⟩).2
      stations := w.stations ++
        [.idle (.new ⟨id, ""⟩ memory defaultQueryMillis) listeners w.links.next] }

theorem gathering_spec (l : List (String × UInt64 × Listeners Handler)) :
    (gathering l).links.Tidy ∧ (∀ s ∈ (gathering l).stations, s.node.id ∈ l.map Prod.fst) ∧
      ∀ s ∈ (gathering l).stations, ∀ f, s.follower = some f →
        f.mailbox < (gathering l).links.next := by
  induction l with
  | nil => exact ⟨Network.tidy_empty, by simp [gathering], by simp [gathering]⟩
  | cons x rest ih =>
    obtain ⟨id, memory, listeners⟩ := x
    obtain ⟨htidy, hids, hmailboxes⟩ := ih
    have hnext := (gathering rest).links.next_join ⟨id, ""⟩
    refine ⟨htidy.join _, fun s hs => ?_, fun s hs f hf => ?_⟩
    · rcases List.mem_append.1 hs with hold | hnew
      · exact List.mem_cons_of_mem _ (hids s hold)
      · obtain rfl := List.mem_singleton.1 hnew
        exact List.mem_cons_self
    · change f.mailbox < ((gathering rest).links.join ⟨id, ""⟩).2.next
      rw [hnext]
      rcases List.mem_append.1 hs with hold | hnew
      · have := hmailboxes s hold f hf
        omega
      · obtain rfl := List.mem_singleton.1 hnew
        cases hf
        exact Nat.lt_succ_self _

end Cluster

/-- Nodes with different ids that have joined a network have a history. -/
theorem History.reachable_gathering {P : Listeners Handler → Prop}
    {l : List (String × UInt64 × Listeners Handler)} (hids : (l.map Prod.fst).Nodup)
    (hlisteners : ∀ x ∈ l, P x.2.2) : Reachable P ⟨Cluster.gathering l, []⟩ := by
  induction l with
  | nil => exact .empty _ rfl rfl rfl (by decide)
  | cons x rest ih =>
    obtain ⟨id, memory, listeners⟩ := x
    obtain ⟨hnew, hrest⟩ := List.nodup_cons.1 hids
    obtain ⟨htidy, hknown, hmailboxes⟩ := Cluster.gathering_spec rest
    have hold := ih hrest fun x hx => hlisteners x (List.mem_cons_of_mem _ hx)
    refine .next hold (.join _ _ _ (Station.fresh_join htidy (fun s hs heq => hnew ?_) hmailboxes
      (hlisteners _ List.mem_cons_self)))
    have hmem := hknown s hs
    rw [heq] at hmem
    exact hmem

end Fleet
