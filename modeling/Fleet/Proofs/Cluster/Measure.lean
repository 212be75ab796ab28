import Fleet.Cluster.Schedule
import Fleet.Proofs.Transport.Faithful
import Mathlib.Data.Multiset.Bind

/-!
# Sums over clusters

What has to be counted in a cluster stands in four kinds of places: jobs, messages that wait in the
queues of a node and the work on them, outcomes that wait for their queries, and messages in
transit. A measure says what each place holds, and its sum over a cluster is a multiset. A step
touches one or two places, so the sum before it and the sum after it have the rest in common.
-/

namespace Fleet

/-- What each place of a cluster holds. -/
structure Measure (β : Type) where
  /-- A job, by its number. -/
  job : Nat → Work → Multiset β
  /-- A message that waits at a node. -/
  parked : String → Message → Multiset β
  /-- The work on a message at a node. -/
  dispatch : String → Dispatch → Multiset β
  /-- The outcome of a query. -/
  reply : Uuid → Reply → Multiset β
  /-- A message on its way to a mailbox. -/
  letter : Nat → Message → Multiset β

namespace Measure

variable {σ β : Type} (μ : Measure β)

/-- The messages that wait in a queue. -/
def backlog (node : String) (waiting : List Delivery) : Multiset β :=
  (waiting.map fun d => μ.parked node d.message).sum

/-- What a queue is busy with. -/
def current (node : String) (d : Option Dispatch) : Multiset β := d.elim 0 (μ.dispatch node)

/-- A queue of a node. -/
def queue (node : String) (q : Inbound.Queue Dispatch) : Multiset β :=
  μ.current node q.current + μ.backlog node q.waiting

/-- All queues of a node. -/
def inbound (node : String) (b : Inbound Dispatch) : Multiset β :=
  b.queues.total fun _ q => μ.queue node q

/-- The outcomes that wait at a messenger. -/
def replies (m : Messenger) : Multiset β := m.replies.total μ.reply

/-- A node. -/
def node (n : Node) : Multiset β := μ.inbound n.id n.inbound + μ.replies n.messenger

/-- The messages in transit. -/
def links [FaithfulTransport σ] (s : σ) : Multiset β :=
  (FaithfulTransport.transit s).bind fun e => μ.letter e.1 e.2

/-- What every activity of a node may touch. -/
def site [FaithfulTransport σ] (s : Site σ) : Multiset β :=
  μ.replies s.node.messenger + μ.links s.links

/-- The jobs of a cluster. -/
def jobs (jobs : Table Nat Job) : Multiset β := jobs.total fun n (j : Job) => μ.job n j.work

/-- The nodes of a cluster. -/
def stations (stations : List Station) : Multiset β :=
  (stations.map fun s => μ.node s.node).sum

/-- A whole cluster. -/
def cluster [FaithfulTransport σ] (w : Cluster σ) : Multiset β :=
  μ.jobs w.jobs + μ.stations w.stations + μ.links w.links

/-! ### Messages in transit -/

section

variable [FaithfulTransport σ] {s s' : σ}

theorem links_le (h : FaithfulTransport.transit s' ≤ FaithfulTransport.transit s) :
    μ.links s' ≤ μ.links s := by
  obtain ⟨lost, hlost⟩ := Multiset.le_iff_exists_add.1 h
  rw [links, links, hlost, Multiset.add_bind]
  exact Multiset.le_add_right _ _

theorem links_cons_le {k : Nat} {m : Message}
    (h : FaithfulTransport.transit s' ≤ (k, m) ::ₘ FaithfulTransport.transit s) :
    μ.links s' ≤ μ.letter k m + μ.links s := by
  obtain ⟨lost, hlost⟩ := Multiset.le_iff_exists_add.1 h
  have hsum : μ.links s' + lost.bind (fun e => μ.letter e.1 e.2) = μ.letter k m + μ.links s := by
    rw [links, links, ← Multiset.add_bind, ← hlost, Multiset.cons_bind]
  rw [← hsum]
  exact Multiset.le_add_right _ _

theorem le_links_of_cons {k : Nat} {m : Message}
    (h : (k, m) ::ₘ FaithfulTransport.transit s' ≤ FaithfulTransport.transit s) :
    μ.letter k m + μ.links s' ≤ μ.links s := by
  obtain ⟨lost, hlost⟩ := Multiset.le_iff_exists_add.1 h
  rw [links, links, hlost, Multiset.add_bind, Multiset.cons_bind]
  exact Multiset.le_add_right _ _

end

/-! ### Queues -/

theorem inbound_eq {node : String} {b : Inbound Dispatch} {n : Nat} {q : Inbound.Queue Dispatch}
    (h : b.queues.get? n = some q) :
    μ.inbound node b = μ.queue node q + (b.queues.erase n).total fun _ q => μ.queue node q :=
  Table.total_eq_add _ h

theorem inbound_modify {node : String} {b : Inbound Dispatch} {n : Nat}
    {q : Inbound.Queue Dispatch} (f : Inbound.Queue Dispatch → Inbound.Queue Dispatch)
    (h : b.queues.get? n = some q) :
    μ.inbound node { b with queues := b.queues.modify n f } =
      μ.queue node (f q) + (b.queues.erase n).total fun _ q => μ.queue node q :=
  Table.total_modify _ h

/-- What is being done in a queue changes. -/
theorem inbound_setCurrent (node : String) {b : Inbound Dispatch} {n : Nat}
    {q : Inbound.Queue Dispatch} (d : Option Dispatch) (h : b.queues.get? n = some q) :
    ∃ R, μ.inbound node b = μ.current node q.current + R ∧
      μ.inbound node (b.setCurrent n d) = μ.current node d + R := by
  refine ⟨μ.backlog node q.waiting + (b.queues.erase n).total fun _ q => μ.queue node q, ?_, ?_⟩
  · rw [μ.inbound_eq h, queue, add_assoc]
  · rw [Inbound.setCurrent, μ.inbound_modify _ h, queue, add_assoc]

/-- The next message of a queue is taken up. -/
theorem inbound_startNext (node : String) {b : Inbound Dispatch} {n : Nat} {sender : String}
    {d : Delivery} {rest : List Delivery} (work : Delivery → Dispatch)
    (h : b.queues.get? n = some ⟨sender, d :: rest, none⟩) :
    ∃ R, μ.inbound node b = μ.parked node d.message + R ∧
      μ.inbound node (b.startNext n work) = μ.dispatch node (work d) + R := by
  refine ⟨μ.backlog node rest + (b.queues.erase n).total fun _ q => μ.queue node q, ?_, ?_⟩
  · rw [μ.inbound_eq h, queue, current, backlog, List.map_cons, List.sum_cons, Option.elim_none,
      zero_add, backlog, add_assoc]
  · rw [Inbound.startNext, μ.inbound_modify _ h, queue]
    simp only [Inbound.Queue.startNext, current, Option.elim_some, add_assoc]

/-- A message is put into the queue of its sender. -/
theorem inbound_push_le (node : String) (b : Inbound Dispatch) (d : Delivery) :
    μ.inbound node (b.push d) ≤ μ.parked node d.message + μ.inbound node b := by
  unfold Inbound.push
  dsimp only
  split
  · next n hn =>
    cases hq : b.queues.get? n with
    | none =>
      rw [Table.modify_of_get?_eq_none hq]
      exact Multiset.le_add_left _ _
    | some q =>
      rw [μ.inbound_modify _ hq, μ.inbound_eq hq, ← add_assoc]
      simp only [Inbound.Queue.push, queue, backlog, List.map_append, List.sum_append,
        List.map_cons, List.map_nil, List.sum_cons, List.sum_nil, add_zero]
      refine le_of_eq ?_
      ac_rfl
  · rw [inbound, Table.total_insert]
    have herase : ((b.queues.erase b.next).total fun _ q => μ.queue node q) ≤ μ.inbound node b := by
      cases hq : b.queues.get? b.next with
      | none => rw [Table.erase_of_get?_eq_none hq]; rfl
      | some q =>
        rw [μ.inbound_eq hq]
        exact Multiset.le_add_left _ _
    have hnew : μ.queue node ⟨d.message.sender, [d], none⟩ = μ.parked node d.message := by
      simp [queue, current, backlog]
    rw [hnew]
    exact add_le_add_right herase _

/-! ### Outcomes -/

theorem replies_eq {m : Messenger} {id : Uuid} {r : Reply} (h : m.replies.get? id = some r) :
    μ.replies m = μ.reply id r + μ.replies { m with replies := m.replies.erase id } :=
  Table.total_eq_add _ h

theorem replies_erase_le (m : Messenger) (id : Uuid) :
    μ.replies { m with replies := m.replies.erase id } ≤ μ.replies m := by
  cases h : m.replies.get? id with
  | none => rw [Table.erase_of_get?_eq_none h]
  | some r =>
    rw [μ.replies_eq h]
    exact Multiset.le_add_left _ _

theorem replies_deliver_le (m : Messenger) (id : Uuid) (r : Reply) :
    μ.replies (m.deliver id r) ≤ μ.reply id r + μ.replies m := by
  have h : μ.replies (m.deliver id r) =
      μ.reply id r + μ.replies { m with replies := m.replies.erase id } :=
    Table.total_insert _
  rw [h]
  exact add_le_add_right (μ.replies_erase_le m id) _

theorem replies_of_eq {m m' : Messenger} (h : m'.replies = m.replies) :
    μ.replies m' = μ.replies m := by
  rw [replies, replies, h]

/-! ### Places of a cluster -/

private theorem sum_set {α : Type} (f : α → Multiset β) {l : List α} {p : Nat} {a : α}
    (h : l[p]? = some a) :
    ∃ R, (l.map f).sum = f a + R ∧ ∀ b, ((l.set p b).map f).sum = f b + R := by
  induction l generalizing p with
  | nil => simp at h
  | cons x rest ih =>
    cases p with
    | zero =>
      simp only [List.getElem?_cons_zero, Option.some.injEq] at h
      subst h
      exact ⟨(rest.map f).sum, by simp, by simp⟩
    | succ p =>
      obtain ⟨R, hR, hset⟩ := ih (p := p) (by simpa using h)
      refine ⟨f x + R, ?_, fun b => ?_⟩
      · rw [List.map_cons, List.sum_cons, hR]
        ac_rfl
      · rw [List.set_cons_succ, List.map_cons, List.sum_cons, hset b]
        ac_rfl

/-- One node and the rest. -/
theorem stations_set {l : List Station} {p : Nat} {s : Station} (h : l[p]? = some s) :
    ∃ R, μ.stations l = μ.node s.node + R ∧
      ∀ s' : Station, μ.stations (l.set p s') = μ.node s'.node + R := by
  obtain ⟨R, hsum, hset⟩ := sum_set (fun s : Station => μ.node s.node) h
  refine ⟨R, ?_, fun s' => ?_⟩
  · rw [stations, hsum]
  · rw [stations, hset]

/-- One job and the rest. -/
theorem jobs_insert {jobs : Table Nat Job} {n : Nat} {j : Job} (h : jobs.get? n = some j) :
    ∃ R, μ.jobs jobs = μ.job n j.work + R ∧
      ∀ j' : Job, μ.jobs (jobs.insert n j') = μ.job n j'.work + R := by
  refine ⟨(jobs.erase n).total fun n (j : Job) => μ.job n j.work, ?_, fun j' => ?_⟩
  · exact Table.total_eq_add (fun n (j : Job) => μ.job n j.work) h
  · exact Table.total_insert fun n (j : Job) => μ.job n j.work

theorem jobs_erase_le (jobs : Table Nat Job) (n : Nat) :
    μ.jobs (jobs.erase n) ≤ μ.jobs jobs := by
  cases h : jobs.get? n with
  | none => rw [Table.erase_of_get?_eq_none h]
  | some j =>
    have hsum : μ.jobs jobs = μ.job n j.work + μ.jobs (jobs.erase n) :=
      Table.total_eq_add (fun n (j : Job) => μ.job n j.work) h
    rw [hsum]
    exact Multiset.le_add_left _ _

theorem jobs_insert_new {jobs : Table Nat Job} {n : Nat} (j : Job) (h : jobs.get? n = none) :
    μ.jobs (jobs.insert n j) = μ.job n j.work + μ.jobs jobs :=
  Table.total_insert_new (fun n (j : Job) => μ.job n j.work) h

/-! ### What sums are made of -/

/-- What holds of all that any place holds holds of everything in a cluster. -/
theorem forall_mem_cluster [FaithfulTransport σ] {w : Cluster σ} {p : β → Prop}
    (hjob : ∀ n work, ∀ x ∈ μ.job n work, p x) (hparked : ∀ a m, ∀ x ∈ μ.parked a m, p x)
    (hdispatch : ∀ a d, ∀ x ∈ μ.dispatch a d, p x) (hreply : ∀ id r, ∀ x ∈ μ.reply id r, p x)
    (hletter : ∀ k m, (k, m) ∈ FaithfulTransport.transit w.links → ∀ x ∈ μ.letter k m, p x) :
    ∀ x ∈ μ.cluster w, p x := by
  intro x hx
  rw [cluster, Multiset.mem_add, Multiset.mem_add] at hx
  rcases hx with (hx | hx) | hx
  · obtain ⟨e, -, hx⟩ := Table.mem_sum_map hx
    exact hjob _ _ x hx
  · obtain ⟨s, -, hx⟩ := Table.mem_sum_map hx
    rcases Multiset.mem_add.1 hx with hx | hx
    · obtain ⟨e, -, hx⟩ := Table.mem_sum_map hx
      rcases Multiset.mem_add.1 hx with hx | hx
      · cases hd : e.2.current with
        | none =>
          rw [hd] at hx
          exact absurd hx (Multiset.notMem_zero x)
        | some d =>
          rw [hd] at hx
          exact hdispatch _ _ x hx
      · obtain ⟨d, -, hx⟩ := Table.mem_sum_map hx
        exact hparked _ _ x hx
    · obtain ⟨e, -, hx⟩ := Table.mem_sum_map hx
      exact hreply _ _ x hx
  · obtain ⟨e, he, hx⟩ := Multiset.mem_bind.1 hx
    exact hletter e.1 e.2 he x hx

end Measure

end Fleet
