import Fleet.Node.Membership
import Fleet.Proofs.Node.Moves
import Fleet.Proofs.Service.Ledger
import Fleet.Proofs.Table
import Fleet.Proofs.Transport.Faithful

/-!
# What nodes keep

Whatever a node does, it keeps its id, its place as an available member of its own view, the name
under which its ledger enters services, and its listeners. Its ledger grows by one service at most,
which has a new identifier. Only events and the tasks of queues touch the inbound queues.
-/

namespace Fleet

/-- All queues have numbers that were given out. -/
def Inbound.Tidy {ω : Type} (b : Inbound ω) : Prop :=
  ∀ n q, b.queues.get? n = some q → n < b.next

namespace Inbound

variable {ω : Type} {b : Inbound ω}

theorem Tidy.modify (h : b.Tidy) (n : Nat) (f : Queue ω → Queue ω) :
    Tidy { b with queues := b.queues.modify n f } := by
  intro k q hq
  dsimp only at hq
  rw [Table.get?_modify] at hq
  split at hq
  · obtain ⟨q', hq', -⟩ := Option.map_eq_some_iff.1 hq
    exact h k q' (by simp_all)
  · exact h k q hq

theorem Tidy.push (h : b.Tidy) (d : Delivery) : (b.push d).Tidy := by
  unfold Inbound.push
  dsimp only
  split
  · exact h.modify _ _
  · intro k q hq
    dsimp only at hq ⊢
    rw [Table.get?_insert] at hq
    split at hq
    · omega
    · have := h k q hq
      omega

/-- A message that comes to a queue does not change what the queues are busy with. -/
theorem Tidy.current_push (h : b.Tidy) (d : Delivery) (queue : Nat) :
    ((b.push d).queues.get? queue).bind (·.current) = (b.queues.get? queue).bind (·.current) := by
  unfold Inbound.push
  dsimp only
  split
  · rw [Table.get?_modify]
    split
    · next heq =>
      subst heq
      cases b.queues.get? queue <;> rfl
    · rfl
  · rw [Table.get?_insert]
    split
    · next heq =>
      subst heq
      cases hq : b.queues.get? b.next with
      | none => rfl
      | some q => exact absurd (h _ q hq) (lt_irrefl _)
    · rfl

end Inbound

variable {σ : Type} [FaithfulTransport σ]

/-- What a node keeps while it does something. -/
structure Site.Keeps (s s' : Site σ) : Prop where
  id : s'.node.id = s.node.id
  self : s'.node.roster.self.available = s.node.roster.self.available
  host : s'.node.ledger.node = s.node.ledger.node
  listeners : s'.node.messenger.listeners = s.node.messenger.listeners
  boxes : FaithfulTransport.box? s'.links = FaithfulTransport.box? s.links
  drawn : s.drawn ≤ s'.drawn
  services : s'.node.ledger.services = s.node.ledger.services ∨
    ∃ x : Service, x.id = .fresh s.drawn ∧ s.drawn < s'.drawn ∧
      s'.node.ledger.services = s.node.ledger.services.insert x.id x
  tidy : s.node.inbound.Tidy → s'.node.inbound.Tidy

namespace Site

variable {s s' s'' : Site σ}

theorem Keeps.refl (s : Site σ) : s.Keeps s :=
  ⟨rfl, rfl, rfl, rfl, rfl, le_refl _, .inl rfl, fun h => h⟩

/-- A step that starts no service, and one that may. -/
theorem Keeps.trans (h : s.Keeps s') (h' : s'.Keeps s'')
    (hsame : s''.node.ledger.services = s'.node.ledger.services) : s.Keeps s'' := by
  refine ⟨h'.id.trans h.id, h'.self.trans h.self, h'.host.trans h.host,
    h'.listeners.trans h.listeners, h'.boxes.trans h.boxes, h.drawn.trans h'.drawn, ?_,
    fun ht => h'.tidy (h.tidy ht)⟩
  rw [hsame]
  rcases h.services with heq | ⟨x, hx, hlt, heq⟩
  · exact .inl heq
  · exact .inr ⟨x, hx, hlt.trans_le h'.drawn, heq⟩

theorem keeps_withMessenger (s : Site σ) {m : Messenger}
    (h : m.listeners = s.node.messenger.listeners) : s.Keeps (s.withMessenger m) :=
  ⟨rfl, rfl, rfl, h, rfl, le_refl _, .inl rfl, fun h => h⟩

theorem keeps_withRoster (s : Site σ) {r : Roster}
    (hid : r.self.identity = s.node.roster.self.identity)
    (hself : r.self.available = s.node.roster.self.available) : s.Keeps (s.withRoster r) :=
  ⟨congrArg Identity.id hid, hself, rfl, rfl, rfl, le_refl _, .inl rfl, fun h => h⟩

theorem keeps_write (s : Site σ) (receiver : String) (m : Message) :
    s.Keeps (s.write receiver m).2 :=
  ⟨rfl, rfl, rfl, rfl, FaithfulTransport.box?_write .., le_refl _, .inl rfl, fun h => h⟩

theorem keeps_start (s : Site σ) (spec : ServiceSpec) : s.Keeps (s.start spec).2 := by
  obtain ⟨hnode, hresult⟩ := s.node.ledger.start_spec spec (.fresh s.drawn) s.now
  rw [start_eq]
  refine ⟨rfl, rfl, hnode, rfl, rfl, Nat.le_succ _, ?_, fun h => h⟩
  split at hresult
  · obtain ⟨hservices, hid, -⟩ := hresult
    exact .inr ⟨_, hid, Nat.lt_succ_self _, by rw [hid]; exact hservices⟩
  · exact .inl hresult

omit [FaithfulTransport σ] in
theorem node_writeAll [Transport σ] (m : Message) (receivers : List String) (s : Site σ) :
    (writeAll m receivers s).2.node = s.node := by
  induction receivers generalizing s with
  | nil => rfl
  | cons receiver rest ih => exact ih (s.write receiver m).2

theorem keeps_writeAll (m : Message) (receivers : List String) (s : Site σ) :
    s.Keeps (writeAll m receivers s).2 := by
  induction receivers generalizing s with
  | nil => exact .refl s
  | cons receiver rest ih =>
    refine (s.keeps_write receiver m).trans (ih (s.write receiver m).2) ?_
    exact congrArg (·.ledger.services) (node_writeAll m rest (s.write receiver m).2)

omit [FaithfulTransport σ] in
theorem node_send [Transport σ] (s : Site σ) (m : Message) : (s.send m).2.node = s.node :=
  node_writeAll m _ s

theorem keeps_send (s : Site σ) (m : Message) : s.Keeps (s.send m).2 := s.keeps_writeAll m _

omit [FaithfulTransport σ] in
theorem storeOwn_eq (s : Site σ) (l : Load) :
    ∃ roster, s.storeOwn l = s.withRoster roster ∧
      roster.self.identity = s.node.roster.self.identity ∧
        roster.self.available = s.node.roster.self.available := by
  rw [storeOwn]
  split
  · next roster h => exact ⟨roster, rfl, Roster.self_report h⟩
  · exact ⟨s.node.roster, rfl, rfl, rfl⟩

theorem keeps_publish (s : Site σ) (cpu : Binary64) : s.Keeps (s.publish cpu).2 := by
  obtain ⟨roster, heq, hid, hself⟩ := s.storeOwn_eq (s.node.ledger.load cpu s.now)
  have hstore := s.keeps_withRoster hid hself
  unfold publish
  simp only [heq]
  split
  · next m _ =>
    refine hstore.trans ((s.withRoster roster).keeps_send m) ?_
    exact congrArg (·.ledger.services) ((s.withRoster roster).node_send m)
  · exact hstore

end Site

/-! ### Activities -/

namespace Query

variable {s s' : Site σ} {q q' : Query}

omit [FaithfulTransport σ] in
theorem Move.services [Transport σ] (h : Query.Move s q q' s') :
    s'.node.ledger.services = s.node.ledger.services ∧ s'.node.inbound = s.node.inbound := by
  cases h <;> exact ⟨rfl, rfl⟩

theorem Move.keeps (h : Query.Move s q q' s') : s.Keeps s' := by
  cases h with
  | enters => exact ⟨rfl, rfl, rfl, rfl, rfl, Nat.le_succ _, .inl rfl, fun h => h⟩
  | unaddressed | late | rests => exact .refl s
  | written => exact s.keeps_write _ _
  | @unwritten id target m timeout =>
    have hdrop := (s.write target m).2.keeps_withMessenger
      (m := s.node.messenger.dropQuery id) rfl
    exact (s.keeps_write target m).trans hdrop rfl
  | picks | expires => exact s.keeps_withMessenger rfl

end Query

namespace Creation

variable {s s' : Site σ} {c c' : Creation}

theorem Move.keeps (h : Creation.Move s c c' s') : s.Keeps s' := by
  cases h with
  | refuses | leads | sends | concludes | rests => exact .refl s
  | refreshes =>
    obtain ⟨roster, heq, hid, hself⟩ := s.node.exists_refreshLoad s.now
    rw [heq]
    exact s.keeps_withRoster hid hself
  | starts => exact s.keeps_start _
  | asks _ hmove => exact hmove.keeps

omit [FaithfulTransport σ] in
theorem Move.inbound [Transport σ] (h : Creation.Move s c c' s') :
    s'.node.inbound = s.node.inbound := by
  cases h with
  | refuses | leads | starts | sends | concludes | rests => rfl
  | refreshes =>
    obtain ⟨roster, heq, -⟩ := s.node.exists_refreshLoad s.now
    rw [heq]
  | asks _ hmove => exact hmove.services.2

end Creation

namespace Dispatch

variable {s s' : Site σ} {d d' : Dispatch}

theorem keeps_respond (s : Site σ) (d : Delivery) (content : Bytes) :
    s.Keeps (s.respond d content).2 := by
  unfold Site.respond
  cases h : s.node.messenger.claimAnswer d with
  | error => exact .refl s
  | ok messenger =>
    obtain ⟨-, answered, rfl⟩ := Messenger.exists_claimAnswer h
    have hclaim := s.keeps_withMessenger (m := { s.node.messenger with answered }) rfl
    exact hclaim.trans ((s.withMessenger _).keeps_write _ _) rfl

omit [FaithfulTransport σ] in
theorem inbound_respond [Transport σ] (s : Site σ) (d : Delivery) (content : Bytes) :
    (s.respond d content).2.node.inbound = s.node.inbound := by
  unfold Site.respond
  cases h : s.node.messenger.claimAnswer d with
  | error => rfl
  | ok messenger => rfl

theorem Move.keeps (h : Dispatch.Move s d d' s') : s.Keeps s' := by
  cases h with
  | opens | ends | ignores | rests => exact .refl s
  | records | places | resumes => exact ⟨rfl, rfl, rfl, rfl, rfl, le_refl _, .inl rfl, fun h => h⟩
  | @stores ticket e =>
    obtain ⟨roster, heq, hid, hself⟩ := storeLoad_eq e.message s
    rw [heq]
    exact s.keeps_withRoster hid hself
  | @starts ticket e rest spec => exact s.keeps_start spec
  | creates _ hmove => exact hmove.keeps
  | answers => exact keeps_respond s _ _

omit [FaithfulTransport σ] in
theorem Move.inbound [Transport σ] (h : Dispatch.Move s d d' s') :
    s'.node.inbound = s.node.inbound := by
  cases h with
  | opens | ends | ignores | rests | records | places | resumes | starts => rfl
  | @stores ticket e =>
    obtain ⟨roster, heq, -⟩ := storeLoad_eq e.message s
    rw [heq]
    rfl
  | creates _ hmove => exact hmove.inbound
  | answers => exact inbound_respond s _ _

end Dispatch

/-! ### Events -/

theorem Roster.self_markConnected {r r' : Roster} {id : String} {connected : Bool}
    (h : r.markConnected id connected = .ok r') : r'.self = r.self := by
  unfold markConnected at h
  split at h
  · cases h
    rfl
  · split at h
    · cases h
      rfl
    · cases h

theorem Roster.self_register {r r' : Roster} {p : Identity} {m : Member}
    (h : r.register p = .ok (m, r')) : r'.self = r.self := by
  unfold register at h
  split at h
  · cases h
  · cases h
    rfl

/-- A peer that connects changes only what a node knows of its peers. -/
theorem Node.connected_eq (n : Node) (peer : Identity) :
    ∃ roster, n.connected peer = { n with roster } ∧ roster.self = n.roster.self := by
  unfold connected
  split
  · exact ⟨n.roster, rfl, rfl⟩
  · extract_lets known
    have hself : known.self = n.roster.self := by
      subst known
      split
      · rfl
      · split
        · next h => exact Roster.self_register h
        · rfl
    split
    · next roster h => exact ⟨roster, rfl, (Roster.self_markConnected h).trans hself⟩
    · exact ⟨known, rfl, hself⟩

/-- Ending the queries that wait for a node changes nothing but the queries and their outcomes. -/
theorem Messenger.exists_failPending (m : Messenger) (target : String) :
    ∃ pending replies, (m.failPending target).2 = { m with pending, replies } := by
  have hfold : ∀ (ids : List Uuid) (m : Messenger), ∃ pending replies,
      ids.foldl (fun m id => (m.dropQuery id).deliver id .gone) m =
        { m with pending, replies } := by
    intro ids
    induction ids with
    | nil => exact fun m => ⟨m.pending, m.replies, rfl⟩
    | cons id rest ih => exact fun m => ih ((m.dropQuery id).deliver id .gone)
  exact hfold _ m

theorem Messenger.listeners_failPending (m : Messenger) (target : String) :
    (m.failPending target).2.listeners = m.listeners := by
  obtain ⟨pending, replies, heq⟩ := m.exists_failPending target
  rw [heq]

/-- A response that is handed over takes the query that waits for it out. -/
theorem Messenger.complete_eq_ok {m m' : Messenger} {r : Message} (h : m.complete r = .ok m') :
    ∃ id, r.correlation = some id ∧ m.pending.contains id = true ∧
      m' = (m.dropQuery id).deliver id (.answer r) := by
  unfold complete at h
  split at h
  · cases h
  · next id hid =>
    split at h
    · next hcontains =>
      cases h
      exact ⟨id, hid, hcontains, rfl⟩
    · cases h

theorem Messenger.listeners_complete {m m' : Messenger} {r : Message}
    (h : m.complete r = .ok m') : m'.listeners = m.listeners := by
  obtain ⟨id, -, -, rfl⟩ := complete_eq_ok h
  rfl

omit [FaithfulTransport σ] in
theorem Site.receive_of_ok {s : Site σ} {m : Message} {messenger : Messenger}
    (hm : m.isResponse = true) (h : s.node.messenger.complete m = .ok messenger) :
    s.receive m = s.withMessenger messenger := by
  rw [receive, if_pos hm, h]

omit [FaithfulTransport σ] in
theorem Site.receive_of_error {s : Site σ} {m : Message} {e : ProtocolError}
    (hm : m.isResponse = true) (h : s.node.messenger.complete m = .error e) : s.receive m = s := by
  rw [receive, if_pos hm, h]

omit [FaithfulTransport σ] in
theorem Site.receive_of_isResponse_eq_false {s : Site σ} {m : Message}
    (hm : m.isResponse = false) :
    s.receive m = { s with node := { s.node with
      messenger := (s.node.messenger.stamp m).2,
      inbound := s.node.inbound.push (s.node.messenger.stamp m).1 } } := by
  simp only [receive, hm, Bool.false_eq_true, if_false]

theorem Site.keeps_handle (s : Site σ) (e : TransportEvent) : s.Keeps (s.handle e) := by
  cases e with
  | connected peer =>
    obtain ⟨roster, heq, hself⟩ := s.node.connected_eq peer
    have h := s.keeps_withRoster (r := roster) (by rw [hself]) (by rw [hself])
    unfold handle
    dsimp only
    rw [heq]
    exact h
  | disconnected id =>
    have hself : (s.node.disconnected id).roster.self = s.node.roster.self := by
      unfold Node.disconnected
      dsimp only
      split
      · next h => exact Roster.self_markConnected h
      · rfl
    exact ⟨congrArg Member.id hself, congrArg Member.available hself, rfl,
      s.node.messenger.listeners_failPending id, rfl, le_refl _, .inl rfl, fun h => h⟩
  | message m =>
    unfold handle receive
    dsimp only
    split
    · split
      · next h => exact s.keeps_withMessenger (Messenger.listeners_complete h)
      · exact .refl s
    · exact ⟨rfl, rfl, rfl, rfl, rfl, le_refl _, .inl rfl, fun h => h.push _⟩

end Fleet
