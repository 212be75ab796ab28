import Fleet.Proofs.Cluster.Routing
import Fleet.Proofs.Service.Encoding

/-!
# What a call returns

A call that returns a service returns the one that was started for it, however many nodes the
request and the answer have gone over: each of them reads back what the one before it has written.
A call that returns an error has had nothing started, unless it was left without an answer.
-/

namespace Fleet

/-! ### The ends of calls and of queries -/

theorem Creation.Told.unframed {c : Cause} {a : String} {first cr : Creation} {spec : ServiceSpec}
    {T : List Note} (hT : Creation.Told c a first spec cr T) :
    (∀ n b spec', .called n b spec' ∉ T) ∧ (∀ n r, .concluded n r ∉ T) ∧
      ∀ id content, .set id content ∉ T := by
  refine ⟨fun n b spec' h => ?_, fun n r h => ?_, fun id content h => ?_⟩
  all_goals
    rcases hT.mem_cases h with ⟨_, h⟩ | ⟨_, h⟩ | ⟨_, h⟩ | ⟨_, _, _, h⟩ | ⟨_, _, h⟩ <;> cases h

/-- Who called, and for what. -/
theorem Creation.Called.called {n : Nat} {a : String} {cr : Creation} {T : List Note}
    (hT : cr.Called n a T) :
    ∃ spec T', Creation.Told (.call n) a (.routing spec) spec cr T' ∧
      T = cr.ending n ++ T' ++ [.called n a spec] ∧
        (∀ b spec', .called n b spec' ∈ T → b = a ∧ spec' = spec) ∧
          ∀ r, .concluded n r ∈ T ↔ cr = .done r := by
  obtain ⟨spec, T', htold, rfl⟩ := hT
  obtain ⟨hcalled, hconcluded, -⟩ := htold.unframed
  refine ⟨spec, T', htold, rfl, fun b spec' h => ?_, fun r => ?_⟩
  · have hending : .called n b spec' ∉ cr.ending n := by cases cr <;> simp [ending]
    simpa [hcalled, hending] using h
  · cases cr <;> simp [ending, hconcluded, eq_comm]

namespace Dispatch

variable {b : String} {id : Uuid} {m : Message} {T : List Note}

theorem Handled.set {response : Option Bytes} {id' : Uuid} {content : Bytes}
    (hT : Handled b id m response T) (h : .set id' content ∈ T) : response = some content := by
  cases hT with
  | unserved => simp at h
  | @elsewhere content' =>
    have heq : id' = id ∧ content = content' := by simpa using h
    rw [heq.2]
  | @started spec s =>
    have heq : id' = id ∧ content = s.bytes := by simpa using h
    rw [heq.2]
  | @placed spec s T _ _ htold =>
    have heq : id' = id ∧ content = s.bytes := by simpa [htold.unframed.2.2] using h
    rw [heq.2]
  | unplaced _ _ htold => simp [htold.unframed.2.2] at h

/-- When a listener has set an answer, all is done for the query. -/
theorem Told.set {d : Dispatch} {id' : Uuid} {content : Bytes} (hT : Told b id m d T)
    (h : .set id' content ∈ T) : Handled b id m (some content) T := by
  cases hT with
  | opening | starting | heading => simp at h
  | placing _ _ _ _ htold => simp [htold.unframed.2.2] at h
  | firing _ _ hhandled | answering _ hhandled | done hhandled =>
    rw [← hhandled.set h]
    exact hhandled

end Dispatch

/-! ### Services that are started for a call -/

/-- A service was started for something that a call has caused, and it is what was asked for. -/
structure Begun (notes : List Note) (n : Nat) (spec : ServiceSpec) (s : Service) : Prop where
  started : ∃ c, Caused notes n c ∧ .started c s.node s ∈ notes
  serves : Ledger.Serves spec s.node s.created s
  regular : s.created.Regular

/-- A response that says anything says which service was started for the call. -/
def Vouched (notes : List Note) (n : Nat) (spec : ServiceSpec) (r : Message) : Prop :=
  r.content ≠ [] → ∃ s, r.content = s.bytes ∧ Begun notes n spec s

variable {notes : List Note} {n : Nat} {spec : ServiceSpec} {c : Cause}

theorem Begun.of_started {a : String} {s : Service} (hc : Caused notes n c)
    (hstarted : .started c a s ∈ notes) (hserves : Ledger.Serves spec a s.created s)
    (hregular : s.created.Regular) : Begun notes n spec s := by
  obtain rfl := hserves.node
  exact ⟨⟨c, hc, hstarted⟩, hserves, hregular⟩

/-- What the end of a query means if its response can be trusted. -/
theorem Creation.conclude_of_vouched {r : Option Message} (target : String)
    (hr : ∀ r', r = some r' → Vouched notes n spec r') :
    (∃ s, conclude target (.ok r) = .ok s ∧ Begun notes n spec s) ∨
      conclude target (.ok r) = .error (.noResponse target) := by
  cases r with
  | none => exact .inr rfl
  | some r =>
    by_cases hnone : r.content = []
    · exact .inr (by simp [conclude, hnone])
    · obtain ⟨s, hs, hbegun⟩ := hr r rfl hnone
      refine .inl ⟨s, ?_, hbegun⟩
      have hempty : r.content.isEmpty = false := by simpa using hnone
      have hread : Service.ofBytes? r.content = some s := by
        rw [hs, Service.ofBytes?_bytes hbegun.regular]
      simp [conclude, hempty, hread]

/-- What the end of a creation means if the responses to its queries can be trusted. -/
theorem Creation.Told.ended {a : String} {first : Creation} {T : List Note}
    {result : Except CreateError Service} (hT : Told c a first spec (.done result) T)
    (hmem : ∀ x ∈ T, x ∈ notes) (hc : Caused notes n c)
    (hquery : ∀ id target m D r, Carries c a first D spec target m →
      .asked c a id target m ∈ notes → .returned c a id (some r) ∈ notes →
        Vouched notes n spec r) :
    (∃ s, result = .ok s ∧ Begun notes n spec s) ∨ (∃ node, result = .error (.noResponse node)) ∨
      (∃ e, result = .error e) ∧ deeds T = 0 := by
  generalize hcr : Creation.done result = cr at hT
  cases hT with
  | refused hD =>
    cases hcr
    exact .inr (.inr ⟨⟨_, rfl⟩, hD.deeds⟩)
  | started _ hserves hnow =>
    cases hcr
    exact .inl ⟨_, rfl, .of_started hc (hmem _ List.mem_cons_self) hserves hnow⟩
  | unaddressed hD hends =>
    rcases hends with ⟨node, channel, found, rfl⟩ | ⟨node, rfl⟩
    · cases hcr
    · cases hcr
      exact .inr (.inr ⟨⟨_, rfl⟩, hD.deeds⟩)
  | @returned _ r id m target D hends hcarries =>
    rcases hends with rfl | rfl
    · cases hcr
    · cases hcr
      have hvouched : ∀ r', r = some r' → Vouched notes n spec r' := by
        rintro r' rfl
        exact hquery id target m D r' hcarries (hmem _ (by simp)) (hmem _ (by simp))
      rcases conclude_of_vouched target hvouched with hok | hnone
      · exact .inl hok
      · exact .inr (.inl ⟨target, hnone⟩)
  | routing | placing | choosing | opening | awaiting => cases hcr

namespace History

variable {σ : Type} [FaithfulTransport σ] {h : History σ}

/-- A response that says anything is what a listener has set for the query. -/
theorem Reachable.handled (hr : Reachable Listeners.Standard h)
    (hdrawn : h.cluster.drawn ≤ 2 ^ 128) {c c' : Cause} {a a' b : String} {id : Uuid}
    {m r : Message} (hasked : .asked c a id b m ∈ h.notes)
    (hret : .returned c' a' id (some r) ∈ h.notes) (hne : r.content ≠ []) :
    Dispatch.Handled b id m (some r.content) (tale h.notes (.query id)) := by
  obtain ⟨-, b', m', response, -, hstory, rfl⟩ := (hr.correlated hdrawn).returned _ _ _ _ hret
  cases response with
  | none => exact absurd rfl hne
  | some content =>
    have hset : .set id content ∈ h.notes := by
      have hmem : .set id content ∈ story h.notes id := by simp [hstory, takenStory]
      exact (List.mem_filter.1 hmem).1
    have hmem : .set id content ∈ tale h.notes (.query id) := mem_tale_iff.2 ⟨hset, rfl⟩
    obtain ⟨d, htold⟩ := hr.told_of_asked hdrawn hasked (List.ne_nil_of_mem hmem)
    exact htold.set hmem

/-- The response of a node that was asked to start a service itself. -/
theorem Reachable.vouched_start (hr : Reachable Listeners.Standard h)
    (hdrawn : h.cluster.drawn ≤ 2 ^ 128) {a b : String} {id : Uuid} {m r : Message}
    (hc : Caused h.notes n c) (hasked : .asked c a id b m ∈ h.notes)
    (hret : .returned c a id (some r) ∈ h.notes)
    (hreads : ServiceSpec.ofBytes? m.content = some spec)
    (hchannel : m.channel = startChannel) : Vouched h.notes n spec r := by
  intro hne
  have hhandled := hr.handled hdrawn hasked hret hne
  have hmem : ∀ x ∈ tale h.notes (.query id), x ∈ h.notes := fun x hx => (mem_tale_iff.1 hx).1
  generalize hresponse : some r.content = response at hhandled
  generalize tale h.notes (.query id) = T at hhandled hmem
  cases hhandled with
  | elsewhere hstart => exact absurd hchannel hstart
  | @started spec' s _ hspec hserves hnow =>
    obtain rfl : spec = spec' := Option.some.inj (hreads.symm.trans hspec)
    exact ⟨s, Option.some.inj hresponse,
      .of_started (.query hc hasked) (hmem _ (by simp)) hserves hnow⟩
  | placed hplace =>
    rw [hchannel] at hplace
    exact absurd hplace (by decide)
  | unserved | unplaced => cases hresponse

/-- The response of a node that was asked as the head. -/
theorem Reachable.vouched_place (hr : Reachable Listeners.Standard h)
    (hdrawn : h.cluster.drawn ≤ 2 ^ 128) {a b : String} {id : Uuid} {m r : Message}
    (hc : Caused h.notes n c) (hasked : .asked c a id b m ∈ h.notes)
    (hret : .returned c a id (some r) ∈ h.notes)
    (hreads : ServiceSpec.ofBytes? m.content = some spec)
    (hchannel : m.channel = placeChannel) : Vouched h.notes n spec r := by
  intro hne
  have hhandled := hr.handled hdrawn hasked hret hne
  have hmem : ∀ x ∈ tale h.notes (.query id), x ∈ h.notes := fun x hx => (mem_tale_iff.1 hx).1
  generalize hresponse : some r.content = response at hhandled
  generalize tale h.notes (.query id) = T at hhandled hmem
  cases hhandled with
  | elsewhere _ hplace => exact absurd hchannel hplace
  | started hstart =>
    rw [hchannel] at hstart
    exact absurd hstart (by decide)
  | @placed spec' s T' _ hspec htold =>
    obtain rfl : spec = spec' := Option.some.inj (hreads.symm.trans hspec)
    have hmem' : ∀ x ∈ T', x ∈ h.notes := fun x hx => hmem x (by simp [hx])
    have hended := htold.ended hmem' (.query hc hasked)
      fun id' target m' D r' hcarries hasked' hret' =>
        hr.vouched_start hdrawn (.query hc hasked) hasked' hret' hcarries.reads
          hcarries.hands.placing.1
    rcases hended with ⟨s', heq, hbegun⟩ | ⟨node, heq⟩ | ⟨⟨e, heq⟩, -⟩
    · cases heq
      exact ⟨s, Option.some.inj hresponse, hbegun⟩
    · cases heq
    · cases heq
  | unserved | unplaced => cases hresponse

/-- What calls that create services come to. -/
structure Creations (h : History σ) : Prop where
  /-- At most one service is started for a call, wherever. -/
  once : ∀ n (l : List Note), l.Sublist h.notes →
    (∀ x ∈ l, ∃ c b s, x = Note.started c b s ∧ Caused h.notes n c) → l.length ≤ 1
  /-- What a call returns is what its job has come to. -/
  result : ∀ n a r, h.cluster.activity? (.job n) = some (a, .creation (.done r)) →
    .concluded n r ∈ h.notes
  /-- Whatever returns was called once, and returns once. -/
  own : ∀ n r, .concluded n r ∈ h.notes → (∀ r', .concluded n r' ∈ h.notes → r' = r) ∧
    ∃ a spec, .called n a spec ∈ h.notes ∧
      ∀ a' spec', .called n a' spec' ∈ h.notes → a' = a ∧ spec' = spec
  /-- A service that a call returns is the one that was started for it, on the node that the service
  names, and it is what was asked for. -/
  ok : ∀ n s, .concluded n (.ok s) ∈ h.notes →
    (∃ c, Caused h.notes n c ∧ .started c s.node s ∈ h.notes) ∧
    (∀ c b s', Caused h.notes n c → .started c b s' ∈ h.notes → b = s.node ∧ s' = s) ∧
    ∀ a spec, .called n a spec ∈ h.notes → s.task = spec.task ∧ s.memory = spec.memory ∧
      s.groups = spec.groups ∧ ∀ name, spec.name = some name → s.name = name
  /-- For a call that returns an error nothing was started anywhere, unless it got no answer. -/
  error : ∀ n e, .concluded n (.error e) ∈ h.notes → (∀ node, e ≠ .noResponse node) →
    ∀ c b s, Caused h.notes n c → .started c b s ∉ h.notes

theorem Reachable.started_once (hr : Reachable Listeners.Standard h)
    (hdrawn : h.cluster.drawn ≤ 2 ^ 128) (n : Nat) (l : List Note) (hl : l.Sublist h.notes)
    (hstarts : ∀ x ∈ l, ∃ c b s, x = Note.started c b s ∧ Caused h.notes n c) :
    l.length ≤ 1 := by
  obtain ⟨cs, hcs, -, hsum⟩ := hr.exists_lineage hdrawn n
  refine (length_le_sum_of_sublist Note.isStart hl (fun x hx => ?_) cs fun x hx => ?_).trans hsum
  · obtain ⟨c, b, s, rfl, -⟩ := hstarts x hx
    rfl
  · obtain ⟨c, b, s, rfl, hc⟩ := hstarts x hx
    exact hcs c hc

/-- All that was started for a call is one service. -/
theorem Reachable.started_unique (hr : Reachable Listeners.Standard h)
    (hdrawn : h.cluster.drawn ≤ 2 ^ 128) {n : Nat} {c c' : Cause} {b b' : String} {s s' : Service}
    (hc : Caused h.notes n c) (hs : .started c b s ∈ h.notes) (hc' : Caused h.notes n c')
    (hs' : .started c' b' s' ∈ h.notes) : b' = b ∧ s' = s := by
  classical
  have hle := hr.started_once hdrawn n
    (h.notes.filter fun x => ∃ c b s, x = .started c b s ∧ Caused h.notes n c)
    List.filter_sublist fun x hx => by simpa using (List.mem_filter.1 hx).2
  have heq := eq_of_length_filter_le_one hle hs' hs (by simp [hc']) (by simp [hc])
  cases heq
  exact ⟨rfl, rfl⟩

/-- What a call that has returned has come to. -/
theorem Reachable.ended (hr : Reachable Listeners.Standard h)
    (hdrawn : h.cluster.drawn ≤ 2 ^ 128) {r : Except CreateError Service}
    (hret : .concluded n r ∈ h.notes) :
    (∀ r', .concluded n r' ∈ h.notes → r' = r) ∧
    ∃ a spec, .called n a spec ∈ h.notes ∧
      (∀ a' spec', .called n a' spec' ∈ h.notes → a' = a ∧ spec' = spec) ∧
      ((∃ s, r = .ok s ∧ Begun h.notes n spec s) ∨ (∃ node, r = .error (.noResponse node)) ∨
        (∃ e, r = .error e) ∧ ∀ c b s, Caused h.notes n c → .started c b s ∉ h.notes) := by
  have hnote : ∀ x : Note, x.cause = .call n → (x ∈ tale h.notes (.call n) ↔ x ∈ h.notes) :=
    fun x hx => by simp [mem_tale_iff, hx]
  have hmem := (hnote (.concluded n r) rfl).2 hret
  obtain ⟨-, a, cr, hT⟩ := (hr.attributed hdrawn).recorded _ (List.ne_nil_of_mem hmem)
  obtain ⟨spec, T', htold, htale, honly, hdone⟩ := hT.called
  obtain rfl := (hdone r).1 hmem
  have hsub : ∀ x ∈ T', x ∈ h.notes := by
    intro x hx
    have htold : x ∈ tale h.notes (.call n) := by simp [htale, hx]
    exact (mem_tale_iff.1 htold).1
  refine ⟨fun r' hret' => ?_, a, spec, (hnote _ rfl).1 (by simp [htale]),
    fun a' spec' h' => honly a' spec' ((hnote _ rfl).2 h'), ?_⟩
  · have heq := (hdone r').1 ((hnote (.concluded n r') rfl).2 hret')
    cases heq
    rfl
  · have hended := htold.ended hsub .call
      fun id target m D r' hcarries hasked hret' => by
        rcases hcarries.hands.channel_eq with hplace | hstart
        · exact hr.vouched_place hdrawn .call hasked hret' hcarries.reads hplace
        · exact hr.vouched_start hdrawn .call hasked hret' hcarries.reads hstart
    refine hended.imp_right (.imp_right fun ⟨herror, hdeeds⟩ => ⟨herror, fun c b s hc hs => ?_⟩)
    have hzero : deeds (tale h.notes (.call n)) = 0 := by
      rw [htale, deeds_append, deeds_append, hdeeds]
      rfl
    have hasks : asksOf h.notes (.call n) = [] :=
      List.length_eq_zero_iff.1 (Nat.eq_zero_of_add_eq_zero_right hzero)
    obtain rfl := Caused.eq_call hasks hc
    have hstarts : startsOf h.notes (.call n) = [] :=
      List.length_eq_zero_iff.1 (Nat.eq_zero_of_add_eq_zero_left hzero)
    have hstart := mem_startsOf_iff.2 ⟨b, s, rfl, hs⟩
    rw [hstarts] at hstart
    cases hstart

theorem services_created (hr : Reachable Listeners.Standard h)
    (hdrawn : h.cluster.drawn ≤ 2 ^ 128) : Creations h := by
  refine ⟨hr.started_once hdrawn, fun n a r hwork => ?_, fun n r hret => ?_,
    fun n s hret => ?_, fun n e hret hanswered => ?_⟩
  · have hT : Creation.Called n a (.done r) (tale h.notes (.call n)) :=
      (hr.attributed hdrawn).active _ _ _ hwork
    obtain ⟨-, -, -, -, -, hdone⟩ := hT.called
    exact (mem_tale_iff.1 ((hdone r).2 rfl)).1
  · obtain ⟨hunique, a, spec, hcalled, honly, -⟩ := hr.ended hdrawn hret
    exact ⟨hunique, a, spec, hcalled, honly⟩
  · obtain ⟨-, a, spec, -, honly, hended⟩ := hr.ended hdrawn hret
    rcases hended with ⟨s', heq, hbegun⟩ | ⟨node, heq⟩ | ⟨⟨e, heq⟩, -⟩
    · cases heq
      obtain ⟨c, hc, hs⟩ := hbegun.started
      refine ⟨⟨c, hc, hs⟩, fun c' b' s' => hr.started_unique hdrawn hc hs,
        fun a' spec' hcalled => ?_⟩
      obtain ⟨rfl, rfl⟩ := honly a' spec' hcalled
      have hserves := hbegun.serves
      exact ⟨hserves.task, hserves.memory, hserves.groups, hserves.name⟩
    · cases heq
    · cases heq
  · obtain ⟨-, a, spec, -, -, hended⟩ := hr.ended hdrawn hret
    rcases hended with ⟨s', heq, -⟩ | ⟨node, heq⟩ | ⟨-, hnone⟩
    · cases heq
    · cases heq
      exact absurd rfl (hanswered node)
    · exact hnone

/-- A call on the second one of two nodes, whose head starts the service. -/
def granted : History Network :=
  (neighbours.call 1 { task := "t", name := some "x", memory := 16 }).run
    ([.job 0, .job 0, .job 0, .follow 0, .follow 0] ++ .replicate 8 (.drain 0 0) ++
      [.follow 1, .job 0, .job 0])

/-- The service that the call returns. -/
def grantedService : Service :=
  { id := .fresh 1, name := "x", task := "t", node := "a", lifecycle := .prepared, memory := 16,
    groups := [], created := .epoch }

theorem creations_granted :
    Reachable Listeners.Standard granted ∧ granted.cluster.drawn ≤ 2 ^ 128 ∧
      .called 0 "b" { task := "t", name := some "x", memory := 16 } ∈ granted.notes ∧
        .concluded 0 (.ok grantedService) ∈ granted.notes ∧ Creations granted := by
  have hr : Reachable Listeners.Standard granted := (reachable_neighbours.call _ _).run _
  have hdrawn : granted.cluster.drawn ≤ 2 ^ 128 := by decide +kernel
  exact ⟨hr, hdrawn, by decide +kernel, by decide +kernel, services_created hr hdrawn⟩

end History

end Fleet
