import Fleet.Proofs.Cluster.Starts

/-!
# What requests and answers carry

A specification and a service read back from their bytes, so nothing is lost when a node writes anew
what it has read.  On the way through the head a request is written twice and so is its answer.  The
node that is chosen in the end reads the specification that the call was given, and the call returns
the service that this node has started.

## Main definitions

* `History.Carried` — what the messages that are sent for calls carry.

## Main statements

* `History.payloads_unchanged` — whatever is written reads back, and in every run the messages carry
  what they should.
-/

namespace Fleet

/-! ### What is noted about a request -/

variable {c c' : Cause} {a a' b b' : String} {id id' : Uuid} {m r : Message} {spec : ServiceSpec}
  {s : Service} {T : List Note}

theorem Creation.Told.started_mem {first cr : Creation} (hT : Creation.Told c a first spec cr T)
    (h : .started c' b s ∈ T) : b = a ∧ Ledger.Serves spec a s.created s := by
  have hout : ∀ {D : List Note}, Sights c a D → .started c' b s ∉ D :=
    fun hD hmem => Bool.false_ne_true (hD.isSight hmem)
  cases hT with
  | routing => cases h
  | placing | choosing => exact absurd h (hout sights_lead)
  | refused hD | unaddressed hD => exact absurd h (hout hD)
  | opening _ hcarries | awaiting _ hcarries | returned _ hcarries =>
    simp [hout hcarries.sights] at h
  | started hD hserves =>
    obtain ⟨rfl, rfl, rfl⟩ : c' = c ∧ b = a ∧ s = _ := by simpa [hout hD] using h
    exact ⟨rfl, hserves⟩

/-- What returns on the node that hands a request on is the answer to what it has handed on. -/
theorem Creation.Told.returned_mem {first cr : Creation} (hT : Creation.Told c a first spec cr T)
    (h : .returned c' b id (some r) ∈ T) :
    b = a ∧ ∃ D target m, .asked c a id target m ∈ T ∧
      Creation.Carries c a first D spec target m := by
  have hout : ∀ {D : List Note}, Sights c a D → .returned c' b id (some r) ∉ D :=
    fun hD hmem => Bool.false_ne_true (hD.isSight hmem)
  cases hT with
  | routing => cases h
  | placing | choosing => exact absurd h (hout sights_lead)
  | refused hD | unaddressed hD => exact absurd h (hout hD)
  | started hD => simp [hout hD] at h
  | opening _ hcarries | awaiting _ hcarries => simp [hout hcarries.sights] at h
  | @returned _ r' id' m target D _ hcarries =>
    obtain ⟨rfl, rfl, rfl, rfl⟩ : c' = c ∧ b = a ∧ id = id' ∧ some r = r' := by
      simpa [hout hcarries.sights] using h
    exact ⟨rfl, D, target, m, by simp, hcarries⟩

namespace Dispatch

theorem Handled.started_mem {response : Option Bytes} (hT : Handled b id m response T)
    (h : .started c b' s ∈ T) :
    ∃ spec, ServiceSpec.ofBytes? m.content = some spec ∧ b' = b ∧
      Ledger.Serves spec b s.created s := by
  cases hT with
  | unserved | elsewhere => simp at h
  | @started spec s' _ hspec hserves =>
    obtain ⟨-, rfl, rfl⟩ : c = .query id ∧ b' = b ∧ s = s' := by simpa using h
    exact ⟨spec, hspec, rfl, hserves⟩
  | placed _ hspec htold | unplaced _ hspec htold =>
    exact ⟨_, hspec, htold.started_mem (by simpa using h)⟩

/-- What a node starts for a query is what it reads in the query. -/
theorem Told.started_mem {d : Dispatch} (hT : Told b id m d T) (h : .started c b' s ∈ T) :
    ∃ spec, ServiceSpec.ofBytes? m.content = some spec ∧ b' = b ∧
      Ledger.Serves spec b s.created s := by
  cases hT with
  | firing _ _ hT | answering _ hT | done hT => exact hT.started_mem h
  | opening | starting | heading => simp at h
  | placing _ _ _ hspec htold => exact ⟨_, hspec, htold.started_mem (by simpa using h)⟩

/-- A node that works on a query has handed on what it reads in the query, for a service to be
started, under an id. -/
def HandedOn (b : String) (id : Uuid) (m : Message) (id' : Uuid) (T : List Note) : Prop :=
  ∃ spec target m', ServiceSpec.ofBytes? m.content = some spec ∧
    .asked (.query id) b id' target m' ∈ T ∧ m'.channel = startChannel ∧
      ServiceSpec.ofBytes? m'.content = some spec

theorem HandedOn.of_told {cr : Creation} {T' : List Note}
    (hspec : ServiceSpec.ofBytes? m.content = some spec)
    (hT : Creation.Told (.query id) b (.placing spec) spec cr T') (hsub : ∀ x ∈ T', x ∈ T)
    (h : .returned c b' id' (some r) ∈ T') : b' = b ∧ HandedOn b id m id' T := by
  obtain ⟨rfl, D, target, m', hasked, hcarries⟩ := hT.returned_mem h
  exact ⟨rfl, spec, target, m', hspec, hsub _ hasked, hcarries.hands.placing.1, hcarries.reads⟩

theorem Handled.returned_mem {response : Option Bytes} (hT : Handled b id m response T)
    (h : .returned c b' id' (some r) ∈ T) : b' = b ∧ HandedOn b id m id' T := by
  cases hT with
  | unserved | elsewhere | started => simp at h
  | placed _ hspec htold | unplaced _ hspec htold =>
    exact HandedOn.of_told hspec htold (by simp +contextual) (by simpa using h)

/-- What returns to a node that works on a query is the answer to what it has handed on. -/
theorem Told.returned_mem {d : Dispatch} (hT : Told b id m d T)
    (h : .returned c b' id' (some r) ∈ T) : b' = b ∧ HandedOn b id m id' T := by
  cases hT with
  | firing _ _ hT | answering _ hT | done hT => exact hT.returned_mem h
  | opening | starting | heading => simp at h
  | placing _ _ _ hspec htold =>
    exact HandedOn.of_told hspec htold (by simp +contextual) (by simpa using h)

end Dispatch

namespace History

variable {σ : Type} {h : History σ} {n : Nat}

/-- What the messages that are sent for calls carry. -/
structure Carried (h : History σ) : Prop where
  /-- A request that is sent for a call reads as the specification that the call was given. -/
  request : ∀ n a spec c b id target m, .called n a spec ∈ h.notes → Caused h.notes n c →
    .asked c b id target m ∈ h.notes → ServiceSpec.ofBytes? m.content = some spec
  /-- A service that is started for a call, on whatever node, is what this specification asks
  for. -/
  start : ∀ n a spec c b s, .called n a spec ∈ h.notes → Caused h.notes n c →
    .started c b s ∈ h.notes → Ledger.Serves spec b s.created s
  /-- An answer to such a request that says anything reads as a service that was started for the
  call. -/
  answer : ∀ n c b id r, Caused h.notes n c → .returned c b id (some r) ∈ h.notes →
    r.content ≠ [] → ∃ c' s, Caused h.notes n c' ∧ .started c' s.node s ∈ h.notes ∧
      Service.ofBytes? r.content = some s
  /-- A service that a call returns is one that was started for it. -/
  result : ∀ n s, .concluded n (.ok s) ∈ h.notes →
    ∃ c, Caused h.notes n c ∧ .started c s.node s ∈ h.notes

variable [FaithfulTransport σ]

/-- What has been noted for a call is told from the specification that it was given. -/
theorem Reachable.told_of_called (hr : Reachable Listeners.Standard h)
    (hdrawn : h.cluster.drawn ≤ 2 ^ 128) (hcalled : .called n a spec ∈ h.notes) :
    ∃ cr T, Creation.Told (.call n) a (.routing spec) spec cr T ∧ (∀ x ∈ T, x ∈ h.notes) ∧
      ∀ x ∈ tale h.notes (.call n), x ∈ T ∨ (∃ r, x = .concluded n r) ∨ x = .called n a spec := by
  have hmem : .called n a spec ∈ tale h.notes (.call n) := mem_tale_iff.2 ⟨hcalled, rfl⟩
  obtain ⟨-, a', cr, hT⟩ := (hr.attributed hdrawn).recorded _ (List.ne_nil_of_mem hmem)
  obtain ⟨spec', T, htold, htale, honly, -⟩ := hT.called
  obtain ⟨rfl, rfl⟩ := honly _ _ hmem
  have hsub : ∀ x ∈ T, x ∈ tale h.notes (.call n) := by
    intro x hx
    simp [htale, hx]
  refine ⟨cr, T, htold, fun x hx => (mem_tale_iff.1 (hsub x hx)).1, fun x hx => ?_⟩
  have hended : ∀ x ∈ cr.ending n, ∃ r, x = .concluded n r := by
    cases cr <;> simp [Creation.ending]
  rw [htale, List.mem_append, List.mem_append, List.mem_singleton] at hx
  rcases hx with (hx | hx) | hx
  · exact .inr (.inl (hended x hx))
  · exact .inl hx
  · exact .inr (.inr hx)

theorem Reachable.request_reads (hr : Reachable Listeners.Standard h)
    (hdrawn : h.cluster.drawn ≤ 2 ^ 128) (hcalled : .called n a spec ∈ h.notes)
    (hc : Caused h.notes n c) (hasked : .asked c b id a' m ∈ h.notes) :
    ServiceSpec.ofBytes? m.content = some spec := by
  induction hc generalizing b id a' m with
  | call =>
    obtain ⟨cr, T, htold, -, htale⟩ := hr.told_of_called hdrawn hcalled
    have hmem : .asked (.call n) b id a' m ∈ T := by
      simpa using htale _ (mem_tale_iff.2 ⟨hasked, rfl⟩)
    obtain ⟨-, D, -, hcarries⟩ := htold.asked hmem
    exact hcarries.reads
  | query _ hfirst ih =>
    obtain ⟨spec', hspec', hreads⟩ := (hr.onward hdrawn hfirst hasked).content
    obtain rfl := Option.some.inj ((ih hfirst).symm.trans hspec')
    exact hreads

theorem Reachable.start_serves (hr : Reachable Listeners.Standard h)
    (hdrawn : h.cluster.drawn ≤ 2 ^ 128) (hcalled : .called n a spec ∈ h.notes)
    (hc : Caused h.notes n c) (hstarted : .started c b s ∈ h.notes) :
    Ledger.Serves spec b s.created s := by
  have hmem : .started c b s ∈ tale h.notes c := mem_tale_iff.2 ⟨hstarted, rfl⟩
  cases hc with
  | call =>
    obtain ⟨cr, T, htold, -, htale⟩ := hr.told_of_called hdrawn hcalled
    obtain ⟨rfl, hserves⟩ := htold.started_mem (by simpa using htale _ hmem)
    exact hserves
  | query hc hasked =>
    obtain ⟨d, htold⟩ := hr.told_of_asked hdrawn hasked (List.ne_nil_of_mem hmem)
    obtain ⟨spec', hspec', rfl, hserves⟩ := htold.started_mem hmem
    have hspec := hr.request_reads hdrawn hcalled hc hasked
    obtain rfl := Option.some.inj (hspec.symm.trans hspec')
    exact hserves

/-- Whatever a call has caused, it was called. -/
theorem Reachable.called_of_caused (hr : Reachable Listeners.Standard h)
    (hdrawn : h.cluster.drawn ≤ 2 ^ 128) {x : Note} (hc : Caused h.notes n c)
    (hx : x ∈ tale h.notes c) : ∃ a spec, .called n a spec ∈ h.notes := by
  induction hc generalizing x with
  | call =>
    obtain ⟨-, a, cr, hT⟩ := (hr.attributed hdrawn).recorded _ (List.ne_nil_of_mem hx)
    obtain ⟨spec, T, -, htale, -⟩ := hT.called
    have hmem : .called n a spec ∈ tale h.notes (.call n) := by simp [htale]
    exact ⟨a, spec, (mem_tale_iff.1 hmem).1⟩
  | query _ hasked ih => exact ih (mem_tale_iff.2 ⟨hasked, rfl⟩)

theorem Reachable.answer_vouched (hr : Reachable Listeners.Standard h)
    (hdrawn : h.cluster.drawn ≤ 2 ^ 128) (hcalled : .called n a spec ∈ h.notes)
    (hc : Caused h.notes n c) (hret : .returned c b id (some r) ∈ h.notes) :
    Vouched h.notes n spec r := by
  have hmem : .returned c b id (some r) ∈ tale h.notes c := mem_tale_iff.2 ⟨hret, rfl⟩
  cases hc with
  | call =>
    obtain ⟨cr, T, htold, hsub, htale⟩ := hr.told_of_called hdrawn hcalled
    obtain ⟨rfl, D, target, m, hasked, hcarries⟩ :=
      htold.returned_mem (by simpa using htale _ hmem)
    rcases hcarries.hands.channel_eq with hplace | hstart
    · exact hr.vouched_place hdrawn .call (hsub _ hasked) hret hcarries.reads hplace
    · exact hr.vouched_start hdrawn .call (hsub _ hasked) hret hcarries.reads hstart
  | query hc hfirst =>
    obtain ⟨d, htold⟩ := hr.told_of_asked hdrawn hfirst (List.ne_nil_of_mem hmem)
    obtain ⟨rfl, spec', target, m, hspec', hasked, hstart, hreads⟩ := htold.returned_mem hmem
    have hspec := hr.request_reads hdrawn hcalled hc hfirst
    obtain rfl := Option.some.inj (hspec.symm.trans hspec')
    exact hr.vouched_start hdrawn (.query hc hfirst) (mem_tale_iff.1 hasked).1 hret hreads hstart

theorem Reachable.carried (hr : Reachable Listeners.Standard h)
    (hdrawn : h.cluster.drawn ≤ 2 ^ 128) : Carried h where
  request _ _ _ _ _ _ _ _ hcalled hc hasked := hr.request_reads hdrawn hcalled hc hasked
  start _ _ _ _ _ _ hcalled hc hstarted := hr.start_serves hdrawn hcalled hc hstarted
  answer n c b id r hc hret hne := by
    obtain ⟨a, spec, hcalled⟩ := hr.called_of_caused hdrawn hc (mem_tale_iff.2 ⟨hret, rfl⟩)
    obtain ⟨s, hcontent, hbegun⟩ := hr.answer_vouched hdrawn hcalled hc hret hne
    obtain ⟨c', hc', hstarted⟩ := hbegun.started
    exact ⟨c', s, hc', hstarted, by rw [hcontent, Service.ofBytes?_bytes hbegun.regular]⟩
  result n s hret := by
    obtain ⟨-, a, spec, -, -, hended⟩ := hr.ended hdrawn hret
    rcases hended with ⟨s', heq, hbegun⟩ | ⟨node, heq⟩ | ⟨⟨e, heq⟩, -⟩
    · cases heq
      exact hbegun.started
    · cases heq
    · cases heq

end History

theorem Instant.regular_of_year {t : Instant} (hpos : 0 ≤ t.date.year)
    (hyear : t.date.year ≤ 9999) (hnano : t.nano.val < 1000000000) : t.Regular := by
  refine ⟨?_, fun h => absurd h (by omega)⟩
  simp only [yearInRange, Bool.and_eq_true, decide_eq_true_eq]
  omega

/-- A specification reads back from its bytes, in whatever order its properties were written, and so
does a service that was created in a year of four digits and not in a leap second.  Hence, in every
run of a cluster, the messages that are sent for calls carry the specifications that the calls were
given and the services that were started. -/
theorem History.payloads_unchanged :
    (∀ (spec : ServiceSpec) (order : Properties.Order),
      ServiceSpec.ofBytes? (spec.bytes order) = some spec) ∧
    (∀ (p : Properties) (entries : List (String × String)), entries.Perm p.entries →
      ∃ order : Properties.Order, order.arrange p.entries = entries) ∧
    (∀ s : Service, 0 ≤ s.created.date.year → s.created.date.year ≤ 9999 →
      s.created.nano.val < 1000000000 → Service.ofBytes? s.bytes = some s) ∧
    ∀ (σ : Type) [FaithfulTransport σ] (h : History σ), Reachable Listeners.Standard h →
      h.cluster.drawn ≤ 2 ^ 128 → Carried h :=
  ⟨ServiceSpec.ofBytes?_bytes, fun _ _ => Properties.Order.exists_arrange_eq,
    fun _ hpos hyear hnano => Service.ofBytes?_bytes (Instant.regular_of_year hpos hyear hnano),
    fun _ _ _ hr hdrawn => hr.carried hdrawn⟩

namespace History

/-- A specification with everything that one can have. -/
def laden : ServiceSpec :=
  { task := "t", name := some "x\"", memory := 16, groups := ["g", ""], port := some 25565,
    properties := .ofList [("é", "\n"), ("", "2")] }

/-- A call with it on the second one of two nodes, which meets its properties with the last key
first, and whose head starts the service. -/
def entrusted : History Network :=
  ((neighbours.rearrange .reversed).call 1 laden).run
    ([.job 0, .job 0, .job 0, .follow 0, .follow 0] ++ .replicate 8 (.drain 0 0) ++
      [.follow 1, .job 0, .job 0])

/-- The query with which the request goes to the head. -/
def entrustedQuery : Message :=
  { channel := placeChannel, sender := "b", targets := [.node "a"]
    content := laden.bytes .reversed, query := true, correlation := some (.fresh 0) }

/-- The service that the call returns. -/
def entrustedService : Service :=
  { id := .fresh 1, name := "x\"", task := "t", node := "a", lifecycle := .prepared, memory := 16,
    groups := ["g", ""], created := .epoch }

theorem entrusted_unchanged :
    Reachable Listeners.Standard entrusted ∧ entrusted.cluster.drawn ≤ 2 ^ 128 ∧
      laden.bytes .reversed ≠ laden.bytes .byKey ∧
      .asked (.call 0) "b" (.fresh 0) "a" entrustedQuery ∈ entrusted.notes ∧
      ServiceSpec.ofBytes? entrustedQuery.content = some laden ∧
      .concluded 0 (.ok entrustedService) ∈ entrusted.notes ∧
      Service.ofBytes? entrustedService.bytes = some entrustedService := by
  have hr : Reachable Listeners.Standard entrusted :=
    ((reachable_neighbours.rearrange _).call _ _).run _
  have hdrawn : entrusted.cluster.drawn ≤ 2 ^ 128 := by decide +kernel
  have hcalled : .called 0 "b" laden ∈ entrusted.notes := by decide +kernel
  have hasked : .asked (.call 0) "b" (.fresh 0) "a" entrustedQuery ∈ entrusted.notes := by
    decide +kernel
  obtain ⟨-, -, hservice, hcarried⟩ := payloads_unchanged
  exact ⟨hr, hdrawn, by decide +kernel, hasked,
    (hcarried Network entrusted hr hdrawn).request _ _ _ _ _ _ _ _ hcalled .call hasked,
    by decide +kernel, hservice _ (by decide) (by decide) (by decide)⟩

end History

end Fleet
