import Fleet.Proofs.Cluster.Tales
import Fleet.Proofs.Member.Head
import Fleet.Proofs.Service.Encoding

/-!
# What becomes of a request

A node that decides on a request refuses it, starts the service itself or asks one other node. Then
it is through with the request but for the answer. What has been noted about the request says which
of these it was, and how far the node has come. A node that reads that it is the head itself goes on
as the head, whatever becomes of its view until it has chosen.
-/

namespace Fleet

/-! ### Whom a query goes to -/

theorem mem_appendNew {known texts : List String} {s : String} (h : s ∈ appendNew known texts) :
    s ∈ known ∨ s ∈ texts := by
  rw [appendNew] at h
  induction texts generalizing known with
  | nil => exact .inl h
  | cons t rest ih =>
    rw [List.foldl_cons] at h
    rcases ih h with h | h
    · split at h
      · exact .inl h
      · rcases List.mem_append.1 h with h | h
        · exact .inl h
        · exact .inr (List.mem_singleton.1 h ▸ List.mem_cons_self)
    · exact .inr (List.mem_cons_of_mem _ h)

/-- A query for one node goes to that node or to nobody. -/
theorem resolve_node {connections : List String} {id target : String}
    (h : resolve connections [.node id] = [target]) : target = id := by
  have hmem : target ∈ appendNew [] ((Target.node id).matching connections) := by
    change resolve connections [.node id] = [target] at h
    rw [resolve, List.foldl_cons, List.foldl_nil] at h
    rw [h]
    exact List.mem_singleton_self target
  rcases mem_appendNew hmem with hnil | hmatching
  · cases hnil
  · have hid : target ∈ connections ∧ target = id := by
      simpa [Target.matching, Target.node] using hmatching
    exact hid.2

/-! ### Requests -/

/-- A node that starts a service enters it as what was asked for, or enters nothing. -/
theorem Node.Sound.start {P : Listeners Handler → Prop} {drawn : Nat} {n : Node} {now : Instant}
    (hn : n.Sound P drawn) (hnow : now.Regular) (hdrawn : drawn < 2 ^ 128) (spec : ServiceSpec) :
    (∃ x, (n.ledger.start spec (.fresh drawn) now).1 = .ok x ∧
      n.ledger.additions (n.ledger.start spec (.fresh drawn) now).2 = [x] ∧
        Ledger.Serves spec n.id x.created x ∧ x.created.Regular) ∨
    ∃ e, (n.ledger.start spec (.fresh drawn) now).1 = .error e ∧
      n.ledger.additions (n.ledger.start spec (.fresh drawn) now).2 = [] := by
  obtain ⟨-, hresult⟩ := n.ledger.start_spec spec (.fresh drawn) now
  split at hresult
  · next x hx =>
    obtain ⟨hservices, hid, hserves⟩ := hresult
    have hnew : n.ledger.services.get? x.id = none := by
      cases hget : n.ledger.services.get? x.id with
      | none => rfl
      | some y =>
        obtain ⟨k, hk, heq⟩ := hn.services _ _ hget
        exact absurd (hid.symm.trans heq) (Coherent.fresh_not_drawn hdrawn hk)
    have hcreated := hserves.created
    refine .inl ⟨x, hx, Ledger.additions_insert hnew (hid.symm ▸ hservices), ?_, hcreated ▸ hnow⟩
    rw [hcreated, ← hn.host]
    exact hserves
  · next e he => exact .inr ⟨e, he, Ledger.additions_of_services_eq hresult⟩

namespace Creation

/-- What a node has noted when it begins to place a request as the head: that it has read that it is
the head, if the request is its own. -/
def lead (c : Cause) (a : String) : Creation → List Note
  | .routing _ => [.read c a a]
  | _ => []

/-- All that a node has noted is what it has seen of the others. -/
def Sights (c : Cause) (a : String) (D : List Note) : Prop :=
  ∀ x ∈ D, (∃ head, x = .read c a head) ∨ ∃ chosen, x = .chose c a chosen

/-- A node hands a request on, given what it has seen: a request of its own to the head if that is
another node, and as the head a request to the node that it has chosen if that is another one. -/
inductive Hands (c : Cause) (a : String) (first : Creation) : List Note → String → String → Prop
  | forward {spec : ServiceSpec} {head : String} (hfirst : first = .routing spec) (hne : head ≠ a)
      (hlt : head < a) : Hands c a first [.read c a head] placeChannel head
  | place {target : String} (hne : target ≠ a) :
      Hands c a first (.chose c a (some target) :: first.lead c a) startChannel target

/-- A message is the query that hands a request on. -/
structure Carries (c : Cause) (a : String) (first : Creation) (D : List Note) (spec : ServiceSpec)
    (target : String) (m : Message) : Prop where
  hands : Hands c a first D m.channel target
  content : ∃ o, m.content = spec.bytes o

/-- What has been noted since a node began to deal with a request, by where it is now. -/
inductive Told (c : Cause) (a : String) (first : Creation) (spec : ServiceSpec) :
    Creation → List Note → Prop
  | routing (hfirst : first = .routing spec) : Told c a first spec (.routing spec) []
  | placing : Told c a first spec (.placing spec) (first.lead c a)
  | choosing : Told c a first spec (.choosing spec) (first.lead c a)
  | refused {e : LedgerError} {D : List Note} (hD : Sights c a D) :
      Told c a first spec (.done (.error (.refused e))) D
  | started {s : Service} {D : List Note} (hD : Sights c a D)
      (hserves : Ledger.Serves spec a s.created s) (hnow : s.created.Regular) :
      Told c a first spec (.done (.ok s)) (.started c a s :: D)
  | opening {m : Message} {timeout : Nat} {target : String} {D : List Note}
      (htargets : m.targets = [.node target]) (hcarries : Carries c a first D spec target m) :
      Told c a first spec (.asking target (.opening m timeout)) D
  | unaddressed {cr : Creation} {D : List Note} (hD : Sights c a D)
      (hcr : (∃ node channel found,
          cr = .asking node (.done (.error (.invalidTarget channel found)))) ∨
        ∃ node, cr = .done (.error (.invalidTarget node))) : Told c a first spec cr D
  | awaiting {q : Query} {id : Uuid} {m : Message} {target : String} {D : List Note}
      (hq : q.id? = some id) (hcarries : Carries c a first D spec target m) :
      Told c a first spec (.asking target q) (.asked c a id target m :: D)
  | returned {cr : Creation} {r : Option Message} {id : Uuid} {m : Message} {target : String}
      {D : List Note}
      (hcr : cr = .asking target (.done (.ok r)) ∨ cr = .done (conclude target (.ok r)))
      (hcarries : Carries c a first D spec target m) :
      Told c a first spec cr (.returned c a id r :: .asked c a id target m :: D)

section Noted

variable {c : Cause} {a target channel : String} {first cr : Creation} {spec : ServiceSpec}
  {D T : List Note} {m : Message}

theorem sights_lead : Sights c a (first.lead c a) := by
  intro x hx
  cases first with
  | routing => exact .inl ⟨a, List.mem_singleton.1 hx⟩
  | placing | choosing | asking | done => cases hx

theorem Sights.chose (h : Sights c a D) (chosen : Option String) :
    Sights c a (.chose c a chosen :: D) := by
  intro x hx
  rcases List.mem_cons.1 hx with rfl | hx
  · exact .inr ⟨chosen, rfl⟩
  · exact h x hx

theorem Hands.sights (h : Hands c a first D channel target) : Sights c a D := by
  cases h with
  | forward => exact fun x hx => .inl ⟨_, List.mem_singleton.1 hx⟩
  | place => exact sights_lead.chose _

theorem Carries.sights (h : Carries c a first D spec target m) : Sights c a D := h.hands.sights

/-- Whoever gets the query reads the specification in it. -/
theorem Carries.reads (h : Carries c a first D spec target m) :
    ServiceSpec.ofBytes? m.content = some spec := by
  obtain ⟨o, hcontent⟩ := h.content
  rw [hcontent, ServiceSpec.ofBytes?_bytes]

/-- Nothing has been noted before the head is read. -/
theorem Told.of_routing {spec' : ServiceSpec} (hT : Told c a first spec (.routing spec') T) :
    spec' = spec ∧ first = .routing spec ∧ T = [] := by
  cases hT with
  | routing hfirst => exact ⟨rfl, hfirst, rfl⟩
  | unaddressed _ hends => rcases hends with ⟨node, channel, found, h⟩ | ⟨node, h⟩ <;> cases h
  | returned hends => rcases hends with h | h <;> cases h

theorem Told.of_placing {spec' : ServiceSpec} (hT : Told c a first spec (.placing spec') T) :
    spec' = spec ∧ T = first.lead c a := by
  cases hT with
  | placing => exact ⟨rfl, rfl⟩
  | unaddressed _ hends => rcases hends with ⟨node, channel, found, h⟩ | ⟨node, h⟩ <;> cases h
  | returned hends => rcases hends with h | h <;> cases h

theorem Told.of_choosing {spec' : ServiceSpec} (hT : Told c a first spec (.choosing spec') T) :
    spec' = spec ∧ T = first.lead c a := by
  cases hT with
  | choosing => exact ⟨rfl, rfl⟩
  | unaddressed _ hends => rcases hends with ⟨node, channel, found, h⟩ | ⟨node, h⟩ <;> cases h
  | returned hends => rcases hends with h | h <;> cases h

/-- What may be noted about a request. -/
theorem Told.mem_cases {x : Note} (hT : Told c a first spec cr T) (hx : x ∈ T) :
    (∃ head, x = .read c a head) ∨ (∃ chosen, x = .chose c a chosen) ∨
      (∃ s, x = .started c a s) ∨ (∃ id b m, x = .asked c a id b m) ∨
        ∃ id r, x = .returned c a id r := by
  have hsight : ∀ {D : List Note}, Sights c a D → x ∈ D →
      (∃ head, x = .read c a head) ∨ (∃ chosen, x = .chose c a chosen) ∨
        (∃ s, x = .started c a s) ∨ (∃ id b m, x = .asked c a id b m) ∨
          ∃ id r, x = .returned c a id r :=
    fun hD hx => (hD x hx).imp_right .inl
  cases hT with
  | routing => cases hx
  | placing | choosing => exact hsight sights_lead hx
  | refused hD | unaddressed hD => exact hsight hD hx
  | opening _ hcarries => exact hsight hcarries.sights hx
  | started hD =>
    rcases List.mem_cons.1 hx with rfl | hx
    · simp
    · exact hsight hD hx
  | awaiting _ hcarries =>
    rcases List.mem_cons.1 hx with rfl | hx
    · simp
    · exact hsight hcarries.sights hx
  | returned _ hcarries =>
    rcases List.mem_cons.1 hx with rfl | hx
    · simp
    · rcases List.mem_cons.1 hx with rfl | hx
      · simp
      · exact hsight hcarries.sights hx

end Noted

variable {σ : Type} [FaithfulTransport σ] {c : Cause} {first cr cr' : Creation}
  {spec : ServiceSpec} {T : List Note}

/-- The notes of a step before the request is handed on. -/
theorem news_of_undecided {n n' : Node} (h : cr.undecided? = some spec) :
    cr.news c n n' cr' =
      (n.ledger.additions n'.ledger).map (.started c n.id) ++ cr.sight c n := by
  have hprogress : cr.progress c n.id cr' = [] := by simp [progress, undecided?_query? h]
  simp [news, hprogress]

/-- The notes of a step before the request is handed on, if nothing is started. -/
theorem news_of_idle {n n' : Node} (h : cr.undecided? = some spec)
    (hledger : n'.ledger = n.ledger) : cr.news c n n' cr' = cr.sight c n := by
  rw [news_of_undecided h, hledger, Ledger.additions_of_services_eq rfl]
  rfl

/-- The notes of a step after the request was handed on. -/
theorem news_of_decided {n n' : Node} (h : cr.undecided? = none)
    (hservices : n'.ledger.services = n.ledger.services) :
    cr.news c n n' cr' = cr.progress c n.id cr' := by
  simp [news, sight_of_decided h, Ledger.additions_of_services_eq hservices]

omit [FaithfulTransport σ] in
/-- A specification that is refused leaves no note. -/
theorem told_refuses {s : Site σ} {spec' : ServiceSpec} {fault : SpecFault}
    (hcr : cr = .routing spec' ∨ cr = .placing spec') (hfault : spec'.fault? = some fault)
    (hT : Told c s.node.id first spec cr T) :
    Told c s.node.id first spec (.done (.error (.refused (.invalid fault))))
      (cr.news c s.node s.node (.done (.error (.refused (.invalid fault)))) ++ T) := by
  rcases hcr with rfl | rfl
  · obtain ⟨-, -, rfl⟩ := hT.of_routing
    rw [news_of_idle rfl rfl, sight, hfault, if_neg (by simp)]
    exact .refused fun x hx => by cases hx
  · obtain ⟨-, rfl⟩ := hT.of_placing
    rw [news_of_idle rfl rfl]
    exact .refused sights_lead

omit [FaithfulTransport σ] in
/-- A service that is started on a node is noted as what was asked for. -/
theorem told_startHere {P : Listeners Handler → Prop} {s : Site σ} {spec' : ServiceSpec}
    (hT : Told c s.node.id first spec (.choosing spec') T) (hn : s.node.Sound P s.drawn)
    (hnow : s.now.Regular) (hdrawn : s.drawn < 2 ^ 128) :
    Told c s.node.id first spec (startHere spec' s).1
      ((Creation.choosing spec').news c s.node (startHere spec' s).2.node (startHere spec' s).1 ++
        T) := by
  obtain ⟨rfl, rfl⟩ := hT.of_choosing
  rw [news_of_undecided rfl]
  simp only [startHere, Site.start_eq]
  rcases hn.start hnow hdrawn spec' with ⟨x, hx, hadds, hserves, hcreated⟩ | ⟨e, he, hadds⟩
  · rw [hadds, hx]
    exact .started (sights_lead.chose _) hserves hcreated
  · rw [hadds, he]
    exact .refused (sights_lead.chose _)

omit [FaithfulTransport σ] in
theorem told_ask {s : Site σ} {channel target : String} {D : List Note}
    (hhands : Hands c s.node.id first D channel target) :
    Told c s.node.id first spec (ask channel target spec s) D := by
  rw [ask]
  split
  · next m hm =>
    obtain rfl := Message.new?_eq hm
    exact .opening rfl ⟨hhands, s.node.order, rfl⟩
  · exact .unaddressed hhands.sights (.inr ⟨target, rfl⟩)

omit [FaithfulTransport σ] in
/-- A request that is handed on goes where the node has seen that it should go. -/
theorem told_sends {s : Site σ} {spec' : ServiceSpec} {channel target : String}
    (haim : Aim s.node spec' cr channel target) (hself : s.node.roster.self.available = true)
    (hT : Told c s.node.id first spec cr T) :
    Told c s.node.id first spec (ask channel target spec' s)
      (cr.news c s.node s.node (ask channel target spec' s) ++ T) := by
  cases haim with
  | forward hfault hne =>
    obtain ⟨rfl, hfirst, rfl⟩ := hT.of_routing
    rw [news_of_idle rfl rfl, sight, if_pos hfault]
    exact told_ask (.forward hfirst hne (Roster.head_lt hself hne))
  | remote hselect hne =>
    obtain ⟨rfl, rfl⟩ := hT.of_choosing
    rw [news_of_idle rfl rfl, sight, hselect]
    exact told_ask (.place hne)

/-- A query that is about to be entered is entered for the node that it is for, or for none. -/
theorem told_enters {s s' : Site σ} {q' : Query} {m : Message} {timeout : Nat} {target : String}
    {D : List Note} (hquery : Query.Move s (.opening m timeout) q' s')
    (htargets : m.targets = [.node target])
    (hcarries : Carries c s.node.id first D spec target m) :
    Told c s.node.id first spec (.asking target q')
      ((Query.opening m timeout).notes c s.node.id q' ++ D) := by
  cases hquery with
  | enters hfound =>
    rw [htargets] at hfound
    obtain rfl := resolve_node hfound
    exact .awaiting rfl ⟨hcarries.hands, hcarries.content⟩
  | unaddressed => exact .unaddressed hcarries.sights (.inl ⟨_, _, _, rfl⟩)
  | picks hwaits => rcases hwaits with heq | ⟨deadline, heq⟩ <;> cases heq
  | rests hopening => exact absurd rfl (hopening _ _)

/-- A query that has been entered is waited for until it returns. -/
theorem told_waits {s s' : Site σ} {q q' : Query} {id : Uuid} {m : Message} {target : String}
    {D : List Note} (hquery : Query.Move s q q' s') (hq : q.id? = some id)
    (hcarries : Carries c s.node.id first D spec target m) :
    Told c s.node.id first spec (.asking target q')
      (q.notes c s.node.id q' ++ .asked c s.node.id id target m :: D) := by
  cases hquery with
  | enters | unaddressed => cases hq
  | written | late =>
    cases hq
    exact .awaiting rfl hcarries
  | unwritten | expires =>
    cases hq
    exact .returned (.inl rfl) hcarries
  | @picks _ id r hwaits =>
    rcases hwaits with rfl | ⟨deadline, rfl⟩
    · cases hq
      cases r <;> exact .returned (.inl rfl) hcarries
    · cases hq
      cases r <;> exact .returned (.inl rfl) hcarries
  | rests hopening hwriting =>
    have hnone : q.notes c s.node.id q = [] := by
      cases q with
      | writing => exact absurd rfl (hwriting _ _ _ _)
      | opening | done => cases hq
      | waiting | overdue => rfl
    rw [hnone]
    exact .awaiting hq hcarries

/-- A query to another node goes on. -/
theorem told_asks {s s' : Site σ} {node : String} {q q' : Query} (hdone : ∀ r, q ≠ .done r)
    (hquery : Query.Move s q q' s') (hT : Told c s.node.id first spec (.asking node q) T) :
    Told c s.node.id first spec (.asking node q') (q.notes c s.node.id q' ++ T) := by
  generalize hcr : Creation.asking node q = cr at hT
  cases hT with
  | opening htargets hcarries =>
    cases hcr
    exact told_enters hquery htargets hcarries
  | awaiting hq hcarries =>
    cases hcr
    exact told_waits hquery hq hcarries
  | unaddressed _ hends =>
    rcases hends with ⟨node, channel, found, rfl⟩ | ⟨node, rfl⟩
    · cases hcr
      exact absurd rfl (hdone _)
    · cases hcr
  | returned hends =>
    rcases hends with rfl | rfl
    · cases hcr
      exact absurd rfl (hdone _)
    · cases hcr
  | routing | placing | choosing | refused | started => cases hcr

omit [FaithfulTransport σ] in
/-- The end of a query ends the creation that waits for it. -/
theorem told_conclude {a node : String} {r : Except MessengerError (Option Message)}
    (hT : Told c a first spec (.asking node (.done r)) T) :
    Told c a first spec (.done (conclude node r)) T := by
  generalize hcr : Creation.asking node (.done r) = cr at hT
  cases hT with
  | unaddressed hD hends =>
    rcases hends with ⟨node, channel, found, rfl⟩ | ⟨node, rfl⟩
    · cases hcr
      exact .unaddressed hD (.inr ⟨_, rfl⟩)
    · cases hcr
  | returned hends hcarries =>
    rcases hends with rfl | rfl
    · cases hcr
      exact .returned (.inr rfl) hcarries
    · cases hcr
  | awaiting hq =>
    cases hcr
    cases hq
  | routing | placing | choosing | refused | started | opening => cases hcr

/-- Every step of a creation notes what becomes of its request. -/
theorem Move.told {P : Listeners Handler → Prop} {s s' : Site σ}
    (hmove : Creation.Move s cr cr' s') (hT : Told c s.node.id first spec cr T)
    (hn : s.node.Sound P s.drawn) (hnow : s.now.Regular) (hdrawn : s'.drawn ≤ 2 ^ 128) :
    Told c s.node.id first spec cr' (cr.news c s.node s'.node cr' ++ T) := by
  cases hmove with
  | refuses hcr hfault => exact told_refuses hcr hfault hT
  | leads hfault hhead =>
    obtain ⟨rfl, rfl, rfl⟩ := hT.of_routing
    rw [news_of_idle rfl rfl, sight, if_pos hfault, hhead]
    exact .placing
  | refreshes =>
    obtain ⟨rfl, rfl⟩ := hT.of_placing
    obtain ⟨roster, hrefresh, -⟩ := s.node.exists_refreshLoad s.now
    rw [news_of_idle rfl (by rw [hrefresh])]
    exact .choosing
  | starts =>
    have hlt : s.drawn + 1 ≤ 2 ^ 128 := hdrawn
    exact told_startHere hT hn hnow (by omega)
  | sends haim => exact told_sends haim hn.self hT
  | asks hdone hquery =>
    rw [news_of_decided rfl hquery.services.1]
    exact told_asks hdone hquery hT
  | concludes =>
    rw [news_of_decided rfl rfl]
    exact told_conclude hT
  | rests =>
    rw [news_of_decided rfl rfl]
    exact hT

/-! ### Calls -/

/-- The note on the end of a call. -/
def ending (n : Nat) : Creation → List Note
  | .done r => [.concluded n r]
  | _ => []

/-- What has been noted for a call, by where its creation is now. -/
def Called (n : Nat) (a : String) (cr : Creation) (T : List Note) : Prop :=
  ∃ spec T', Told (.call n) a (.routing spec) spec cr T' ∧
    T = cr.ending n ++ T' ++ [.called n a spec]

theorem Move.called {P : Listeners Handler → Prop} {s s' : Site σ} {n : Nat}
    (hmove : Creation.Move s cr cr' s') (hT : Called n s.node.id cr T)
    (hn : s.node.Sound P s.drawn) (hnow : s.now.Regular) (hdrawn : s'.drawn ≤ 2 ^ 128) :
    Called n s.node.id cr'
      ((Work.creation cr).notes (.call n) s.node s'.node (.creation cr') ++ T) := by
  obtain ⟨spec, T', htold, rfl⟩ := hT
  have htold' := hmove.told htold hn hnow hdrawn
  rw [Work.notes_call]
  cases cr with
  | done r =>
    cases hmove with
    | rests =>
      rw [news_of_decided rfl rfl]
      exact ⟨spec, T', htold, rfl⟩
    | refuses hcr => rcases hcr with h | h <;> cases h
    | sends haim => cases haim
  | routing | placing | choosing | asking =>
    have hending : ∀ cr : Creation, (∀ r, cr ≠ .done r) →
        cr.ending n = [] ∧ cr.notes n cr' = cr'.ending n := by
      intro cr hcr
      cases cr with
      | done r => exact absurd rfl (hcr r)
      | routing | placing | choosing | asking => cases cr' <;> exact ⟨rfl, rfl⟩
    refine ⟨spec, _, htold', ?_⟩
    rw [(hending _ (by simp)).1, (hending _ (by simp)).2]
    simp

end Creation

end Fleet
