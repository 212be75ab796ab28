import Fleet.Node.Dispatch

/-!
# What the steps of a node do

Each step of a query, of a creation and of the work on a message is one of a few moves. A move says
everything about the step: where the activity goes, what it needs to get there, and what the site
is afterwards. Everything about steps is proved from their moves.
-/

namespace Fleet

variable {σ : Type}

/-- A query goes on. -/
inductive Query.Move [Transport σ] (s : Site σ) : Query → Query → Site σ → Prop
  /-- It has found its connection and enters the table of pending queries. -/
  | enters {m : Message} {timeout : Nat} {target : String}
      (hfound : s.resolve m.targets = [target]) :
      Move s (.opening m timeout)
        (.writing (.fresh s.drawn) target (m.intoQuery (.fresh s.drawn)) timeout)
        (s.draw.2.withMessenger (s.node.messenger.openQuery (.fresh s.drawn) target))
  | unaddressed {m : Message} {timeout : Nat} (found : Nat) :
      Move s (.opening m timeout) (.done (.error (.invalidTarget m.channel found))) s
  | written {id : Uuid} {target : String} {m : Message} {timeout : Nat} :
      Move s (.writing id target m timeout) (.waiting id (s.clock + timeout))
        (s.write target m).2
  | unwritten {id : Uuid} {target : String} {m : Message} {timeout : Nat} :
      Move s (.writing id target m timeout) (.done (.ok none))
        ((s.write target m).2.withMessenger (s.node.messenger.dropQuery id))
  /-- It picks up its outcome. -/
  | picks {q : Query} {id : Uuid} {r : Reply}
      (hq : q = .overdue id ∨ ∃ deadline, q = .waiting id deadline)
      (hr : s.node.messenger.replies.get? id = some r) :
      Move s q (.ofReply r) (s.withMessenger { s.node.messenger with
        replies := s.node.messenger.replies.erase id })
  | expires {id : Uuid} {deadline : Nat} :
      Move s (.waiting id deadline) (.done (.ok none))
        (s.withMessenger (s.node.messenger.dropQuery id))
  | late {id : Uuid} {deadline : Nat} : Move s (.waiting id deadline) (.overdue id) s
  | rests {q : Query} (hopening : ∀ m timeout, q ≠ .opening m timeout)
      (hwriting : ∀ id target m timeout, q ≠ .writing id target m timeout) : Move s q q s

namespace Query

theorem move_poll [Transport σ] {s : Site σ} {q q' : Query} {s' : Site σ} {id : Uuid}
    (hq : q = .overdue id ∨ ∃ deadline, q = .waiting id deadline)
    (hrest : Move s q q' s') :
    Move s q (poll id (q', s') s).1 (poll id (q', s') s).2 := by
  unfold poll Messenger.takeReply
  cases h : s.node.messenger.replies.get? id with
  | none => exact hrest
  | some r => exact .picks hq h

theorem move_step [Transport σ] (s : Site σ) (q : Query) :
    Move s q (q.step s).1 (q.step s).2 := by
  cases q with
  | opening m timeout =>
    simp only [step]
    split
    · next target hfound => exact .enters hfound
    · exact .unaddressed _
  | writing id target m timeout =>
    simp only [step]
    split
    · next s' hw =>
      have : s' = (s.write target m).2 := by rw [hw]
      rw [this]
      exact .written
    · next s' hw =>
      have : s' = (s.write target m).2 := by rw [hw]
      rw [this]
      exact .unwritten
  | waiting id deadline =>
    simp only [step]
    split
    · unfold expire
      split
      · exact move_poll (.inr ⟨_, rfl⟩) .expires
      · exact move_poll (.inr ⟨_, rfl⟩) .late
    · exact move_poll (.inr ⟨_, rfl⟩) (.rests (by simp) (by simp))
  | overdue id => exact move_poll (.inl rfl) (.rests (by simp) (by simp))
  | done r => exact .rests (by simp) (by simp)

end Query

/-- The specification that a creation has yet to decide on. -/
def Creation.undecided? : Creation → Option ServiceSpec
  | .routing spec | .placing spec | .choosing spec => some spec
  | _ => none

/-- Where a creation may hand a request: to the head if that is another node, or as the head to the
node that placement chooses, if that is another one. -/
inductive Creation.Aim (n : Node) (spec : ServiceSpec) : Creation → String → String → Prop
  | forward (hfault : spec.fault? = none) (hne : n.roster.head.id ≠ n.id) :
      Aim n spec (.routing spec) placeChannel n.roster.head.id
  | remote {m : Member} (hselect : n.roster.select spec.demand = some m) (hne : m.id ≠ n.id) :
      Aim n spec (.choosing spec) startChannel m.id

/-- A creation goes on. -/
inductive Creation.Move [Transport σ] (s : Site σ) : Creation → Creation → Site σ → Prop
  | refuses {c : Creation} {spec : ServiceSpec} {fault : SpecFault}
      (hc : c = .routing spec ∨ c = .placing spec) (hfault : spec.fault? = some fault) :
      Move s c (.done (.error (.refused (.invalid fault)))) s
  /-- The node that was asked first reads that it is the head itself. -/
  | leads {spec : ServiceSpec} (hfault : spec.fault? = none)
      (hhead : s.node.roster.head.id = s.node.id) : Move s (.routing spec) (.placing spec) s
  | refreshes {spec : ServiceSpec} (hfault : spec.fault? = none) :
      Move s (.placing spec) (.choosing spec) { s with node := s.node.refreshLoad s.now }
  /-- The service is started on this node. -/
  | starts {spec : ServiceSpec} :
      Move s (.choosing spec) (startHere spec s).1 (startHere spec s).2
  /-- The request goes to another node. -/
  | sends {c : Creation} {spec : ServiceSpec} {channel target : String}
      (haim : Aim s.node spec c channel target) : Move s c (ask channel target spec s) s
  | asks {node : String} {q q' : Query} {s' : Site σ} (hq : ∀ r, q ≠ .done r)
      (hmove : Query.Move s q q' s') : Move s (.asking node q) (.asking node q') s'
  | concludes {node : String} {r : Except MessengerError (Option Message)} :
      Move s (.asking node (.done r)) (.done (conclude node r)) s
  | rests {r : Except CreateError Service} : Move s (.done r) (.done r) s

/-- A report of a load changes nothing else about the node itself. -/
theorem Roster.self_report {r r' : Roster} {id : String} {l : Load} (h : r.report id l = .ok r') :
    r'.self.identity = r.self.identity ∧ r'.self.available = r.self.available := by
  unfold report at h
  split at h
  · cases h
    simp
  · split at h
    · cases h
      exact ⟨rfl, rfl⟩
    · cases h

/-- Refreshing its own load changes nothing at a node but what its view says about its load. -/
theorem Node.exists_refreshLoad (n : Node) (now : Instant) :
    ∃ roster, n.refreshLoad now = { n with roster } ∧
      roster.self.identity = n.roster.self.identity ∧
        roster.self.available = n.roster.self.available := by
  unfold refreshLoad
  split
  · exact ⟨n.roster, rfl, rfl, rfl⟩
  · split
    · exact ⟨n.roster, rfl, rfl, rfl⟩
    · split
      · next roster h => exact ⟨roster, rfl, Roster.self_report h⟩
      · exact ⟨n.roster, rfl, rfl, rfl⟩

@[simp] theorem Node.id_refreshLoad (n : Node) (now : Instant) : (n.refreshLoad now).id = n.id := by
  obtain ⟨roster, heq, hid, -⟩ := n.exists_refreshLoad now
  rw [heq]
  exact congrArg Identity.id hid

/-- Only a query may be answered; taking the right to answer it changes nothing else. -/
theorem Messenger.exists_claimAnswer {m m' : Messenger} {d : Delivery}
    (h : m.claimAnswer d = .ok m') :
    d.message.query = true ∧ ∃ answered, m' = { m with answered } := by
  unfold claimAnswer at h
  split at h
  · cases h
  · next hquery =>
    refine ⟨by simpa using hquery, ?_⟩
    split at h
    · cases h
    · split at h
      · cases h
      · cases h
        exact ⟨_, rfl⟩

/-- Starting a service draws an identifier and changes the ledger. -/
theorem Site.start_eq (s : Site σ) (spec : ServiceSpec) :
    s.start spec = ((s.node.ledger.start spec (.fresh s.drawn) s.now).1, { s with
      drawn := s.drawn + 1
      node := { s.node with
        ledger := (s.node.ledger.start spec (.fresh s.drawn) s.now).2 } }) := rfl

namespace Creation

theorem move_step [Transport σ] (s : Site σ) (c : Creation) :
    Move s c (c.step s).1 (c.step s).2 := by
  cases c with
  | routing spec =>
    simp only [step, check]
    cases hfault : spec.fault? with
    | some fault => exact .refuses (.inl rfl) hfault
    | none =>
      dsimp only
      split
      · next hhead => exact .leads hfault hhead
      · next hhead => exact .sends (.forward hfault hhead)
  | placing spec =>
    simp only [step, check]
    cases hfault : spec.fault? with
    | some fault => exact .refuses (.inr rfl) hfault
    | none => exact .refreshes hfault
  | choosing spec =>
    simp only [step, Node.choose]
    cases hselect : s.node.roster.select spec.demand with
    | none => exact .starts
    | some m =>
      dsimp only
      split
      · exact .starts
      · next hne => exact .sends (.remote hselect hne)
  | asking node q =>
    cases q with
    | done r => exact .concludes
    | opening | writing | waiting | overdue =>
      exact .asks (by simp) (Query.move_step s _)
  | done r => exact .rests

end Creation

/-- Storing a load changes nothing at a site but what the node's view says about loads. -/
theorem Dispatch.storeLoad_eq (m : Message) (s : Site σ) :
    ∃ roster, storeLoad m s = s.withRoster roster ∧
      roster.self.identity = s.node.roster.self.identity ∧
        roster.self.available = s.node.roster.self.available := by
  unfold storeLoad
  split
  · exact ⟨s.node.roster, rfl, rfl, rfl⟩
  · split
    · next roster h => exact ⟨roster, rfl, Roster.self_report h⟩
    · exact ⟨s.node.roster, rfl, rfl, rfl⟩

namespace Event

/-- An event whose answer may have been set, once and if it is a query. -/
structure Answered (e e' : Event) : Prop where
  message : e'.message = e.message
  response : e'.response = e.response ∨
    e.message.query = true ∧ e.response = none ∧ ∃ content, e'.response = some content

theorem Answered.refl (e : Event) : Answered e e := ⟨rfl, .inl rfl⟩

theorem Answered.trans {e₁ e₂ e₃ : Event} (h : Answered e₁ e₂) (h' : Answered e₂ e₃) :
    Answered e₁ e₃ := by
  refine ⟨h'.message.trans h.message, ?_⟩
  rcases h'.response with heq | ⟨hquery, hnone, hsome⟩
  · rcases h.response with heq' | ⟨hquery, hnone, hsome⟩
    · exact .inl (heq.trans heq')
    · exact .inr ⟨hquery, hnone, heq ▸ hsome⟩
  · rcases h.response with heq' | ⟨-, -, content, hc⟩
    · exact .inr ⟨h.message ▸ hquery, heq' ▸ hnone, hsome⟩
    · rw [hnone] at hc
      cases hc

theorem answered_answer {e e' : Event} {content : Bytes} (h : e.answer content = .ok e') :
    Answered e e' := by
  rw [answer] at h
  split at h
  · cases h
  · next hquery =>
    split at h
    · cases h
    · next hnone =>
      cases h
      refine ⟨rfl, .inr ⟨by simpa using hquery, by simpa using hnone, content, rfl⟩⟩

theorem answered_tryAnswer (e : Event) (content : Bytes) : Answered e (e.tryAnswer content) := by
  rw [tryAnswer]
  split
  · next h => exact answered_answer h
  · exact .refl e

theorem answered_answerAll (e : Event) (answers : List Bytes) :
    Answered e (e.answerAll answers).2 := by
  induction answers generalizing e with
  | nil => exact .refl e
  | cons content rest ih =>
    simp only [answerAll]
    split
    · next e' h => exact (answered_answer h).trans (ih e')
    · exact ih e

theorem answered_answerWith (e : Event) (r : Except CreateError Service) :
    Answered e (Dispatch.answerWith e r) := by
  cases r with
  | ok service => exact answered_tryAnswer e _
  | error => exact .refl e

end Event

/-- The event that listeners see. -/
def Dispatch.event? : Dispatch → Option Event
  | .opening d => some ⟨d.message, none⟩
  | .firing _ e _ | .placing _ e _ _ | .answering _ e => some e
  | .done => none

/-- The work on a message goes on. -/
inductive Dispatch.Move [Transport σ] (s : Site σ) : Dispatch → Dispatch → Site σ → Prop
  | opens (d : Delivery) :
      Move s (.opening d) (.firing d.ticket ⟨d.message, none⟩
        (s.node.messenger.listeners.handlers d.message.channel)) s
  /-- All listeners have run. -/
  | ends {ticket : Nat} {e : Event} :
      Move s (.firing ticket e []) (if e.message.query then .answering ticket e else .done) s
  | records {ticket : Nat} {e : Event} {rest : List Handler} (label : String)
      (answers : List Bytes) :
      Move s (.firing ticket e (.recorder label answers :: rest))
        (.firing ticket (record label answers e s).1 rest) (record label answers e s).2
  | stores {ticket : Nat} {e : Event} {rest : List Handler} :
      Move s (.firing ticket e (.storeLoad :: rest)) (.firing ticket e rest)
        (storeLoad e.message s)
  /-- A start request is not served, or is none. -/
  | ignores {ticket : Nat} {e : Event} {h : Handler} {rest : List Handler}
      (hh : h = .startHere ∨ h = .startAsHead) (hnone : request? s.node e.message = none) :
      Move s (.firing ticket e (h :: rest)) (.firing ticket e rest) s
  | starts {ticket : Nat} {e : Event} {rest : List Handler} {spec : ServiceSpec}
      (hspec : request? s.node e.message = some spec) :
      Move s (.firing ticket e (.startHere :: rest))
        (.firing ticket (answerWith e ((s.start spec).1.mapError .refused)) rest)
        (s.start spec).2
  | places {ticket : Nat} {e : Event} {rest : List Handler} {spec : ServiceSpec}
      (hspec : request? s.node e.message = some spec) :
      Move s (.firing ticket e (.startAsHead :: rest)) (.placing ticket e (.placing spec) rest)
        { s with node := { s.node with creations := s.node.creations + 1 } }
  | creates {ticket : Nat} {e : Event} {c c' : Creation} {rest : List Handler} {s' : Site σ}
      (hc : ∀ r, c ≠ .done r) (hmove : Creation.Move s c c' s') :
      Move s (.placing ticket e c rest) (.placing ticket e c' rest) s'
  | resumes {ticket : Nat} {e : Event} {r : Except CreateError Service} {rest : List Handler} :
      Move s (.placing ticket e (.done r) rest) (.firing ticket (answerWith e r) rest)
        { s with node := { s.node with creations := s.node.creations - 1 } }
  | answers {ticket : Nat} {e : Event} :
      Move s (.answering ticket e) .done (s.respond ⟨e.message, ticket⟩ (e.response.getD [])).2
  | rests : Move s .done .done s

theorem Dispatch.move_step [Transport σ] (s : Site σ) (d : Dispatch) :
    Move s d (d.step s).1 (d.step s).2 := by
  cases d with
  | opening d => exact .opens d
  | firing ticket e rest =>
    cases rest with
    | nil => exact .ends
    | cons h rest =>
      cases h with
      | recorder label answers => exact .records label answers
      | storeLoad => exact .stores
      | startHere =>
        simp only [step, fire, startHere]
        cases hspec : request? s.node e.message with
        | none => exact .ignores (.inl rfl) hspec
        | some spec => exact .starts hspec
      | startAsHead =>
        simp only [step, fire]
        cases hspec : request? s.node e.message with
        | none => exact .ignores (.inr rfl) hspec
        | some spec => exact .places hspec
  | placing ticket e c rest =>
    cases c with
    | done r => exact .resumes
    | routing | placing | choosing | asking => exact .creates (by simp) (Creation.move_step s _)
  | answering ticket e => exact .answers
  | done => exact .rests

end Fleet
