import Fleet.Proofs.Messenger.Answers
import Fleet.Proofs.Node.Moves
import Fleet.Proofs.Transport.Watched

/-!
# How listeners run

The work on a message lets its listeners run one after another, and whatever they answer goes into
its event. Only a listener that places a service takes more than one step, and only it sends
anything: the query to the node that is to start the service. So each listener ends after a few
steps, unless it waits for that node.

## Main definitions

* `Dispatch.contents`, `Dispatch.outcomes` — what a listener answers, and what comes of it.
* `Dispatch.toGo` — how many steps the work can still take.

## Main statements

* `Dispatch.event_step` — the event takes the answers of the listener that has run.
* `Dispatch.called_append_rest` — the listeners run in turn.
* `Dispatch.answering_or_quiet` — a step sends nothing but queries, unless it is the response.
* `Dispatch.toGo_step`, `Dispatch.canStep_or` — the work goes on and comes to its end.
-/

namespace Fleet

variable {σ : Type} [Transport σ]

/-! ### Steps that respond to nothing -/

/-- What a step does that responds to nothing: it sends nothing but queries. -/
structure Site.Quiet (s s' : Site (Watched σ)) : Prop where
  id : s'.node.id = s.node.id
  answered : s'.node.messenger.answered = s.node.messenger.answered
  queries : ∀ a ∈ s.written s', a.message.query = true

namespace Site.Quiet

variable {s s' : Site (Watched σ)}

omit [Transport σ] in
theorem of_links (hid : s'.node.id = s.node.id)
    (hanswered : s'.node.messenger.answered = s.node.messenger.answered)
    (hlinks : s'.links = s.links) : s.Quiet s' :=
  ⟨hid, hanswered, by simp [written_of_eq hlinks]⟩

theorem write (s : Site (Watched σ)) (receiver : String) {m : Message} (h : m.query = true) :
    s.Quiet (s.write receiver m).2 := by
  refine ⟨rfl, rfl, ?_⟩
  rw [written_of_append (attempts_write ..)]
  simp [h]

omit [Transport σ] in
theorem withMessenger (h : s.Quiet s') {m : Messenger}
    (hm : m.answered = s.node.messenger.answered) : s.Quiet (s'.withMessenger m) :=
  ⟨h.id, hm, h.queries⟩

end Site.Quiet

namespace Query

/-- A query that is about to be written is one. -/
def Asks : Query → Prop
  | .writing _ _ m _ => m.query = true
  | _ => True

/-- The number of steps that a query can still take. -/
def toGo : Query → Nat
  | .opening .. => 4
  | .writing .. => 3
  | .waiting .. => 2
  | .overdue _ => 1
  | .done _ => 0

theorem Move.quiet {s s' : Site (Watched σ)} {q q' : Query} (hmove : Move s q q' s')
    (h : q.Asks) : s.Quiet s' ∧ q'.Asks := by
  cases hmove with
  | enters => exact ⟨.of_links rfl rfl rfl, rfl⟩
  | unaddressed | late => exact ⟨.of_links rfl rfl rfl, trivial⟩
  | written => exact ⟨.write s _ h, trivial⟩
  | unwritten => exact ⟨(Site.Quiet.write s _ h).withMessenger rfl, trivial⟩
  | @picks _ _ r => exact ⟨.of_links rfl rfl rfl, by cases r <;> trivial⟩
  | expires => exact ⟨.of_links rfl rfl rfl, trivial⟩
  | rests => exact ⟨.of_links rfl rfl rfl, h⟩

theorem toGo_step (s : Site σ) (q : Query) (hcan : q.canStep s.node s.noticed = true) :
    (q.step s).1.toGo < q.toGo := by
  cases q with
  | opening m timeout =>
    simp only [step]
    split <;> simp [toGo]
  | writing id target m timeout =>
    simp only [step]
    split <;> simp [toGo]
  | waiting id deadline =>
    simp only [step, poll, Messenger.takeReply]
    cases hreply : s.node.messenger.replies.get? id with
    | some r => cases r <;> simp [ofReply, toGo]
    | none =>
      have hover : deadline ≤ s.noticed := by simpa [canStep, Table.contains, hreply] using hcan
      simp only [Option.map_none, if_pos hover, expire]
      split <;> simp [toGo]
  | overdue id =>
    obtain ⟨r, hreply⟩ := Option.isSome_iff_exists.1 hcan
    simp only [step, poll, Messenger.takeReply, hreply]
    cases r <;> simp [ofReply, toGo]
  | done r => cases hcan

end Query

namespace Creation

/-- The query of a creation is one when it is about to be written. -/
def Asks : Creation → Prop
  | .asking _ q => q.Asks
  | _ => True

/-- The number of steps that a creation can still take. -/
def toGo : Creation → Nat
  | .routing _ => 8
  | .placing _ => 7
  | .choosing _ => 6
  | .asking _ q => q.toGo + 1
  | .done _ => 0

omit [Transport σ] in
theorem asks_ask (channel node : String) (spec : ServiceSpec) (s : Site σ) :
    (ask channel node spec s).Asks ∧ (ask channel node spec s).toGo < 6 := by
  rw [ask]
  split
  · exact ⟨trivial, by simp [toGo, Query.toGo]⟩
  · exact ⟨trivial, by simp [toGo]⟩

theorem Move.quiet {s s' : Site (Watched σ)} {c c' : Creation} (hmove : Move s c c' s')
    (h : c.Asks) : s.Quiet s' ∧ c'.Asks := by
  cases hmove with
  | refuses | leads | starts | concludes | rests => exact ⟨.of_links rfl rfl rfl, trivial⟩
  | refreshes =>
    obtain ⟨roster, heq, hid, -⟩ := s.node.exists_refreshLoad s.now
    rw [heq]
    exact ⟨.of_links (congrArg Identity.id hid) rfl rfl, trivial⟩
  | sends => exact ⟨.of_links rfl rfl rfl, (asks_ask ..).1⟩
  | asks _ hmove => exact hmove.quiet h

theorem Move.toGo_lt {s s' : Site σ} {c c' : Creation} {spec : ServiceSpec}
    (hmove : Move s c c' s') (hspec : c.undecided? = some spec) : c'.toGo < c.toGo := by
  cases hmove with
  | refuses hc => rcases hc with rfl | rfl <;> simp [toGo]
  | leads | refreshes => simp [toGo]
  | starts => simp [startHere, toGo]
  | sends haim =>
    cases haim with
    | forward => exact Nat.lt_trans (asks_ask ..).2 (by simp [toGo])
    | remote => exact (asks_ask ..).2
  | asks | concludes | rests => cases hspec

theorem toGo_step (s : Site σ) (c : Creation) (hcan : c.canStep s.node s.noticed = true) :
    (c.step s).1.toGo < c.toGo := by
  cases c with
  | routing spec => exact (move_step s (.routing spec)).toGo_lt rfl
  | placing spec => exact (move_step s (.placing spec)).toGo_lt rfl
  | choosing spec => exact (move_step s (.choosing spec)).toGo_lt rfl
  | asking node q =>
    cases q with
    | done r => simp [step, toGo]
    | opening m timeout => exact Nat.succ_lt_succ (Query.toGo_step s (.opening m timeout) hcan)
    | writing id target m timeout =>
      exact Nat.succ_lt_succ (Query.toGo_step s (.writing id target m timeout) hcan)
    | waiting id deadline =>
      exact Nat.succ_lt_succ (Query.toGo_step s (.waiting id deadline) hcan)
    | overdue id => exact Nat.succ_lt_succ (Query.toGo_step s (.overdue id) hcan)
  | done r => cases hcan

end Creation

namespace Dispatch

/-! ### What a step does -/

/-- The listeners that are still to come. -/
def rest : Dispatch → List Handler
  | .firing _ _ rest | .placing _ _ _ rest => rest
  | .opening _ | .answering .. | .done => []

/-- The listener that the next step calls. -/
def called : Dispatch → List Handler
  | .firing _ _ (h :: _) => [h]
  | _ => []

/-- What a listener answers a start request with. -/
def answerOf : Except CreateError Service → List Bytes
  | .ok service => [service.bytes]
  | .error _ => []

/-- The contents that a listener answers with in the next step. -/
def contents (s : Site σ) : Dispatch → List Bytes
  | .firing _ _ (.recorder _ answers :: _) => answers
  | .firing _ e (.startHere :: _) =>
    match request? s.node e.message with
    | none => []
    | some spec => answerOf ((s.start spec).1.mapError .refused)
  | .placing _ _ (.done r) _ => answerOf r
  | _ => []

/-- What comes of these answers. -/
def outcomes (s : Site σ) (w : Dispatch) : List (Option ProtocolError) :=
  match w.event? with
  | none => []
  | some e => (e.answerAll (w.contents s)).1

/-- The query of a listener is one when it is about to be written. -/
def Asks : Dispatch → Prop
  | .placing _ _ c _ => c.Asks
  | _ => True

/-- The number of steps that the work can still take once it has begun: at most nine for each
listener, and one for the response. -/
def toGo : Dispatch → Nat
  | .firing _ _ rest => 9 * rest.length + 2
  | .placing _ _ c rest => 9 * rest.length + 3 + c.toGo
  | .answering .. => 1
  | .opening _ | .done => 0

omit [Transport σ] in
theorem answerWith_eq (e : Event) (r : Except CreateError Service) :
    answerWith e r = (e.answerAll (answerOf r)).2 := by
  cases r with
  | ok service => exact e.tryAnswer_eq _
  | error => rfl

/-- The event takes the answers of the listener that has run. -/
theorem event_step {s : Site σ} {w : Dispatch} {e : Event}
    (h : (w.step s).1.event? = some e) :
    ∃ e', w.event? = some e' ∧ e = (e'.answerAll (w.contents s)).2 := by
  have hmove := w.move_step s
  generalize (w.step s).1 = w', (w.step s).2 = s' at hmove h
  cases hmove with
  | ends =>
    split at h
    · cases h
      exact ⟨_, rfl, rfl⟩
    · cases h
  | opens | records | stores | places =>
    cases h
    exact ⟨_, rfl, rfl⟩
  | ignores hh hnone =>
    cases h
    rcases hh with rfl | rfl
    · exact ⟨_, rfl, by simp [contents, hnone, Event.answerAll]⟩
    · exact ⟨_, rfl, rfl⟩
  | starts hspec =>
    cases h
    exact ⟨_, rfl, by simp [contents, hspec, answerWith_eq]⟩
  | @creates _ _ c _ _ _ hc =>
    cases h
    refine ⟨_, rfl, ?_⟩
    cases c with
    | done r => exact absurd rfl (hc r)
    | routing | placing | choosing | asking => rfl
  | resumes =>
    cases h
    exact ⟨_, rfl, answerWith_eq ..⟩
  | answers | rests => cases h

/-- The listeners run in turn. -/
theorem called_append_rest (s : Site σ) {w : Dispatch} (hw : ∀ d, w ≠ .opening d) :
    w.called ++ (w.step s).1.rest = w.rest := by
  have hmove := w.move_step s
  generalize (w.step s).1 = w', (w.step s).2 = s' at hmove
  cases hmove with
  | opens d => exact absurd rfl (hw d)
  | ends => split <;> rfl
  | records | stores | ignores | starts | places | creates | resumes | answers | rests => rfl

theorem step_ne_opening (s : Site σ) (w : Dispatch) (d : Delivery) :
    (w.step s).1 ≠ .opening d := by
  have hmove := w.move_step s
  generalize (w.step s).1 = w', (w.step s).2 = s' at hmove
  rintro rfl
  generalize hd : Dispatch.opening d = w' at hmove
  cases hmove with
  | ends => split at hd <;> cases hd
  | opens | records | stores | ignores | starts | places | creates | resumes | answers | rests =>
    cases hd

theorem toGo_step (s : Site σ) {w : Dispatch} (hw : ∀ d, w ≠ .opening d)
    (hcan : w.canStep s.node s.noticed = true) : (w.step s).1.toGo < w.toGo := by
  cases w with
  | opening d => exact absurd rfl (hw d)
  | firing k e rest =>
    cases rest with
    | nil =>
      simp only [step]
      split <;> simp [toGo]
    | cons h rest =>
      cases h with
      | recorder | storeLoad | startHere =>
        simp only [step, fire, toGo, List.length_cons]
        omega
      | startAsHead =>
        simp only [step, fire]
        split
        · simp only [toGo, List.length_cons]
          omega
        · simp only [toGo, Creation.toGo, List.length_cons]
          omega
  | placing k e c rest =>
    cases c with
    | done r =>
      simp only [step, toGo]
      omega
    | routing spec => exact Nat.add_lt_add_left (Creation.toGo_step s (.routing spec) hcan) _
    | placing spec => exact Nat.add_lt_add_left (Creation.toGo_step s (.placing spec) hcan) _
    | choosing spec => exact Nat.add_lt_add_left (Creation.toGo_step s (.choosing spec) hcan) _
    | asking node q => exact Nat.add_lt_add_left (Creation.toGo_step s (.asking node q) hcan) _
  | answering k e => simp [step, toGo]
  | done => cases hcan

/-- A step of the work is the response to a query, or it responds to nothing. -/
theorem answering_or_quiet (s : Site (Watched σ)) {w : Dispatch} (hasks : w.Asks) :
    (∃ k e, w = .answering k e) ∨ s.Quiet (w.step s).2 ∧ (w.step s).1.Asks := by
  have hmove := w.move_step s
  generalize (w.step s).1 = w', (w.step s).2 = s' at hmove ⊢
  cases hmove with
  | answers => exact .inl ⟨_, _, rfl⟩
  | ends => exact .inr ⟨.of_links rfl rfl rfl, by split <;> trivial⟩
  | opens | records | ignores | starts | places | resumes | rests =>
    exact .inr ⟨.of_links rfl rfl rfl, trivial⟩
  | @stores _ e =>
    obtain ⟨roster, heq, hid, -⟩ := storeLoad_eq e.message s
    rw [heq]
    exact .inr ⟨.of_links (congrArg Identity.id hid) rfl rfl, trivial⟩
  | creates _ hmove => exact .inr (hmove.quiet hasks)

/-- The work ends when all listeners have run, and with the response to a query. -/
theorem of_step_eq_done {s : Site σ} {w : Dispatch} (hcan : w.canStep s.node s.noticed = true)
    (h : (w.step s).1 = .done) :
    (∃ k e, w = .firing k e [] ∧ e.message.query = false) ∨ ∃ k e, w = .answering k e := by
  have hmove := w.move_step s
  generalize (w.step s).1 = w', (w.step s).2 = s' at hmove h
  subst h
  generalize hd : Dispatch.done = w' at hmove
  cases hmove with
  | @ends k e =>
    refine .inl ⟨k, e, rfl, ?_⟩
    split at hd
    · cases hd
    · next hquery => simpa using hquery
  | answers => exact .inr ⟨_, _, rfl⟩
  | rests => cases hcan
  | opens | records | stores | ignores | starts | places | creates | resumes => cases hd

theorem placing_step {s : Site σ} {w : Dispatch} {k : Nat} {e : Event} {c : Creation}
    {rest : List Handler} (h : (w.step s).1 = .placing k e c rest) :
    (∃ c', w = .placing k e c' rest) ∨ .startAsHead ∈ w.called := by
  have hmove := w.move_step s
  generalize (w.step s).1 = w', (w.step s).2 = s' at hmove h
  cases hmove with
  | places => exact .inr (.head _)
  | creates =>
    cases h
    exact .inl ⟨_, rfl⟩
  | ends => split at h <;> cases h
  | opens | records | stores | ignores | starts | resumes | answers | rests => cases h

/-- A listener waits for the response of another node: it is not there yet, and there is time left
or somebody is about to hand it over. -/
def Awaits (node : Node) (noticed : Nat) (w : Dispatch) : Prop :=
  ∃ k e target id rest, node.messenger.replies.contains id = false ∧
    (w = .placing k e (.asking target (.overdue id)) rest ∨
      ∃ deadline, noticed < deadline ∧
        w = .placing k e (.asking target (.waiting id deadline)) rest)

theorem Awaits.exists_placing {node : Node} {noticed : Nat} {w : Dispatch}
    (h : w.Awaits node noticed) : ∃ k e c rest, w = .placing k e c rest := by
  obtain ⟨k, e, target, id, rest, -, rfl | ⟨deadline, -, rfl⟩⟩ := h
  · exact ⟨k, e, _, rest, rfl⟩
  · exact ⟨k, e, _, rest, rfl⟩

/-- The work can go on until it has ended, unless a listener waits. -/
theorem canStep_or (node : Node) (noticed : Nat) (w : Dispatch) :
    w = .done ∨ w.canStep node noticed = true ∨ w.Awaits node noticed := by
  cases w with
  | opening | firing | answering => exact .inr (.inl rfl)
  | placing k e c rest =>
    cases c with
    | routing | placing | choosing | done => exact .inr (.inl rfl)
    | asking target q =>
      cases q with
      | opening | writing | done => exact .inr (.inl rfl)
      | waiting id deadline =>
        cases hreply : node.messenger.replies.contains id with
        | true => exact .inr (.inl (by simp [canStep, Creation.canStep, Query.canStep, hreply]))
        | false =>
          by_cases hover : deadline ≤ noticed
          · exact .inr (.inl (by simp [canStep, Creation.canStep, Query.canStep, hover]))
          · exact .inr (.inr ⟨k, e, target, id, rest, hreply, .inr ⟨deadline, by omega, rfl⟩⟩)
      | overdue id =>
        cases hreply : node.messenger.replies.contains id with
        | true => exact .inr (.inl hreply)
        | false => exact .inr (.inr ⟨k, e, target, id, rest, hreply, .inl rfl⟩)
  | done => exact .inl rfl

/-- Work that can go on has an event. -/
theorem exists_event {w : Dispatch} {node : Node} {noticed : Nat}
    (hcan : w.canStep node noticed = true) : ∃ e, w.event? = some e := by
  cases w with
  | opening d => exact ⟨⟨d.message, none⟩, rfl⟩
  | firing k e rest => exact ⟨e, rfl⟩
  | placing k e c rest => exact ⟨e, rfl⟩
  | answering k e => exact ⟨e, rfl⟩
  | done => cases hcan

end Dispatch

end Fleet
