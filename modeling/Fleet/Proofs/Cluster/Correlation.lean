import Fleet.Proofs.Cluster.Effects
import Fleet.Proofs.Cluster.Shifts
import Fleet.Proofs.Transport.Joining

/-!
# Responses belong to their queries

A response is matched with its query by the correlation id alone. This is enough: as long as no
identifier is drawn twice, a query that returns a response has been taken up exactly once, by the
node that it was sent to, and the response is the one that this node has made of it.
-/

namespace Fleet

variable {σ : Type} [FaithfulTransport σ] {boxes : Nat → String → Prop}

/-! ### Shifts of whole clusters -/

/-- A task is of the kind that does some work. -/
def Task.Does : Task → Work → Prop
  | .job _, .query _ | .job _, .creation _ | .drain .., .dispatch _ => True
  | _, _ => False

theorem Cluster.Sound.does {P : Listeners Handler → Prop} {w : Cluster σ} (hw : w.Sound P)
    {t : Task} {a : String} {work : Work} (h : w.activity? t = some (a, work)) : t.Does work := by
  cases t with
  | job n =>
    simp only [activity?, Option.bind_eq_some_iff, Option.map_eq_some_iff, Prod.mk.injEq] at h
    obtain ⟨j, hj, s, -, -, rfl⟩ := h
    cases hwork : j.work with
    | dispatch d => exact (hw.jobs n j hj).work d hwork
    | query | creation => trivial
  | drain place queue =>
    simp only [activity?, Option.bind_eq_some_iff, Option.map_eq_some_iff, Prod.mk.injEq] at h
    obtain ⟨s, -, d, -, -, rfl⟩ := h
    trivial
  | follow | publish => cases h

theorem Shift.congr_notes {T T' : Multiset (Uuid × Token)} {new new' : List Note}
    {drawn drawn' : Nat} (h : Shift boxes T T' new drawn drawn')
    (hnew : ∀ id, story new' id = story new id) : Shift boxes T T' new' drawn drawn' := by
  cases h with
  | quiet hle hquiet hdrawn => exact .quiet hle (fun id => (hnew id).trans (hquiet id)) hdrawn
  | advance hT hT' hothers hfit hdrawn =>
    refine .advance hT hT' (fun other hne => (hnew other).trans (hothers other hne)) ?_ hdrawn
    intro s hs
    rw [hnew]
    exact hfit s hs
  | draw hT' hothers hfit hdrawn =>
    exact .draw hT' (fun other hne => (hnew other).trans (hothers other hne))
      ((hnew _).symm ▸ hfit) hdrawn
  | never hT hfit => exact .never hT hfit

/-- An activity that goes on moves one token at most. -/
theorem Work.Move.shift {s s' : Site σ} {work work' : Work} (hmove : Work.Move s work work' s')
    {t : Task} (ht : t.Does work) (hkept : Kept boxes s.links) :
    Shift boxes (tokens.amount s.node.id t work + s.tokens)
      (tokens.amount s.node.id t work' + s'.tokens)
      (work.notes (t.cause work) s.node s'.node work') s.drawn s'.drawn := by
  have hstory := Work.story_notes (t.cause work) s.node s'.node work work'
  cases hmove with
  | query hmove =>
    cases t with
    | job n => exact (hmove.shift (.user n) hkept).congr_notes hstory
    | drain | follow | publish => cases ht
  | creation hmove =>
    cases t with
    | job n => exact (hmove.shift (.call n) hkept).congr_notes hstory
    | drain | follow | publish => cases ht
  | @dispatch d d' s' hmove =>
    cases t with
    | drain place queue =>
      refine (hmove.shift d.cause hkept).congr_notes fun id => ?_
      rw [story_append]
      exact hstory id
    | job | follow | publish => cases ht

/-- A message that is taken up moves its token. -/
theorem shift_take {R : Multiset (Uuid × Token)} {drawn drawn' : Nat} (node : String)
    (d : Delivery) (hdrawn : drawn ≤ drawn') :
    Shift boxes (tokens.parked node d.message + R) (tokens.dispatch node (.opening d) + R)
      (d.message.cause.taken node) drawn drawn' := by
  cases hquery : d.message.query with
  | false =>
    refine .quiet ?_ ?_ hdrawn
    · simp [tokens, Dispatch.token, Dispatch.event?, Event.token, Dispatch.creation?, hquery]
    · simp [Message.cause, hquery, Cause.taken]
  | true =>
    have hT : tokens.parked node d.message + R =
        (d.message.queryId, .waiting node d.message) ::ₘ R := by simp [tokens, hquery]
    have hT' : tokens.dispatch node (.opening d) + R =
        (d.message.queryId, .handling node d.message none) ::ₘ R := by
      simp [tokens, Dispatch.token, Dispatch.event?, Event.token, Dispatch.creation?, hquery]
    have hnotes : d.message.cause.taken node = [.taken node d.message.queryId] := by
      simp [Message.cause, hquery, Cause.taken, Message.queryId]
    refine .advance hT.ge hT'.le (fun other hne => ?_) ?_ hdrawn
    · simp [hnotes, story, Note.subject?, hne.symm]
    · rintro st ⟨hm, c, a, rfl⟩
      exact ⟨hm, c, a, by simp [hnotes, story, Note.subject?, takenStory]⟩

theorem plain_tokens : tokens.Plain := by
  refine ⟨fun id => rfl, fun k m hquery hplain => ?_⟩
  simp [tokens, hquery, hplain]

/-- A message that comes to its queue moves its token. -/
theorem shift_queue {T T' R : Multiset (Uuid × Token)} {drawn drawn' k : Nat} {node : String}
    {m : Message} (hbox : boxes k node) (hresponse : m.isResponse = false)
    (hT : tokens.letter k m + R ≤ T) (hT' : T' ≤ tokens.parked node m + R)
    (hdrawn : drawn ≤ drawn') : Shift boxes T T' [] drawn drawn' := by
  cases hquery : m.query with
  | false =>
    have hplain : m.correlation = none := by
      simp only [Message.isResponse, hquery] at hresponse
      simpa using hresponse
    rw [plain_tokens.letter k m hquery hplain, zero_add] at hT
    have hnone : tokens.parked node m = 0 := by simp [tokens, hquery]
    rw [hnone, zero_add] at hT'
    exact .quiet (hT'.trans hT) (fun _ => rfl) hdrawn
  | true =>
    have hletter : tokens.letter k m + R = (m.queryId, .travelling k m) ::ₘ R := by
      simp [tokens, hquery]
    have hparked : tokens.parked node m + R = (m.queryId, .waiting node m) ::ₘ R := by
      simp [tokens, hquery]
    rw [hletter] at hT
    rw [hparked] at hT'
    refine .advance hT hT' (fun _ _ => rfl) ?_ hdrawn
    rintro st ⟨hm, c, a, b, rfl, hb⟩
    obtain rfl := hb node hbox
    exact ⟨hm, c, a, rfl⟩

/-- A step of a history moves one token at most. -/
theorem Cluster.Effect.shift {P : Listeners Handler → Prop} {w w' : Cluster σ} {new : List Note}
    (h : w.Effect new w') (hw : w.Sound P) :
    Shift w.boxes (tokens.cluster w) (tokens.cluster w') new w.drawn w'.drawn := by
  cases h with
  | @goes t station work work' s' w' hstation hwork hwork' hmove hframe hdrawn hamount =>
    obtain ⟨R, hR, hR'⟩ := hamount tokens
    rw [hR, hR', hdrawn]
    exact (hmove.shift (hw.does hwork) hw.kept).add_right R
  | @takes t station d w' hstation hwork hwork' hframe hamount =>
    obtain ⟨R, hR, hR'⟩ := hamount tokens
    rw [hR, hR']
    exact shift_take station.node.id d hframe.drawn
  | begins hstation hnone hwork' hframe hnext hnew hamount =>
    rcases hnew with ⟨⟨m, timeout, rfl⟩, rfl⟩ | ⟨spec, rfl, rfl⟩
    · refine .quiet ?_ (fun _ => rfl) hframe.drawn
      rw [hamount tokens]
      exact (zero_add _).le
    · refine .quiet ?_ (fun _ => rfl) hframe.drawn
      rw [hamount tokens]
      exact (zero_add _).le
  | ends hwork' hframe hamount =>
    exact .quiet (hamount tokens) (fun _ => rfl) hframe.drawn
  | queues hstation hbox hresponse hsame hamount =>
    obtain ⟨R, hR, hR'⟩ := hamount tokens
    exact shift_queue hbox hresponse hR hR' hsame.drawn
  | @completes k m id w' hquery hid hsame hamount =>
    obtain ⟨R, hR, hR'⟩ := hamount tokens
    have hletter : tokens.letter k m = tokens.reply id (.answer m) := by simp [tokens, hquery, hid]
    rw [hletter] at hR
    exact .quiet (hR'.trans hR) (fun _ => rfl) hsame.drawn
  | quiet hsame hnew hamount =>
    refine .quiet (hamount tokens plain_tokens) (story_eq_nil fun n hn => ?_) hsame.drawn
    obtain ⟨node, s, rfl⟩ := hnew n hn
    rfl

/-! ### Queries that return -/

omit [FaithfulTransport σ] in
/-- Who leaves a note on a query that returns. -/
theorem Work.of_mem_returned {cause c : Cause} {n n' : Node} {work work' : Work}
    {a : String} {id : Uuid} {r : Option Message}
    (h : .returned c a id r ∈ work.notes cause n n' work') :
    c = cause ∧ a = n.id ∧ ∃ q, work.query? = some q ∧ q.id? = some id ∧
      work'.query? = some (.done (.ok r)) := by
  have hprogress : .returned c a id r ∈ work.progress cause n.id work' := by
    simp only [notes, List.mem_append] at h
    rcases h with (((h | h) | h) | h) | h
    · simp only [conclusion, Creation.notes] at h
      split at h
      · split at h
        · cases h
        · cases List.mem_singleton.1 h
        · cases h
      · cases h
    · simp only [answers, Event.notes] at h
      split at h
      · split at h
        · cases List.mem_singleton.1 h
        · cases h
      · cases h
    · obtain ⟨s, -, heq⟩ := List.mem_map.1 h
      cases heq
    · exact h
    · rcases mem_sight h with ⟨head, heq⟩ | ⟨chosen, heq⟩ <;> cases heq
  rw [progress] at hprogress
  split at hprogress
  · next q q' hq hq' =>
    simp only [Query.notes] at hprogress
    split at hprogress
    · cases List.mem_singleton.1 hprogress
    · next r' =>
      rw [Option.mem_toList, Option.map_eq_some_iff] at hprogress
      obtain ⟨id', hid, heq⟩ := hprogress
      cases heq
      exact ⟨rfl, rfl, q, hq, hid, hq'⟩
    · cases hprogress
  · cases hprogress

/-- A query that returns a response takes its token off the outcomes. -/
theorem Query.Move.tokens_picks {s s' : Site σ} {q : Query} {id : Uuid} {r : Message}
    (h : Query.Move s q (.done (.ok (some r))) s') (hid : q.id? = some id) :
    q.token = 0 ∧ s.tokens = (id, .returning r) ::ₘ s'.tokens := by
  generalize hq' : Query.done (.ok (some r)) = q' at h
  cases h with
  | @picks q id' reply hq hr =>
    have hsame : id' = id ∧ q.token = 0 := by
      rcases hq with rfl | ⟨deadline, rfl⟩
      · exact ⟨Option.some.inj hid, rfl⟩
      · exact ⟨Option.some.inj hid, rfl⟩
    obtain ⟨rfl, htoken⟩ := hsame
    cases reply with
    | gone => cases hq'
    | answer m =>
      cases hq'
      refine ⟨htoken, ?_⟩
      rw [Site.tokens, Measure.site, tokens.replies_eq hr, add_assoc]
      rfl
  | rests => subst hq'; cases hid
  | enters | unaddressed | written | unwritten | expires | late => cases hq'

/-- The query that a creation waits for goes on. -/
theorem Creation.Move.query {s s' : Site σ} {c c' : Creation} {q q' : Query}
    (h : Creation.Move s c c' s') (hq : c.query? = some q) (hq' : c'.query? = some q') :
    Query.Move s q q' s' ∧ c.token = q.token ∧ c'.token = q'.token := by
  cases h with
  | refuses hc => rcases hc with rfl | rfl <;> cases hq
  | sends haim => cases haim <;> cases hq
  | leads | refreshes | starts => cases hq
  | asks hdone hmove =>
    cases hq
    cases hq'
    exact ⟨hmove, rfl, rfl⟩
  | concludes => cases hq'
  | rests => cases hq

/-- The query that a task waits for returns a response. -/
theorem Work.Move.tokens_picks {s s' : Site σ} {t : Task} {work work' : Work} {cause c : Cause}
    {a : String} {id : Uuid} {r : Message} (hmove : Work.Move s work work' s') (ht : t.Does work)
    (hret : .returned c a id (some r) ∈ work.notes cause s.node s'.node work') :
    (∀ other, story (work.notes cause s.node s'.node work') other = []) ∧
      tokens.amount s.node.id t work + s.tokens =
        (id, .returning r) ::ₘ (tokens.amount s.node.id t work' + s'.tokens) := by
  obtain ⟨-, -, q, hq, hid, hq'⟩ := Work.of_mem_returned hret
  have hprogress : ∀ other, story (work.progress cause s.node.id work') other = [] := by
    intro other
    refine story_eq_nil (fun n hn => ?_) other
    simp only [progress, hq, hq'] at hn
    exact Query.subject?_notes (by simp) n hn
  have hstory : work.answers work' = [] →
      ∀ other, story (work.notes cause s.node s'.node work') other = [] := by
    intro hanswers other
    rw [Work.story_notes, hanswers, hprogress]
    rfl
  cases hmove with
  | query hmove =>
    cases hq
    cases hq'
    obtain ⟨htoken, hs⟩ := hmove.tokens_picks hid
    refine ⟨hstory rfl, ?_⟩
    cases t with
    | job n =>
      change q.token + s.tokens = _ ::ₘ (0 + s'.tokens)
      rw [htoken, hs, zero_add, zero_add]
    | drain | follow | publish => cases ht
  | creation hmove =>
    obtain ⟨hquery, hc, hc'⟩ := hmove.query hq hq'
    obtain ⟨htoken, hs⟩ := hquery.tokens_picks hid
    refine ⟨hstory rfl, ?_⟩
    cases t with
    | job n =>
      change Creation.token _ + s.tokens = _ ::ₘ (Creation.token _ + s'.tokens)
      rw [hc, hc', htoken, hs, zero_add]
      exact congrArg _ (zero_add _).symm
    | drain | follow | publish => cases ht
  | dispatch hmove =>
    cases hmove with
    | @creates ticket e c c' rest s' hc hmove =>
      obtain ⟨hquery, htoken, htoken'⟩ := hmove.query hq hq'
      obtain ⟨hnone, hs⟩ := hquery.tokens_picks hid
      refine ⟨hstory e.notes_self, ?_⟩
      cases t with
      | drain place queue =>
        change e.token s.node.id + c.token + s.tokens =
          _ ::ₘ (e.token s.node.id + c'.token + s'.tokens)
        rw [htoken, htoken', hnone, hs, ← Multiset.add_cons]
        rfl
      | job | follow | publish => cases ht
    | opens | ends | records | stores | ignores | starts | places | resumes | answers | rests =>
      cases hq

omit [FaithfulTransport σ] in
/-- The cause of what a task does stays the same as long as there is something to do. -/
theorem Work.Move.cause [Transport σ] {s s' : Site σ} {work work' : Work} {t : Task}
    (hmove : Work.Move s work work' s') :
    work' = .dispatch .done ∨ t.cause work' = t.cause work := by
  cases hmove with
  | query | creation => cases t <;> exact .inr rfl
  | @dispatch d d' _ hmove =>
    have hcause : ∀ {d' : Dispatch} {e e' : Event}, d.event? = some e → d'.event? = some e' →
        e'.message = e.message → t.cause (.dispatch d') = t.cause (.dispatch d) := by
      intro d' e e' he he' hm
      have hd : d'.cause = d.cause := by simp [Dispatch.cause, he, he', hm]
      cases t <;> exact hd
    cases hmove with
    | opens | stores | ignores | places | creates => exact .inr (hcause rfl rfl rfl)
    | records label answers =>
      exact .inr (hcause rfl rfl (Event.answered_answerAll _ answers).message)
    | starts | resumes => exact .inr (hcause rfl rfl (Event.answered_answerWith _ _).message)
    | ends =>
      split
      · exact .inr (hcause rfl rfl rfl)
      · exact .inl rfl
    | answers | rests => exact .inl rfl

omit [FaithfulTransport σ] in
theorem Work.Move.cause_of_query [Transport σ] {s s' : Site σ} {work work' : Work} {q : Query}
    {t : Task} (hmove : Work.Move s work work' s') (hq : work'.query? = some q) :
    t.cause work' = t.cause work := by
  rcases hmove.cause with rfl | hcause
  · cases hq
  · exact hcause

omit [FaithfulTransport σ] in
/-- Where the query comes from that a task waits for. -/
theorem Work.Move.awaited [Transport σ] {s s' : Site σ} {work work' : Work} {q' : Query}
    (hmove : Work.Move s work work' s') (hq' : work'.query? = some q') :
    (∃ m timeout, q' = .opening m timeout) ∨
      ∃ q, work.query? = some q ∧ Query.Move s q q' s' := by
  have hcreation : ∀ {c c' : Creation} {s' : Site σ}, Creation.Move s c c' s' →
      c'.query? = some q' → (∃ m timeout, q' = .opening m timeout) ∨
        ∃ q, c.query? = some q ∧ Query.Move s q q' s' := by
    intro c c' s' hmove hc'
    cases hmove with
    | refuses | leads | refreshes | starts | concludes | rests => cases hc'
    | sends =>
      rcases Creation.query?_ask _ _ _ _ with hnone | ⟨m, timeout, hopening⟩
      · rw [hnone] at hc'
        cases hc'
      · rw [hopening] at hc'
        exact .inl ⟨m, timeout, (Option.some.inj hc').symm⟩
    | asks hdone hmove =>
      cases hc'
      exact .inr ⟨_, rfl, hmove⟩
  cases hmove with
  | query hmove =>
    cases hq'
    exact .inr ⟨_, rfl, hmove⟩
  | creation hmove => exact hcreation hmove hq'
  | dispatch hmove =>
    cases hmove with
    | creates hc hmove => exact hcreation hmove hq'
    | ends =>
      split at hq'
      · cases hq'
      · cases hq'
    | places | opens | records | stores | ignores | starts | resumes | answers | rests => cases hq'

/-- Whoever waits for a query that has been sent waited for it before, or sends it now. -/
theorem Work.Move.sent {s s' : Site σ} {work work' : Work} {q' : Query} {id : Uuid}
    (hmove : Work.Move s work work' s') (hq' : work'.query? = some q') (hid : q'.id? = some id)
    (cause : Cause) : (∃ q, work.query? = some q ∧ q.id? = some id) ∨ ∃ target m,
      .asked cause s.node.id id target m ∈ work.notes cause s.node s'.node work' := by
  rcases hmove.awaited hq' with ⟨m, timeout, rfl⟩ | ⟨q, hq, hquery⟩
  · cases hid
  · cases hquery with
    | @enters m timeout target =>
      cases hid
      refine .inr ⟨target, m.intoQuery (.fresh s.drawn), ?_⟩
      have hprogress : work.progress cause s.node.id work' =
          [.asked cause s.node.id (.fresh s.drawn) target (m.intoQuery (.fresh s.drawn))] := by
        simp [progress, hq, hq', Query.notes]
      simp [notes, hprogress]
    | written | late | rests => exact .inl ⟨_, hq, hid⟩
    | @picks q id' r => cases r <;> cases hid
    | unaddressed | unwritten | expires => cases hid

/-- A query that has returned a response had done so before, or this is noted now. -/
theorem Work.Move.noted {s s' : Site σ} {work work' : Work} {r : Message}
    (hmove : Work.Move s work work' s') (hq' : work'.query? = some (.done (.ok (some r))))
    (cause : Cause) :
    work.query? = some (.done (.ok (some r))) ∨
      ∃ id, .returned cause s.node.id id (some r) ∈ work.notes cause s.node s'.node work' := by
  rcases hmove.awaited hq' with ⟨m, timeout, hopening⟩ | ⟨q, hq, hquery⟩
  · cases hopening
  · have hid : q = .done (.ok (some r)) ∨ ∃ id, q.id? = some id := by
      generalize hdone : Query.done (.ok (some r)) = q'' at hquery
      cases hquery with
      | picks hwaits hr =>
        rcases hwaits with rfl | ⟨deadline, rfl⟩
        · exact .inr ⟨_, rfl⟩
        · exact .inr ⟨_, rfl⟩
      | rests => exact .inl rfl
      | enters | unaddressed | written | unwritten | expires | late => cases hdone
    rcases hid with rfl | ⟨id, hid⟩
    · exact .inl hq
    · refine .inr ⟨id, ?_⟩
      have hprogress : work.progress cause s.node.id work' =
          [.returned cause s.node.id id (some r)] := by
        cases q with
        | waiting | overdue => simp_all [progress, Query.notes]
        | writing => simp_all [progress, Query.notes]
        | opening | done => cases hid
      simp [notes, hprogress]

/-! ### Correlated histories -/

/-- A query that has returned a response: nothing of it is on its way any more, its story is that of
a query that was taken up, and the response is the one that belongs to the story. -/
def Returned (T : Multiset (Uuid × Token)) (notes : List Note) (c : Cause) (a : String) (id : Uuid)
    (r : Message) : Prop :=
  (∀ tok, (id, tok) ∉ T) ∧ ∃ b m response, m.IsQuery id ∧
    story notes id = takenStory c a id b m response ∧ r = m.responseFor b (response.getD [])

/-- What holds of every history that draws no identifier twice. -/
structure Correlated (h : History σ) : Prop where
  coherent : Coherent h.cluster.boxes (tokens.cluster h.cluster) h.notes h.cluster.drawn
  /-- Who waits for a query has sent it. -/
  sent : ∀ t a work q id, h.cluster.activity? t = some (a, work) → work.query? = some q →
    q.id? = some id → ∃ target m, .asked (t.cause work) a id target m ∈ h.notes
  /-- What a query has returned is noted. -/
  noted : ∀ t a work r, h.cluster.activity? t = some (a, work) →
    work.query? = some (.done (.ok (some r))) →
      ∃ id, .returned (t.cause work) a id (some r) ∈ h.notes
  returned : ∀ c a id r, .returned c a id (some r) ∈ h.notes →
    Returned (tokens.cluster h.cluster) h.notes c a id r

theorem asked_mem_story {c : Cause} {a target : String} {id : Uuid} {m : Message}
    {notes : List Note} (h : .asked c a id target m ∈ notes) :
    .asked c a id target m ∈ story notes id :=
  List.mem_filter.2 ⟨h, by simp [Note.subject?]⟩

theorem asked_mem_takenStory {c c' : Cause} {a a' b target : String} {id : Uuid} {m m' : Message}
    {response : Option Bytes}
    (h : .asked c' a' id target m' ∈ takenStory c a id b m response) :
    c' = c ∧ a' = a ∧ target = b ∧ m' = m := by
  cases response <;> simpa [takenStory] using h

theorem takenStory_ne_nil {c : Cause} {a b : String} {id : Uuid} {m : Message}
    {response : Option Bytes} : takenStory c a id b m response ≠ [] := by
  simp [takenStory]

omit [FaithfulTransport σ] in
theorem Query.mem_token {q : Query} {x : Uuid × Token} (h : x ∈ q.token) :
    ∃ target m, x.2 = .writing target m := by
  cases q with
  | writing id target m timeout =>
    obtain rfl := Multiset.mem_singleton.1 h
    exact ⟨target, m, rfl⟩
  | opening | waiting | overdue | done => exact absurd h (Multiset.notMem_zero x)

omit [FaithfulTransport σ] in
theorem Creation.mem_token {c : Creation} {x : Uuid × Token} (h : x ∈ c.token) :
    ∃ target m, x.2 = .writing target m := by
  rw [token] at h
  cases hq : c.query? with
  | none =>
    rw [hq] at h
    exact absurd h (Multiset.notMem_zero x)
  | some q =>
    rw [hq] at h
    exact Query.mem_token h

/-- The token of a query whose work is under way does not travel. -/
theorem not_travelling_of_mem_job {n k : Nat} {work : Work} {x : Uuid × Token} {m : Message}
    (hx : x ∈ tokens.job n work) : x.2 ≠ .travelling k m := by
  cases work with
  | query q =>
    obtain ⟨target, m', h⟩ := Query.mem_token hx
    simp [h]
  | creation c =>
    obtain ⟨target, m', h⟩ := Creation.mem_token hx
    simp [h]
  | dispatch d => exact absurd hx (Multiset.notMem_zero x)

/-- Neither does that of a query that a node works on, or of one that is sent for it. -/
theorem not_travelling_of_mem_dispatch {a : String} {k : Nat} {d : Dispatch} {x : Uuid × Token}
    {m : Message} (hx : x ∈ tokens.dispatch a d) : x.2 ≠ .travelling k m := by
  rcases Multiset.mem_add.1 hx with hx | hx
  · cases he : d.event? with
    | none =>
      rw [he] at hx
      exact absurd hx (Multiset.notMem_zero x)
    | some e =>
      rw [he, Option.elim_some, Event.token] at hx
      split at hx
      · simp [Multiset.mem_singleton.1 hx]
      · exact absurd hx (Multiset.notMem_zero x)
  · cases hc : d.creation? with
    | none =>
      rw [hc] at hx
      exact absurd hx (Multiset.notMem_zero x)
    | some c =>
      rw [hc] at hx
      obtain ⟨target, m', h⟩ := Creation.mem_token hx
      simp [h]

/-- A token that travels does so with its message. -/
theorem eq_of_mem_letter {k k' : Nat} {x : Uuid × Token} {m m' : Message}
    (hx : x ∈ tokens.letter k' m') (h : x.2 = .travelling k m) : k' = k ∧ m' = m := by
  simp only [tokens] at hx
  split at hx
  · obtain rfl := Multiset.mem_singleton.1 hx
    cases h
    exact ⟨rfl, rfl⟩
  · cases hid : m'.correlation with
    | none =>
      rw [hid] at hx
      exact absurd hx (Multiset.notMem_zero x)
    | some id =>
      rw [hid] at hx
      obtain rfl := Multiset.mem_singleton.1 hx
      cases h

/-- A token travels only with a message in transit. -/
theorem mem_transit_of_travelling {w : Cluster σ} {x : Uuid × Token} (hx : x ∈ tokens.cluster w)
    {k : Nat} {m : Message} (h : x.2 = .travelling k m) :
    (k, m) ∈ FaithfulTransport.transit w.links := by
  have hall : ∀ x ∈ tokens.cluster w, x.2 = .travelling k m →
      (k, m) ∈ FaithfulTransport.transit w.links := by
    refine tokens.forall_mem_cluster ?_ ?_ ?_ ?_ ?_
    · intro n work x hx h
      exact absurd h (not_travelling_of_mem_job hx)
    · intro a m' x hx h
      simp only [tokens] at hx
      split at hx
      · obtain rfl := Multiset.mem_singleton.1 hx
        cases h
      · exact absurd hx (Multiset.notMem_zero x)
    · intro a d x hx h
      exact absurd h (not_travelling_of_mem_dispatch hx)
    · intro id r x hx h
      cases r with
      | answer m' =>
        obtain rfl := Multiset.mem_singleton.1 hx
        cases h
      | gone => exact absurd hx (Multiset.notMem_zero x)
    · intro k' m' htransit x hx h
      obtain ⟨rfl, rfl⟩ := eq_of_mem_letter hx h
      exact htransit
  exact hall x hx h

/-- Mailboxes that become those of nodes are empty. -/
theorem Fits.reboxes {boxes boxes' : Nat → String → Prop} {w : Cluster σ} {id : Uuid} {tok : Token}
    {s : List Note} (h : Fits boxes id tok s) (hmem : (id, tok) ∈ tokens.cluster w)
    (hboxes : ∀ k b, boxes' k b → boxes k b ∨ ∀ m, (k, m) ∉ FaithfulTransport.transit w.links) :
    Fits boxes' id tok s := by
  cases tok with
  | writing | waiting | handling | returning => exact h
  | travelling k m =>
    obtain ⟨hm, c, a, b, hstory, hb⟩ := h
    refine ⟨hm, c, a, b, hstory, fun b' hb' => ?_⟩
    rcases hboxes k b' hb' with hold | hnone
    · exact hb b' hold
    · exact absurd (mem_transit_of_travelling hmem rfl) (hnone m)

theorem Coherent.reboxes {boxes boxes' : Nat → String → Prop} {w : Cluster σ} {notes : List Note}
    {drawn : Nat} (h : Coherent boxes (tokens.cluster w) notes drawn)
    (hboxes : ∀ k b, boxes' k b → boxes k b ∨ ∀ m, (k, m) ∉ FaithfulTransport.transit w.links) :
    Coherent boxes' (tokens.cluster w) notes drawn :=
  ⟨h.once, fun id tok hmem => (h.fits id tok hmem).reboxes hmem hboxes, h.drawn⟩

/-- A step that returns a response leaves its query settled. -/
theorem Work.Move.returned {T R : Multiset (Uuid × Token)} {boxes : Nat → String → Prop}
    {notes : List Note} {drawn : Nat} {s s' : Site σ} {t : Task} {work work' : Work} {c : Cause}
    {a : String} {id : Uuid} {r : Message}
    (hcoherent : Coherent boxes T notes drawn) (hmove : Work.Move s work work' s')
    (ht : t.Does work) (hT : T = tokens.amount s.node.id t work + s.tokens + R)
    (hsent : ∀ q id, work.query? = some q → q.id? = some id →
      ∃ target m, .asked (t.cause work) s.node.id id target m ∈ notes)
    (hret : .returned c a id (some r) ∈ work.notes (t.cause work) s.node s'.node work') :
    Returned (tokens.amount s.node.id t work' + s'.tokens + R)
      (work.notes (t.cause work) s.node s'.node work' ++ notes) c a id r := by
  obtain ⟨rfl, rfl, q, hq, hid, -⟩ := Work.of_mem_returned hret
  obtain ⟨hquiet, htokens⟩ := hmove.tokens_picks ht hret
  rw [htokens, Multiset.cons_add] at hT
  have hmem : (id, Token.returning r) ∈ T := hT ▸ Multiset.mem_cons_self _ _
  obtain ⟨c', a', b, m, response, hm, hstory, hr⟩ := hcoherent.fits _ _ hmem
  obtain ⟨target, m', hasked⟩ := hsent q id hq hid
  have hasked' := asked_mem_story hasked
  rw [hstory] at hasked'
  obtain ⟨rfl, rfl, rfl, rfl⟩ := asked_mem_takenStory hasked'
  refine ⟨fun tok htok => ?_, target, m', response, hm, ?_, hr⟩
  · have honce := hcoherent.once
    rw [hT, Multiset.map_cons, Multiset.nodup_cons] at honce
    exact honce.1 (Multiset.mem_map.2 ⟨_, htok, rfl⟩)
  · rw [story_append, hquiet, List.nil_append, hstory]

/-- Where the query comes from that a task waits for after a step of a history. -/
theorem Cluster.Effect.awaited {w w' : Cluster σ} {new : List Note} (heffect : w.Effect new w')
    {t : Task} {a : String} {work : Work} {q : Query} (hwork : w'.activity? t = some (a, work))
    (hq : work.query? = some q) :
    w.activity? t = some (a, work) ∨ (∃ m timeout, q = .opening m timeout) ∨
      ∃ (before : Work) (s s' : Site σ), w.activity? t = some (a, before) ∧ s.node.id = a ∧
        Work.Move s before work s' ∧
          new = before.notes (t.cause before) s.node s'.node work := by
  rcases heffect.activity hwork with hold | hnew | ⟨station, before, s', -, rfl, hold, hmove, hnew⟩
  · exact .inl hold
  · rcases hnew with ⟨d, rfl⟩ | ⟨m, timeout, rfl⟩ | ⟨spec, rfl⟩
    · cases hq
    · exact .inr (.inl ⟨m, timeout, (Option.some.inj hq).symm⟩)
    · cases hq
  · exact .inr (.inr ⟨before, w.site station, s', hold, rfl, hmove, hnew⟩)

/-- What has been noted about queries that returned a response, after a step. -/
theorem Correlated.returned_effect {P : Listeners Handler → Prop} {h : History σ}
    {w' : Cluster σ} {new : List Note} (hw : h.cluster.Sound P) (hc : Correlated h)
    (heffect : h.cluster.Effect new w') (hdrawn : w'.drawn ≤ 2 ^ 128) (c : Cause) (a : String)
    (id : Uuid) (r : Message)
    (hret : .returned c a id (some r) ∈ new ++ h.notes) :
    Returned (tokens.cluster w') (new ++ h.notes) c a id r := by
  rcases List.mem_append.1 hret with hnew | hold
  · cases heffect with
    | @goes t station work work' s' w' hstation hwork hwork' hmove hframe hd hamount =>
      obtain ⟨R, hR, hR'⟩ := hamount tokens
      have hT : tokens.cluster h.cluster =
          tokens.amount station.node.id t work + (h.cluster.site station).tokens + R := hR
      have hreturned := hmove.returned hc.coherent (hw.does hwork) hT
        (fun q id hq hid => hc.sent t _ work q id hwork hq hid) hnew
      rw [hR']
      exact hreturned
    | takes hstation hnone hafter hframe hamount =>
      simp only [Cause.taken] at hnew
      split at hnew
      · cases List.mem_singleton.1 hnew
      · cases hnew
    | begins hstation hnone hafter hframe hnext hnotes hamount =>
      rcases hnotes with ⟨-, rfl⟩ | ⟨spec, -, rfl⟩
      · cases hnew
      · cases List.mem_singleton.1 hnew
    | ends | queues | completes => cases hnew
    | quiet hsame hnotes hamount =>
      obtain ⟨node, s, heq⟩ := hnotes _ hnew
      cases heq
  · obtain ⟨hnone, b, m, response, hm, hstory, hr⟩ := hc.returned c a id r hold
    have hne : story h.notes id ≠ [] := hstory ▸ takenStory_ne_nil
    obtain ⟨hsame, hnone'⟩ := hc.coherent.story_final (heffect.shift hw) hdrawn hnone hne
    exact ⟨hnone', b, m, response, hm, hsame.trans hstory, hr⟩

namespace History

variable {P : Listeners Handler → Prop} {h h' : History σ}

theorem Next.correlated (hnext : Next P h h') (hs : h.cluster.Sound P) (hc : Correlated h)
    (hdrawn : h'.cluster.drawn ≤ 2 ^ 128) : Correlated h' := by
  obtain ⟨new, hnotes, heffect⟩ := hnext.effect hs
  constructor
  · have hcoherent := hc.coherent.shift (heffect.shift hs) hdrawn
    rw [← hnotes] at hcoherent
    exact hcoherent.reboxes fun k b hbox => hnext.boxes hbox
  · intro t a work q id hwork hq hid
    rw [hnotes]
    rcases heffect.awaited hwork hq with
      hold | ⟨m, timeout, rfl⟩ | ⟨before, s, s', hold, rfl, hmove, rfl⟩
    · obtain ⟨target, m, hasked⟩ := hc.sent t a work q id hold hq hid
      exact ⟨target, m, List.mem_append_right _ hasked⟩
    · cases hid
    · rw [hmove.cause_of_query hq]
      rcases hmove.sent hq hid (t.cause before) with ⟨q', hq', hid'⟩ | ⟨target, m, hasked⟩
      · obtain ⟨target, m, hasked⟩ := hc.sent t _ before q' id hold hq' hid'
        exact ⟨target, m, List.mem_append_right _ hasked⟩
      · exact ⟨target, m, List.mem_append_left _ hasked⟩
  · intro t a work r hwork hq
    rw [hnotes]
    rcases heffect.awaited hwork hq with
      hold | ⟨m, timeout, hopening⟩ | ⟨before, s, s', hold, rfl, hmove, rfl⟩
    · obtain ⟨id, hnoted⟩ := hc.noted t a work r hold hq
      exact ⟨id, List.mem_append_right _ hnoted⟩
    · cases hopening
    · rw [hmove.cause_of_query hq]
      rcases hmove.noted hq (t.cause before) with hq' | ⟨id, hnoted⟩
      · obtain ⟨id, hnoted⟩ := hc.noted t _ before r hold hq'
        exact ⟨id, List.mem_append_right _ hnoted⟩
      · exact ⟨id, List.mem_append_left _ hnoted⟩
  · rw [hnotes]
    exact hc.returned_effect hs heffect hdrawn

/-- Identifiers are never given back. -/
theorem Next.drawn_le (hnext : Next P h h') (hs : h.cluster.Sound P) :
    h.cluster.drawn ≤ h'.cluster.drawn := by
  obtain ⟨new, -, heffect⟩ := hnext.effect hs
  cases heffect with
  | goes hstation hwork hwork' hmove hframe hdrawn hamount => exact hframe.drawn
  | takes hstation hnone hafter hframe hamount => exact hframe.drawn
  | begins hstation hnone hafter hframe hnext hnotes hamount => exact hframe.drawn
  | ends hafter hframe hamount => exact hframe.drawn
  | queues hstation hbox hresponse hsame hamount => exact hsame.drawn
  | completes hquery hid hsame hamount => exact hsame.drawn
  | quiet hsame hnew hamount => exact hsame.drawn

theorem Reachable.correlated (hr : Reachable P h) (hdrawn : h.cluster.drawn ≤ 2 ^ 128) :
    Correlated h := by
  induction hr with
  | empty w hstations hjobs htransit hnow =>
    have hnone : tokens.cluster w = 0 := by
      rw [Measure.cluster, hstations, hjobs, Measure.links, htransit]
      rfl
    have hidle := Cluster.activity?_of_empty hstations hjobs
    refine ⟨⟨?_, ?_, ?_⟩, ?_, ?_, ?_⟩
    · dsimp only
      rw [hnone]
      exact Multiset.nodup_zero
    · intro id tok hmem
      dsimp only at hmem
      rw [hnone] at hmem
      exact absurd hmem (Multiset.notMem_zero _)
    · exact fun id hid => absurd rfl hid
    · exact fun t a work q id hwork => absurd hwork (by simp [hidle])
    · exact fun t a work r hwork => absurd hwork (by simp [hidle])
    · exact fun c a id r hret => absurd hret List.not_mem_nil
  | next hr hnext ih =>
    exact hnext.correlated hr.sound (ih ((hnext.drawn_le hr.sound).trans hdrawn)) hdrawn

/-- A query that has returned a response was sent once and taken up once, by the node that it was
sent to; the response comes from that node and carries the id of the query, and its content is the
first answer that a listener gave to this very query, or nothing if none did. -/
theorem response_of_taken (hr : Reachable P h) (hdrawn : h.cluster.drawn ≤ 2 ^ 128) :
    (∀ t a work r, h.cluster.activity? t = some (a, work) →
      work.query? = some (.done (.ok (some r))) →
        ∃ id, .returned (t.cause work) a id (some r) ∈ h.notes) ∧
    ∀ c a id r, .returned c a id (some r) ∈ h.notes →
      ∃ b m response, story h.notes id = takenStory c a id b m response ∧ r.sender = b ∧
        r.correlation = some id ∧ r.content = response.getD [] := by
  have hc := hr.correlated hdrawn
  refine ⟨hc.noted, fun c a id r hret => ?_⟩
  obtain ⟨-, b, m, response, hm, hstory, rfl⟩ := hc.returned c a id r hret
  exact ⟨b, m, response, hstory, rfl, hm.2, rfl⟩

/-- Two nodes, one of which listens on a channel and answers every query twice. -/
def echoing : List (String × UInt64 × Listeners Handler) :=
  [("b", 0, Listeners.empty.register "echo" 0 (.recorder "" [[1], [2]])), ("a", 0, .empty)]

/-- A query from one to the other, from its start until it has returned. -/
def echo : History Network :=
  History.run ⟨((Cluster.gathering echoing).spawn 0 (.query (.opening
      { channel := "echo", sender := "a", targets := [.node "b"], content := [7] } 5000))).2, []⟩
    [.job 0, .job 0, .follow 1, .follow 1, .drain 1 0, .drain 1 0, .drain 1 0, .drain 1 0,
      .drain 1 0, .follow 0, .follow 0, .job 0]

/-- The response with the first answer. -/
def echoed : Message :=
  { channel := "echo", sender := "b", targets := [.node "a"], content := [1],
    correlation := some (.fresh 0) }

theorem first_answer_counts :
    Reachable (fun _ => True) echo ∧ echo.cluster.drawn ≤ 2 ^ 128 ∧
      .returned (.user 0) "a" (.fresh 0) (some echoed) ∈ echo.notes ∧
        ∃ b m response, story echo.notes (.fresh 0) =
            takenStory (.user 0) "a" (.fresh 0) b m response ∧ echoed.sender = b ∧
          echoed.correlation = some (.fresh 0) ∧ echoed.content = response.getD [] := by
  have hgathered : Reachable (fun _ => True) ⟨Cluster.gathering echoing, []⟩ :=
    reachable_gathering (by decide) fun _ _ => trivial
  have hr : Reachable (fun _ => True) echo :=
    Reachable.run (.next hgathered (.ask _ 0 _ rfl _ _)) _
  have hdrawn : echo.cluster.drawn ≤ 2 ^ 128 := by decide +kernel
  have hnoted : echo.notes.head? = some (.returned (.user 0) "a" (.fresh 0) (some echoed)) := by
    decide +kernel
  have hret := List.mem_of_mem_head? hnoted
  exact ⟨hr, hdrawn, hret, (response_of_taken hr hdrawn).2 _ _ _ _ hret⟩

end History

end Fleet
