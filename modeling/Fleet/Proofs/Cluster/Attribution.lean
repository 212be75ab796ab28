import Fleet.Proofs.Cluster.Correlation
import Fleet.Proofs.Cluster.Handling

/-!
# Everything has its cause

What has been noted for a call or for a query is what its task has come to, and a query is worked on
by one task at most. As long as no identifier is drawn twice this holds in every history of nodes
with the standard listeners, so that the tale of a cause says all that was ever done for it.
-/

namespace Fleet

variable {σ : Type} [FaithfulTransport σ]

/-! ### One task for each query -/

/-- The work on a message can be taken out of a cluster. -/
theorem Cluster.exists_idle {w : Cluster σ} {place queue : Nat} {b : String} {d : Dispatch}
    (h : w.activity? (.drain place queue) = some (b, .dispatch d)) :
    ∃ w' : Cluster σ, (∀ t ≠ .drain place queue, w'.activity? t = w.activity? t) ∧
      ∀ {β : Type} (μ : Measure β), μ.cluster w = μ.dispatch b d + μ.cluster w' := by
  obtain ⟨station, hplace, d', hd, heq⟩ : ∃ station, w.stations[place]? = some station ∧
      ∃ d', station.node.current? queue = some d' ∧
        (station.node.id, Work.dispatch d') = (b, .dispatch d) := by
    simpa [activity?, Option.bind_eq_some_iff] using h
  obtain ⟨q, hqueue, hcurrent⟩ := Option.bind_eq_some_iff.1 hd
  cases heq
  have htouches : Touches w (w.put place station ((w.site station).setCurrent queue none)) place
      station { station with node := ((w.site station).setCurrent queue none).node }
      ((w.site station).setCurrent queue none) :=
    ⟨hplace, rfl, keeps_setCurrent _ _ _, rfl, rfl, rfl, rfl, rfl, le_refl _⟩
  have hframe := htouches.frame_drain (d := none) rfl
    (current?_modify ({ · with current := none }) hqueue rfl)
  refine ⟨_, hframe.others, fun μ => ?_⟩
  obtain ⟨R, hR, hR'⟩ := htouches.amount μ
  obtain ⟨S, hS, hS'⟩ := μ.inbound_setCurrent station.node.id none hqueue
  have hnone : μ.current station.node.id none = 0 := rfl
  rw [hcurrent] at hS
  rw [hnone, zero_add] at hS'
  have hnode : μ.node ((w.site station).setCurrent queue none).node =
      S + μ.replies station.node.messenger := by
    rw [← hS']
    rfl
  rw [hR, hR', hnode, Measure.node, hS]
  simp only [Measure.current, Option.elim_some]
  ac_rfl

/-- The work on a query has its token. -/
theorem Dispatch.handling_mem_token {b : String} {d : Dispatch} {e : Event}
    (he : d.event? = some e) (hquery : e.message.query = true) :
    (e.message.queryId, .handling b e.message e.response) ∈ d.token b := by
  rw [token, he]
  refine Multiset.mem_add.2 (.inl ?_)
  simp [Event.token, hquery]

/-- A cause is a query only if its task works on it. -/
theorem Task.event_of_cause {t : Task} {work : Work} {id : Uuid} (h : t.cause work = .query id) :
    ∃ d e, work = .dispatch d ∧ d.event? = some e ∧ e.message.query = true ∧
      e.message.queryId = id := by
  have hdispatch : ∃ d, work = .dispatch d ∧ d.cause = .query id := by
    cases work with
    | query | creation => cases t <;> cases h
    | dispatch d => exact ⟨d, rfl, by cases t <;> exact h⟩
  obtain ⟨d, rfl, hd⟩ := hdispatch
  cases he : d.event? with
  | none => simp [Dispatch.cause, he] at hd
  | some e =>
    refine ⟨d, e, rfl, he, ?_⟩
    simp only [Dispatch.cause, he, Option.map_some, Option.getD_some, Message.cause] at hd
    split at hd
    · next hquery => exact ⟨hquery, Cause.query.inj hd⟩
    · cases hd

theorem Task.eq_of_cause {t : Task} {work : Work} {n : Nat} (h : t.cause work = .call n)
    (ht : t.Does work) : t = .job n ∧ ∃ cr, work = .creation cr := by
  cases work with
  | query => cases t <;> cases h
  | creation cr =>
    cases t with
    | job k =>
      cases h
      exact ⟨rfl, cr, rfl⟩
    | drain | follow | publish => cases ht
  | dispatch d =>
    have hd : d.cause = .call n := by cases t <;> exact h
    rw [Dispatch.cause] at hd
    cases he : d.event? with
    | none => simp [he] at hd
    | some e =>
      simp only [he, Option.map_some, Option.getD_some, Message.cause] at hd
      split at hd <;> cases hd

namespace Correlated

variable {P : Listeners Handler → Prop} {h : History σ}

/-- The work on a query is at the node that the query was sent to. -/
theorem asked_of_handling (hc : Correlated h) (hs : h.cluster.Sound P) {t : Task} {b : String}
    {d : Dispatch} {e : Event} (hd : h.cluster.activity? t = some (b, .dispatch d))
    (he : d.event? = some e) (hquery : e.message.query = true) :
    e.message.IsQuery e.message.queryId ∧
      ∃ c a, .asked c a e.message.queryId b e.message ∈ h.notes := by
  have hdoes := hs.does hd
  cases t with
  | drain place queue =>
    obtain ⟨w', -, hcluster⟩ := Cluster.exists_idle hd
    have hmem : (e.message.queryId, Token.handling b e.message e.response) ∈
        tokens.cluster h.cluster := by
      rw [hcluster]
      exact Multiset.mem_add.2 (.inl (Dispatch.handling_mem_token he hquery))
    obtain ⟨hm, c, a, hstory⟩ := hc.coherent.fits _ _ hmem
    have hasked : .asked c a e.message.queryId b e.message ∈ story h.notes e.message.queryId := by
      rw [hstory]
      simp [takenStory]
    exact ⟨hm, c, a, (List.mem_filter.1 hasked).1⟩
  | job | follow | publish => cases hdoes

/-- Two tasks do not work on the same query. -/
theorem cause_ne (hc : Correlated h) (hs : h.cluster.Sound P) {t t' : Task} (ht : t' ≠ t)
    {b b' : String} {work work' : Work} (hwork : h.cluster.activity? t = some (b, work))
    (hwork' : h.cluster.activity? t' = some (b', work')) {id : Uuid}
    (hcause : t.cause work = .query id) : t'.cause work' ≠ .query id := by
  intro hcause'
  obtain ⟨d, e, rfl, he, hquery, hid⟩ := Task.event_of_cause hcause
  obtain ⟨d', e', rfl, he', hquery', rfl⟩ := Task.event_of_cause hcause'
  have hdoes := hs.does hwork
  have hdoes' := hs.does hwork'
  cases t with
  | drain place queue =>
    cases t' with
    | drain place' queue' =>
      obtain ⟨w₁, hothers, hcluster⟩ := Cluster.exists_idle hwork
      obtain ⟨w₂, -, hcluster'⟩ := Cluster.exists_idle ((hothers _ ht).trans hwork')
      have honce := hc.coherent.once
      rw [hcluster, hcluster'] at honce
      have hmem := Multiset.mem_map_of_mem Prod.fst (Dispatch.handling_mem_token (b := b) he hquery)
      have hmem' := Multiset.mem_map_of_mem Prod.fst
        (Dispatch.handling_mem_token (b := b') he' hquery')
      rw [Multiset.map_add, Multiset.map_add, Multiset.nodup_add] at honce
      refine Multiset.disjoint_left.1 honce.2.2 hmem (Multiset.mem_add.2 (.inl ?_))
      dsimp only at hmem' ⊢
      rw [hid]
      exact hmem'
    | job | follow | publish => cases hdoes'
  | job | follow | publish => cases hdoes

end Correlated

/-! ### What is told about activities and causes -/

/-- What has been noted for the cause of some work is what the work has come to. -/
def Work.Told (b : String) (T : List Note) : Cause → Work → Prop
  | .call n, .creation cr => cr.Called n b T
  | .query id, .dispatch d => ∃ m : Message, m.IsQuery id ∧ d.Told b id m T
  | .other, .dispatch d => d.creation? = none
  | .user _, .query _ => True
  | _, _ => False

/-- Work that nobody asked for starts and places nothing. -/
theorem Dispatch.Move.idle {s s' : Site σ} {d d' : Dispatch} (hmove : Dispatch.Move s d d' s')
    (hcause : d.cause = .other) (hnone : d.creation? = none) : d'.creation? = none := by
  cases hmove with
  | places hspec =>
    have hquery := (ofBytes?_of_request? hspec).1
    simp [cause, event?, Message.cause, hquery] at hcause
  | creates => cases hnone
  | ends => split <;> rfl
  | opens | records | stores | ignores | starts | resumes | answers | rests => rfl

/-- Work that nobody asked for notes services that it starts, if anything. -/
theorem Dispatch.notes_other {n n' : Node} {d d' : Dispatch} {x : Note}
    (hcause : d.cause = .other) (hnone : d.creation? = none)
    (hx : x ∈ (Work.dispatch d).notes .other n n' (.dispatch d')) :
    ∃ s, x = .started .other n.id s := by
  rw [Work.notes_listening (.inl hnone)] at hx
  rcases List.mem_append.1 hx with hx | hx
  · rw [Work.answers] at hx
    split at hx
    · next e e' he he' =>
      have hevent : d.event? = some e := he
      have hd : d.cause = e.message.cause := by simp [Dispatch.cause, hevent]
      rw [Event.notes] at hx
      split at hx
      · next hquery _ _ =>
        rw [hd, hquery] at hcause
        cases hcause
      · cases hx
    · cases hx
  · obtain ⟨s, -, rfl⟩ := List.mem_map.1 hx
    exact ⟨s, rfl⟩

/-- Whatever a task does, the tale of its cause says what it has come to. -/
theorem Work.Move.told {s s' : Site σ} {t : Task} {work work' : Work} {T : List Note}
    (hmove : Work.Move s work work' s')
    (hT : work.Told s.node.id T (t.cause work))
    (hn : s.node.Sound Listeners.Standard s.drawn) (hnow : s.now.Regular)
    (hdrawn : s'.drawn ≤ 2 ^ 128) :
    work'.Told s.node.id (work.notes (t.cause work) s.node s'.node work' ++ T)
      (t.cause work) := by
  cases hmove with
  | query hmove => cases t <;> trivial
  | @creation cr cr' _ hmove =>
    obtain ⟨n, hcause⟩ : ∃ n, t.cause (.creation cr) = .call n := by cases t <;> exact ⟨_, rfl⟩
    rw [hcause] at hT ⊢
    exact hmove.called hT hn hnow hdrawn
  | @dispatch d d' _ hmove =>
    have hcause : t.cause (.dispatch d) = d.cause := by cases t <;> rfl
    rw [hcause] at hT ⊢
    cases hd : d.cause with
    | query id =>
      rw [hd] at hT
      obtain ⟨m, hm, htold⟩ := hT
      exact ⟨m, hm, hmove.told hm htold hn hnow hdrawn⟩
    | other =>
      rw [hd] at hT
      exact hmove.idle hd hT
    | call | user =>
      rw [hd] at hT
      cases hT

/-- What has been noted for a cause is what was done for a call or a query that there is, or
services that callers have started themselves. -/
def Recorded (notes : List Note) (nextJob : Nat) : Cause → Prop
  | .call n => n < nextJob ∧ ∃ a cr, Creation.Called n a cr (tale notes (.call n))
  | .query id => ∃ c a b m d, .asked c a id b m ∈ notes ∧ m.IsQuery id ∧
      Dispatch.Told b id m d (tale notes (.query id))
  | .other => ∀ x ∈ tale notes .other, ∃ a s, x = .started .other a s
  | .user _ => True

/-- What holds of the causes in every history that draws no identifier twice. -/
structure Attributed (h : History σ) : Prop where
  active : ∀ t a work, h.cluster.activity? t = some (a, work) →
    work.Told a (tale h.notes (t.cause work)) (t.cause work)
  recorded : ∀ c, tale h.notes c ≠ [] → Recorded h.notes h.cluster.nextJob c

/-- What is told about causes other than calls and queries does not depend on their tale. -/
theorem Work.Told.congr {a : String} {T T' : List Note} {c : Cause} {work : Work}
    (h : work.Told a T c) (hcall : ∀ n, c = .call n → T' = T)
    (hquery : ∀ id, c = .query id → T' = T) : work.Told a T' c := by
  cases c with
  | call n => exact hcall n rfl ▸ h
  | query id => exact hquery id rfl ▸ h
  | user | other => cases work <;> exact h

theorem Recorded.append {notes new : List Note} {nextJob nextJob' : Nat} {c : Cause}
    (h : Recorded notes nextJob c) (htale : tale (new ++ notes) c = tale notes c)
    (hnext : nextJob ≤ nextJob') : Recorded (new ++ notes) nextJob' c := by
  cases c with
  | call n =>
    obtain ⟨hn, a, cr, hcalled⟩ := h
    exact ⟨by omega, a, cr, htale ▸ hcalled⟩
  | query id =>
    obtain ⟨c, a, b, m, d, hasked, hm, htold⟩ := h
    exact ⟨c, a, b, m, d, List.mem_append_right _ hasked, hm, htale ▸ htold⟩
  | other =>
    intro x hx
    rw [htale] at hx
    exact h x hx
  | user => trivial

namespace Attributed

variable {h : History σ} {w' : Cluster σ} {new : List Note}

omit [FaithfulTransport σ] in
/-- A step that touches one task and adds to one tale, which is that of no other task. -/
theorem touch (ha : Attributed h) {t : Task} {c : Cause}
    (hothers : ∀ t' ≠ t, w'.activity? t' = h.cluster.activity? t')
    (hnext : h.cluster.nextJob ≤ w'.nextJob) (hnew : ∀ x ∈ new, x.cause = c)
    (hactive : ∀ a work, w'.activity? t = some (a, work) →
      work.Told a (tale (new ++ h.notes) (t.cause work)) (t.cause work))
    (hrecorded : new ≠ [] → Recorded (new ++ h.notes) w'.nextJob c)
    (hapart : new ≠ [] → (∃ n, c = .call n) ∨ (∃ id, c = .query id) →
      ∀ t' a work, t' ≠ t → h.cluster.activity? t' = some (a, work) → t'.cause work ≠ c) :
    Attributed ⟨w', new ++ h.notes⟩ := by
  have htale : ∀ c', (c' = c → new = []) → tale (new ++ h.notes) c' = tale h.notes c' := by
    intro c' hc'
    by_cases heq : c' = c
    · rw [hc' heq, List.nil_append]
    · exact tale_append_of_ne fun x hx hcause => heq ((hcause.symm.trans (hnew x hx)))
  constructor
  · intro t' a work hwork
    dsimp only at hwork ⊢
    by_cases ht : t' = t
    · subst ht
      exact hactive a work hwork
    · rw [hothers t' ht] at hwork
      refine (ha.active t' a work hwork).congr (fun n hn => htale _ fun heq => ?_)
        fun id hid => htale _ fun heq => ?_
      · by_contra hne
        exact hapart hne (.inl ⟨n, heq.symm.trans hn⟩) t' a work ht hwork heq
      · by_contra hne
        exact hapart hne (.inr ⟨id, heq.symm.trans hid⟩) t' a work ht hwork heq
  · intro c' hc'
    by_cases heq : c' = c ∧ new ≠ []
    · obtain ⟨rfl, hne⟩ := heq
      exact hrecorded hne
    · have hsame := htale c' fun hcc => by
        by_contra hne
        exact heq ⟨hcc, hne⟩
      dsimp only at hc' ⊢
      rw [hsame] at hc'
      exact (ha.recorded c' hc').append hsame hnext

/-- What is recorded of the cause of an activity that goes on. -/
theorem recorded_goes (ha : Attributed h) (hs : h.cluster.Sound Listeners.Standard)
    (hc : Correlated h) {t : Task} {station : Station} {work work' : Work} {s' : Site σ}
    (hstation : station ∈ h.cluster.stations)
    (hwork : h.cluster.activity? t = some (station.node.id, work))
    (hmove : Work.Move (h.cluster.site station) work work' s') (hdrawn : s'.drawn ≤ 2 ^ 128)
    (htale : tale (new ++ h.notes) (t.cause work) = new ++ tale h.notes (t.cause work))
    (hnew : new = work.notes (t.cause work) station.node s'.node work')
    (hnext : h.cluster.nextJob ≤ w'.nextJob) :
    Recorded (new ++ h.notes) w'.nextJob (t.cause work) := by
  have hn := hs.stations station hstation
  have hT := ha.active t _ work hwork
  cases hcause : t.cause work with
  | call n =>
    have htold := hmove.told hT hn hs.now hdrawn
    obtain ⟨rfl, cr, rfl⟩ := Task.eq_of_cause hcause (hs.does hwork)
    rw [hcause] at htold htale hnew
    cases hmove with
    | @creation _ cr' =>
      refine ⟨?_, station.node.id, cr', ?_⟩
      · obtain ⟨j, hj, -⟩ := Option.bind_eq_some_iff.1 hwork
        exact (hs.jobs n j hj).number.trans_le hnext
      · rw [htale, hnew]
        exact htold
  | query id =>
    obtain ⟨d, e, rfl, he, hquery, rfl⟩ := Task.event_of_cause hcause
    obtain ⟨hm, c, a, hasked⟩ := hc.asked_of_handling hs hwork he hquery
    rw [hcause] at hT htale hnew
    obtain ⟨m, hm', htold⟩ := hT
    obtain rfl := htold.message he
    cases hmove with
    | @dispatch _ d' _ hmove =>
      refine ⟨c, a, station.node.id, e.message, d', List.mem_append_right _ hasked, hm, ?_⟩
      rw [htale, hnew]
      exact hmove.told hm htold hn hs.now hdrawn
  | other =>
    intro x hx
    rw [hcause] at hT htale hnew
    rw [htale] at hx
    rcases List.mem_append.1 hx with hx | hx
    · cases work with
      | dispatch d =>
        cases hmove with
        | dispatch hmove =>
          rw [hnew] at hx
          have hd : d.cause = .other := by cases t <;> exact hcause
          obtain ⟨s, heq⟩ := Dispatch.notes_other hd hT hx
          exact ⟨_, s, heq⟩
      | query | creation => cases hT
    · exact ha.recorded .other (List.ne_nil_of_mem hx) x hx
  | user => trivial

/-- An activity that goes on. -/
theorem goes (ha : Attributed h) (hs : h.cluster.Sound Listeners.Standard) (hc : Correlated h)
    {t : Task} {station : Station} {work work' : Work} {s' : Site σ}
    (hstation : station ∈ h.cluster.stations)
    (hwork : h.cluster.activity? t = some (station.node.id, work))
    (hwork' : w'.activity? t = some (station.node.id, work'))
    (hmove : Work.Move (h.cluster.site station) work work' s') (hframe : h.cluster.Frame t w')
    (hdrawn : s'.drawn ≤ 2 ^ 128) :
    Attributed ⟨w', work.notes (t.cause work) station.node s'.node work' ++
      h.notes⟩ := by
  have hn := hs.stations station hstation
  have hT := ha.active t _ work hwork
  have htold := hmove.told hT hn hs.now hdrawn
  have hnew : ∀ x ∈ work.notes (t.cause work) station.node s'.node work',
      x.cause = t.cause work := fun x hx => Work.cause_notes hx
  have htale := tale_append_of_cause h.notes hnew
  refine ha.touch hframe.others hframe.nextJob hnew ?_ ?_ ?_
  · intro a after hafter
    rw [hwork'] at hafter
    cases hafter
    rcases hmove.cause with rfl | hcause
    · cases t <;> rfl
    · rw [hcause, htale]
      exact htold
  · intro _
    exact ha.recorded_goes hs hc hstation hwork hmove hdrawn htale rfl hframe.nextJob
  · intro hne hkind t' a other ht' hother hcause
    rcases hkind with ⟨n, hcall⟩ | ⟨id, hquery⟩
    · rw [hcall] at hcause
      obtain ⟨rfl, -⟩ := Task.eq_of_cause hcall (hs.does hwork)
      exact ht' (Task.eq_of_cause hcause (hs.does hother)).1
    · rw [hquery] at hcause
      exact hc.cause_ne hs ht' hwork hother hquery hcause

/-- A query that waits at a node has been taken up by nobody. -/
theorem tale_eq_nil (ha : Attributed h) (hc : Correlated h) {b : String} {m : Message}
    (hmem : (m.queryId, .waiting b m) ∈ tokens.cluster h.cluster) :
    tale h.notes (.query m.queryId) = [] ∧ m.IsQuery m.queryId ∧
      ∃ c a, .asked c a m.queryId b m ∈ h.notes := by
  obtain ⟨hm, c, a, hstory⟩ := hc.coherent.fits _ _ hmem
  refine ⟨?_, hm, c, a, ?_⟩
  · by_contra hne
    obtain ⟨-, -, b', m', d, -, -, htold⟩ := ha.recorded _ hne
    have htaken : .taken b' m.queryId ∈ story h.notes m.queryId := by
      refine List.mem_filter.2 ⟨(mem_tale_iff.1 htold.taken_mem).1, ?_⟩
      simp [Note.subject?]
    rw [hstory] at htaken
    cases List.mem_singleton.1 htaken
  · have hasked : .asked c a m.queryId b m ∈ story h.notes m.queryId := by
      rw [hstory]
      exact List.mem_singleton_self _
    exact (List.mem_filter.1 hasked).1

omit [FaithfulTransport σ] in
theorem cause_of_mem_taken {b : String} {c : Cause} {x : Note} (hx : x ∈ c.taken b) :
    x.cause = c := by
  simp only [Cause.taken] at hx
  split at hx
  · rw [List.mem_singleton.1 hx]
    rfl
  · cases hx

/-- A query that is taken up was sent to the node, and this is all that is noted for it. -/
theorem opening (ha : Attributed h) (hc : Correlated h) {b : String} {m : Message}
    {R : Multiset (Uuid × Token)} (hparked : tokens.cluster h.cluster = tokens.parked b m + R)
    {id : Uuid} (hid : m.cause = .query id) :
    m.IsQuery id ∧ tale (m.cause.taken b ++ h.notes) m.cause = [.taken b id] ∧
      ∃ c a, .asked c a id b m ∈ h.notes := by
  have hquery : m.query = true ∧ m.queryId = id := by
    rw [Message.cause] at hid
    split at hid
    · next hquery => exact ⟨hquery, Cause.query.inj hid⟩
    · cases hid
  obtain ⟨hquery, rfl⟩ := hquery
  have hmem : (m.queryId, .waiting b m) ∈ tokens.cluster h.cluster := by
    rw [hparked]
    simp [tokens, hquery]
  obtain ⟨hnone, hm, hasked⟩ := ha.tale_eq_nil hc hmem
  refine ⟨hm, ?_, hasked⟩
  rw [tale_append_of_cause h.notes fun x => cause_of_mem_taken, hid, hnone]
  rfl

/-- A message is taken up. -/
theorem takes (ha : Attributed h) (hc : Correlated h) {t : Task} {b : String} {d : Delivery}
    {R : Multiset (Uuid × Token)} (hs' : w'.Sound Listeners.Standard)
    (hc' : Correlated ⟨w', d.message.cause.taken b ++ h.notes⟩)
    (hwork' : w'.activity? t = some (b, .dispatch (.opening d))) (hframe : h.cluster.Frame t w')
    (hparked : tokens.cluster h.cluster = tokens.parked b d.message + R) :
    Attributed ⟨w', d.message.cause.taken b ++ h.notes⟩ := by
  have hcause : t.cause (.dispatch (.opening d)) = d.message.cause := by cases t <;> rfl
  refine ha.touch hframe.others hframe.nextJob (fun x => cause_of_mem_taken)
    (fun a work hwork => ?_) (fun hne => ?_) ?_
  · rw [hwork'] at hwork
    cases hwork
    rw [hcause]
    cases hid : d.message.cause with
    | query id =>
      obtain ⟨hm, hsame, -⟩ := ha.opening hc hparked hid
      rw [hid] at hsame
      exact ⟨d.message, hm, hsame ▸ .opening rfl⟩
    | other => rfl
    | call | user =>
      rw [Message.cause] at hid
      split at hid <;> cases hid
  · cases hid : d.message.cause with
    | query id =>
      obtain ⟨hm, hsame, c, a, hasked⟩ := ha.opening hc hparked hid
      rw [hid] at hsame
      exact ⟨c, a, b, d.message, .opening d, List.mem_append_right _ hasked, hm,
        hsame ▸ .opening rfl⟩
    | call | user | other =>
      rw [hid] at hne
      exact absurd rfl hne
  · intro hne hkind t' a work ht' hwork hsame
    rcases hkind with ⟨n, hcall⟩ | ⟨id, hquery⟩
    · rw [hcall] at hne
      exact hne rfl
    · rw [← hframe.others t' ht'] at hwork
      exact hc'.cause_ne hs' ht' hwork' hwork (hcause.trans hquery) (hsame.trans hquery)

/-- A caller gives a job to a node. -/
theorem begins (ha : Attributed h) (hs : h.cluster.Sound Listeners.Standard) {a : String}
    {work : Work} (hwork' : w'.activity? (.job h.cluster.nextJob) = some (a, work))
    (hframe : h.cluster.Frame (.job h.cluster.nextJob) w')
    (hnext : w'.nextJob = h.cluster.nextJob + 1)
    (hnew : (∃ m timeout, work = .query (.opening m timeout)) ∧ new = [] ∨
      ∃ spec, work = .creation (.routing spec) ∧ new = [.called h.cluster.nextJob a spec]) :
    Attributed ⟨w', new ++ h.notes⟩ := by
  have hnone : tale h.notes (.call h.cluster.nextJob) = [] := by
    by_contra hne
    exact lt_irrefl _ (ha.recorded _ hne).1
  have hcause : ∀ x ∈ new, x.cause = .call h.cluster.nextJob := by
    rcases hnew with ⟨-, rfl⟩ | ⟨spec, -, rfl⟩
    · simp
    · intro x hx
      rw [List.mem_singleton.1 hx]
      rfl
  have htale := tale_append_of_cause h.notes hcause
  have hcalled : ∀ spec, new = [.called h.cluster.nextJob a spec] →
      (Creation.routing spec).Called h.cluster.nextJob a
        (tale (new ++ h.notes) (.call h.cluster.nextJob)) := by
    rintro spec rfl
    rw [htale, hnone]
    exact ⟨spec, [], .routing rfl, rfl⟩
  refine ha.touch hframe.others hframe.nextJob hcause (fun b after hafter => ?_) (fun hne => ?_) ?_
  · rw [hwork'] at hafter
    cases hafter
    rcases hnew with ⟨⟨m, timeout, rfl⟩, -⟩ | ⟨spec, rfl, hspec⟩
    · trivial
    · exact hcalled spec hspec
  · rcases hnew with ⟨-, hnil⟩ | ⟨spec, -, hspec⟩
    · exact absurd hnil hne
    · exact ⟨by omega, a, _, hcalled spec hspec⟩
  · intro _ _ t' b other ht' hother hsame
    exact ht' (Task.eq_of_cause hsame (hs.does hother)).1

/-- What is recorded of causes stays true with every step. -/
theorem effect (ha : Attributed h) (hs : h.cluster.Sound Listeners.Standard) (hc : Correlated h)
    (hs' : w'.Sound Listeners.Standard) (hc' : Correlated ⟨w', new ++ h.notes⟩)
    (heffect : h.cluster.Effect new w') (hdrawn : w'.drawn ≤ 2 ^ 128) :
    Attributed ⟨w', new ++ h.notes⟩ := by
  have hquiet : h.cluster.Same w' → (∀ x ∈ new, ∃ a s, x = .started .other a s) →
      Attributed ⟨w', new ++ h.notes⟩ := by
    intro hsame hnew
    have hcause : ∀ x ∈ new, x.cause = .other := by
      intro x hx
      obtain ⟨a, s, rfl⟩ := hnew x hx
      rfl
    refine ha.touch (t := .follow 0) (fun t _ => hsame.activity? t) hsame.nextJob hcause
      (fun a work hwork => by cases hwork) (fun _ x hx => ?_) fun _ hkind => ?_
    · rw [tale_append_of_cause _ hcause] at hx
      rcases List.mem_append.1 hx with hx | hx
      · exact hnew x hx
      · exact ha.recorded .other (List.ne_nil_of_mem hx) x hx
    · rcases hkind with ⟨n, hcall⟩ | ⟨id, hquery⟩
      · cases hcall
      · cases hquery
  cases heffect with
  | goes hstation hwork hwork' hmove hframe hd hamount =>
    exact ha.goes hs hc hstation hwork hwork' hmove hframe (hd ▸ hdrawn)
  | takes hstation hwork hwork' hframe hamount =>
    obtain ⟨R, hR, -⟩ := hamount tokens
    exact ha.takes hc hs' hc' hwork' hframe hR
  | begins hstation hnone hwork' hframe hnext hnew hamount =>
    exact ha.begins hs hwork' hframe hnext hnew
  | @ends t w' hwork' hframe hamount =>
    refine ha.touch (c := .other) hframe.others hframe.nextJob (by simp) (fun a work hwork => ?_)
      (fun hne => absurd rfl hne) fun hne => absurd rfl hne
    rw [hwork'] at hwork
    cases hwork
  | queues hstation hbox hresponse hsame hamount => exact hquiet hsame (by simp)
  | completes hquery hid hsame hamount => exact hquiet hsame (by simp)
  | quiet hsame hnew hamount => exact hquiet hsame hnew

end Attributed

namespace History

variable {h : History σ}

theorem Reachable.attributed (hr : Reachable Listeners.Standard h)
    (hdrawn : h.cluster.drawn ≤ 2 ^ 128) : Attributed h := by
  induction hr with
  | empty w hstations hjobs htransit hnow =>
    have hidle := Cluster.activity?_of_empty hstations hjobs
    exact ⟨fun t a work hwork => absurd hwork (by simp [hidle]), fun c hne => absurd rfl hne⟩
  | @next h h' hr hnext ih =>
    have hold := (hnext.drawn_le hr.sound).trans hdrawn
    have hc' := (Reachable.next hr hnext).correlated hdrawn
    obtain ⟨new, hnotes, heffect⟩ := hnext.effect hr.sound
    obtain ⟨w', notes'⟩ := h'
    dsimp only at hnotes heffect hdrawn
    subst hnotes
    exact (ih hold).effect hr.sound (hr.correlated hold) (hnext.sound hr.sound) hc' heffect hdrawn

end History

end Fleet
