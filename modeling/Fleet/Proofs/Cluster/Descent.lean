import Fleet.Proofs.Cluster.Attribution
import Fleet.Proofs.Member.Head

/-!
# Requests to the head go down

Whatever a node knows of the others, a head that is another node has a smaller id. So a query to the
head that a node sends of its own accord goes to a smaller id than that of its sender, and whoever
works on such a query comes before its sender. None of this needs distinct identifiers.
-/

namespace Fleet

variable {σ : Type} [FaithfulTransport σ]

/-! ### Where tokens come from -/

/-- Every token has a story that was noted, though not everything that was noted about its id need
belong to that story. -/
def Traced (boxes : Nat → String → Prop) (T : Multiset (Uuid × Token)) (notes : List Note) : Prop :=
  ∀ id tok, (id, tok) ∈ T → ∃ s, s ⊆ notes ∧ Fits boxes id tok s

namespace Traced

variable {boxes : Nat → String → Prop} {T T' : Multiset (Uuid × Token)} {notes new : List Note}
  {drawn drawn' : Nat}

theorem append (h : Traced boxes T notes) (new : List Note) : Traced boxes T (new ++ notes) := by
  intro id tok hmem
  obtain ⟨s, hs, hfits⟩ := h id tok hmem
  exact ⟨s, List.subset_append_of_subset_right new hs, hfits⟩

theorem shift (h : Traced boxes T notes) (hshift : Shift boxes T T' new drawn drawn') :
    Traced boxes T' (new ++ notes) := by
  have hstory : ∀ id, story new id ⊆ new ++ notes := fun id =>
    List.subset_append_of_subset_left notes (List.filter_subset_self _)
  intro id tok' hmem
  cases hshift with
  | quiet hle => exact h.append new id tok' (Multiset.mem_of_le hle hmem)
  | @advance other tok next R hT hT' hnew hfit =>
    rcases Multiset.mem_cons.1 (Multiset.mem_of_le hT' hmem) with heq | hR
    · cases heq
      obtain ⟨s, hs, hfits⟩ := h _ tok (Multiset.mem_of_le hT (Multiset.mem_cons_self _ _))
      exact ⟨story new _ ++ s, List.append_subset.2
        ⟨hstory _, List.subset_append_of_subset_right new hs⟩, hfit s hfits⟩
    · exact h.append new id tok' (Multiset.mem_of_le hT (Multiset.mem_cons_of_mem hR))
  | draw hT' hnew hfit =>
    rcases Multiset.mem_cons.1 (Multiset.mem_of_le hT' hmem) with heq | hT
    · cases heq
      exact ⟨story new (.fresh drawn), hstory _, hfit⟩
    · exact h.append new id tok' hT
  | @never other tok hT hfit =>
    obtain ⟨s, -, hfits⟩ := h other tok hT
    exact absurd hfits (hfit s)

end Traced

/-! ### Queries to the head -/

/-- A query to the head that has not been entered goes to one node, with a smaller id than that of
its sender. -/
def Query.Descends : Query → Prop
  | .opening m _ => m.channel = placeChannel → ∃ b, m.targets = [.node b] ∧ b < m.sender
  | _ => True

theorem Query.Move.descends {s s' : Site σ} {q q' : Query} (hmove : Query.Move s q q' s') :
    q'.Descends := by
  cases hmove with
  | enters | unaddressed | written | unwritten | expires | late => trivial
  | @picks q id r => cases r <;> trivial
  | rests hopening =>
    cases q with
    | opening m timeout => exact absurd rfl (hopening m timeout)
    | writing | waiting | overdue | done => trivial

/-- A creation sends queries to the head only downwards. -/
theorem Creation.Move.descends {s s' : Site σ} {c c' : Creation} {q : Query}
    (hmove : Creation.Move s c c' s') (hself : s.node.roster.self.available = true)
    (hq : c'.query? = some q) : q.Descends := by
  cases hmove with
  | refuses | leads | refreshes | starts | concludes | rests => cases hq
  | asks hdone hmove =>
    cases hq
    exact hmove.descends
  | sends haim =>
    rw [ask] at hq
    split at hq
    · next m hm =>
      obtain rfl := Message.new?_eq hm
      cases hq
      intro hplace
      cases haim with
      | forward _ hne => exact ⟨_, rfl, Roster.head_lt hself hne⟩
      | remote =>
        have hstart : startChannel = placeChannel := hplace
        exact absurd hstart (by decide)
    · cases hq

/-- A node sends queries to the head only downwards, unless a caller has it send a query of the
caller's own. -/
theorem Work.Move.descends {s s' : Site σ} {work work' : Work} {q : Query}
    (hmove : Work.Move s work work' s') (hself : s.node.roster.self.available = true)
    (hwork : ∀ q, work' ≠ .query q) (hq : work'.query? = some q) : q.Descends := by
  cases hmove with
  | query => exact absurd rfl (hwork _)
  | creation hmove => exact hmove.descends hself hq
  | dispatch hmove =>
    cases hmove with
    | creates hdone hmove => exact hmove.descends hself hq
    | ends => split at hq <;> cases hq
    | opens | records | stores | ignores | starts | places | resumes | answers | rests => cases hq

omit [FaithfulTransport σ] in
/-- Who leaves a note on a query that is entered. -/
theorem Work.of_mem_asked {cause c : Cause} {n n' : Node} {work work' : Work} {a b : String}
    {id : Uuid} {m : Message}
    (h : .asked c a id b m ∈ work.notes cause n n' work') :
    c = cause ∧ ∃ timeout, work'.query? = some (.writing id b m timeout) := by
  have hstory := asked_mem_story h
  rw [Work.story_notes] at hstory
  rcases List.mem_append.1 hstory with hanswers | hprogress
  · have hmem := (List.mem_filter.1 hanswers).1
    simp only [answers, Event.notes] at hmem
    split at hmem
    · split at hmem
      · cases List.mem_singleton.1 hmem
      · cases hmem
    · cases hmem
  · have hmem := (List.mem_filter.1 hprogress).1
    rw [progress] at hmem
    split at hmem
    · next q q' hq hq' =>
      simp only [Query.notes] at hmem
      split at hmem
      · cases List.mem_singleton.1 hmem
        exact ⟨rfl, _, hq'⟩
      · simp at hmem
      · cases hmem
    · cases hmem

/-- A query to the head that is entered goes to a smaller id than that of its sender. -/
theorem Work.Move.asked_lt {s s' : Site σ} {cause c : Cause} {work work' : Work} {a b : String}
    {id : Uuid} {m : Message} (hmove : Work.Move s work work' s')
    (hdraft : ∀ q, work.query? = some q → q.Descends)
    (h : .asked c a id b m ∈ work.notes cause s.node s'.node work')
    (hplace : m.channel = placeChannel) : b < m.sender := by
  obtain ⟨-, timeout, hq'⟩ := Work.of_mem_asked h
  generalize hwriting : Query.writing id b m timeout = q' at hq'
  rcases hmove.awaited hq' with ⟨_, _, rfl⟩ | ⟨q, hq, hquery⟩
  · cases hwriting
  · cases hquery with
    | enters hfound =>
      cases hwriting
      obtain ⟨b', htargets, hlt⟩ := hdraft _ hq hplace
      rw [htargets] at hfound
      rw [resolve_node hfound]
      exact hlt
    | rests _ hnone => exact absurd hwriting.symm (hnone _ _ _ _)
    | @picks _ _ r => cases r <;> cases hwriting
    | unaddressed | written | unwritten | expires | late => cases hwriting

omit [FaithfulTransport σ] in
theorem Task.cause_query (t : Task) (q : Query) : ∃ k, t.cause (.query q) = .user k := by
  cases t <;> exact ⟨_, rfl⟩

/-- A query is entered by an activity that goes on. -/
theorem Cluster.Effect.of_mem_asked {w w' : Cluster σ} {new : List Note}
    (heffect : w.Effect new w') {c : Cause} {a b : String} {id : Uuid} {m : Message}
    (h : .asked c a id b m ∈ new) :
    ∃ (t : Task) (station : Station) (work work' : Work) (s' : Site σ),
      w.activity? t = some (station.node.id, work) ∧ c = t.cause work ∧
        Work.Move (w.site station) work work' s' ∧
          .asked c a id b m ∈ work.notes (t.cause work) station.node s'.node work' := by
  cases heffect with
  | @goes t station work work' s' w' hstation hwork hwork' hmove =>
    exact ⟨t, station, work, work', s', hwork, (Work.of_mem_asked h).1, hmove, h⟩
  | takes =>
    simp only [Cause.taken] at h
    split at h
    · cases List.mem_singleton.1 h
    · cases h
  | begins _ _ _ _ _ hnotes =>
    rcases hnotes with ⟨-, rfl⟩ | ⟨spec, -, rfl⟩
    · cases h
    · cases List.mem_singleton.1 h
  | ends | queues | completes => cases h
  | quiet _ hnotes =>
    obtain ⟨node, s, heq⟩ := hnotes _ h
    cases heq

/-- In a history, queries to the head go down. -/
structure Descending (h : History σ) : Prop where
  traced : Traced h.cluster.boxes (tokens.cluster h.cluster) h.notes
  drafts : ∀ t a work q, h.cluster.activity? t = some (a, work) → (∀ q, work ≠ .query q) →
    work.query? = some q → q.Descends
  asked : ∀ c a id b m, .asked c a id b m ∈ h.notes → (∀ k, c ≠ .user k) →
    m.channel = placeChannel → b < m.sender

namespace History

variable {P : Listeners Handler → Prop} {h h' : History σ}

theorem Next.descending (hnext : Next P h h') (hs : h.cluster.Sound P) (hd : Descending h) :
    Descending h' := by
  obtain ⟨new, hnotes, heffect⟩ := hnext.effect hs
  refine ⟨fun id tok hmem => ?_, fun t a work q hwork hquery hq => ?_,
    fun c a id b m hasked huser hplace => ?_⟩
  · obtain ⟨s, hsub, hfits⟩ := hd.traced.shift (heffect.shift hs) id tok hmem
    exact ⟨s, hnotes ▸ hsub, hfits.reboxes hmem fun k b hbox => hnext.boxes hbox⟩
  · rcases heffect.activity hwork with hold | hnew | ⟨station, before, s', hmem, -, -, hmove, -⟩
    · exact hd.drafts t a work q hold hquery hq
    · rcases hnew with ⟨d, rfl⟩ | ⟨m, timeout, rfl⟩ | ⟨spec, rfl⟩
      · cases hq
      · exact absurd rfl (hquery _)
      · cases hq
    · exact hmove.descends (hs.stations station hmem).self hquery hq
  · rw [hnotes] at hasked
    rcases List.mem_append.1 hasked with hnew | hold
    · obtain ⟨t, station, work, work', s', hwork, rfl, hmove, hmem⟩ := heffect.of_mem_asked hnew
      have hquery : ∀ q, work ≠ .query q := by
        rintro q rfl
        obtain ⟨k, hk⟩ := t.cause_query q
        exact huser k hk
      exact hmove.asked_lt (fun q => hd.drafts t _ work q hwork hquery) hmem hplace
    · exact hd.asked c a id b m hold huser hplace

theorem Reachable.descending (hr : Reachable P h) : Descending h := by
  induction hr with
  | empty w hstations hjobs htransit hnow =>
    refine ⟨fun id tok hmem => ?_, fun t a work q hwork => ?_, fun c a id b m hasked => ?_⟩
    · dsimp only at hmem
      rw [Measure.cluster, hstations, hjobs, Measure.links, htransit] at hmem
      exact absurd hmem (Multiset.notMem_zero _)
    · simp [Cluster.activity?_of_empty hstations hjobs] at hwork
    · cases hasked
  | next hr hnext ih => exact hnext.descending hr.sound ih

/-- Whoever works on a query to the head comes before its sender, if no caller sends such a query.
-/
theorem Reachable.lt_sender (hr : Reachable P h)
    (hcallers : ∀ k a id b m, .asked (.user k) a id b m ∈ h.notes → m.channel ≠ placeChannel)
    {place queue : Nat} {b : String} {d : Dispatch} {e : Event}
    (hd : h.cluster.activity? (.drain place queue) = some (b, .dispatch d))
    (he : d.event? = some e) (hquery : e.message.query = true)
    (hplace : e.message.channel = placeChannel) : b < e.message.sender := by
  obtain ⟨w', -, hcluster⟩ := Cluster.exists_idle hd
  have hmem : (e.message.queryId, Token.handling b e.message e.response) ∈
      tokens.cluster h.cluster := by
    rw [hcluster]
    exact Multiset.mem_add.2 (.inl (Dispatch.handling_mem_token he hquery))
  obtain ⟨s, hs, -, c, a, rfl⟩ := hr.descending.traced _ _ hmem
  have hasked : .asked c a e.message.queryId b e.message ∈ h.notes := hs (by simp [takenStory])
  refine hr.descending.asked c a _ b _ hasked (fun k hk => ?_) hplace
  exact hcallers k a _ b _ (hk ▸ hasked) hplace

end History

end Fleet
