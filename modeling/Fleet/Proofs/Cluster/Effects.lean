import Fleet.Proofs.Cluster.Measure
import Fleet.Proofs.Cluster.Sound

/-!
# What the steps of a history mean

A task of a cluster that works on something has an activity. Every step of a history lets one
activity go on, begins or ends one, moves a message from its mailbox to where it belongs, or leaves
all activities as they are. An effect says which, what is noted, and how every sum over the cluster
changes. Invariants of histories are proved from the effects of their steps.
-/

namespace Fleet

variable {σ : Type} [FaithfulTransport σ]

/-! ### Activities -/

/-- What the node at a place works on for a task. -/
def Cluster.activity? (w : Cluster σ) : Task → Option (String × Work)
  | .job n => (w.jobs.get? n).bind fun j =>
      w.stations[j.station]?.map fun s => (s.node.id, j.work)
  | .drain place queue => w.stations[place]?.bind fun s =>
      (s.node.current? queue).map fun d => (s.node.id, .dispatch d)
  | .follow _ | .publish .. => none

/-- The cause of what a task does. -/
def Task.cause (work : Work) : Task → Cause
  | .job n => work.cause n
  | _ => work.cause 0

namespace Measure

variable {β : Type} (μ : Measure β)

/-- What the activity of a task holds. -/
def amount (node : String) : Task → Work → Multiset β
  | .job n, work => μ.job n work
  | _, .dispatch d => μ.dispatch node d
  | _, _ => 0

/-- Outcomes without a response hold nothing, and neither do plain messages. -/
structure Plain : Prop where
  gone : ∀ id, μ.reply id .gone = 0
  letter : ∀ k m, m.query = false → m.correlation = none → μ.letter k m = 0

end Measure

/-! ### Effects -/

namespace Cluster

/-- What every step leaves alone but the activity of one task. -/
structure Frame (t : Task) (w w' : Cluster σ) : Prop where
  others : ∀ t' ≠ t, w'.activity? t' = w.activity? t'
  nextJob : w.nextJob ≤ w'.nextJob
  drawn : w.drawn ≤ w'.drawn

/-- What steps leave alone that touch no activity. -/
structure Same (w w' : Cluster σ) : Prop where
  activity? : ∀ t, w'.activity? t = w.activity? t
  nextJob : w.nextJob ≤ w'.nextJob
  drawn : w.drawn ≤ w'.drawn

/-- What a step of a history means, with what is noted about it. -/
inductive Effect (w : Cluster σ) : List Note → Cluster σ → Prop
  /-- An activity goes on. -/
  | goes {t : Task} {station : Station} {work work' : Work} {s' : Site σ} {w' : Cluster σ}
      (hstation : station ∈ w.stations)
      (hwork : w.activity? t = some (station.node.id, work))
      (hwork' : w'.activity? t = some (station.node.id, work'))
      (hmove : Work.Move (w.site station) work work' s') (hframe : w.Frame t w')
      (hdrawn : w'.drawn = s'.drawn)
      (hamount : ∀ {β : Type} (μ : Measure β), ∃ R,
        μ.cluster w = μ.amount station.node.id t work + μ.site (w.site station) + R ∧
          μ.cluster w' = μ.amount station.node.id t work' + μ.site s' + R) :
      Effect w (work.notes (t.cause work) station.node s'.node work') w'
  /-- A message that has waited is taken up. -/
  | takes {t : Task} {station : Station} {d : Delivery} {w' : Cluster σ}
      (hstation : station ∈ w.stations) (hwork : w.activity? t = none)
      (hwork' : w'.activity? t = some (station.node.id, .dispatch (.opening d)))
      (hframe : w.Frame t w')
      (hamount : ∀ {β : Type} (μ : Measure β), ∃ R,
        μ.cluster w = μ.parked station.node.id d.message + R ∧
          μ.cluster w' = μ.dispatch station.node.id (.opening d) + R) :
      Effect w (d.message.cause.taken station.node.id) w'
  /-- A caller gives a job to a node. -/
  | begins {station : Station} {work : Work} {new : List Note} {w' : Cluster σ}
      (hstation : station ∈ w.stations) (hnone : w.jobs.get? w.nextJob = none)
      (hwork' : w'.activity? (.job w.nextJob) = some (station.node.id, work))
      (hframe : w.Frame (.job w.nextJob) w') (hnext : w'.nextJob = w.nextJob + 1)
      (hnew : (∃ m timeout, work = .query (.opening m timeout)) ∧ new = [] ∨
        ∃ spec, work = .creation (.routing spec) ∧ new = [.called w.nextJob station.node.id spec])
      (hamount : ∀ {β : Type} (μ : Measure β),
        μ.cluster w' = μ.job w.nextJob work + μ.cluster w) : Effect w new w'
  /-- An activity that has ended is put away. -/
  | ends {t : Task} {w' : Cluster σ} (hwork' : w'.activity? t = none) (hframe : w.Frame t w')
      (hamount : ∀ {β : Type} (μ : Measure β), μ.cluster w' ≤ μ.cluster w) : Effect w [] w'
  /-- A message comes to its queue. -/
  | queues {station : Station} {k : Nat} {m : Message} {w' : Cluster σ}
      (hstation : station ∈ w.stations) (hbox : w.boxes k station.node.id)
      (hresponse : m.isResponse = false) (hsame : w.Same w')
      (hamount : ∀ {β : Type} (μ : Measure β), ∃ R, μ.letter k m + R ≤ μ.cluster w ∧
        μ.cluster w' ≤ μ.parked station.node.id m + R) : Effect w [] w'
  /-- A response comes to its query. -/
  | completes {k : Nat} {m : Message} {id : Uuid} {w' : Cluster σ} (hquery : m.query = false)
      (hid : m.correlation = some id) (hsame : w.Same w')
      (hamount : ∀ {β : Type} (μ : Measure β), ∃ R, μ.letter k m + R ≤ μ.cluster w ∧
        μ.cluster w' ≤ μ.reply id (.answer m) + R) : Effect w [] w'
  /-- No activity changes. -/
  | quiet {new : List Note} {w' : Cluster σ} (hsame : w.Same w')
      (hnew : ∀ n ∈ new, ∃ node s, n = .started .other node s)
      (hamount : ∀ {β : Type} (μ : Measure β), μ.Plain → μ.cluster w' ≤ μ.cluster w) :
      Effect w new w'

/-! ### Frames -/

variable {w w' : Cluster σ}

omit [FaithfulTransport σ] in
/-- A cluster without nodes and jobs does nothing. -/
theorem activity?_of_empty (hstations : w.stations = []) (hjobs : w.jobs = .empty) (t : Task) :
    w.activity? t = none := by
  cases t with
  | job n => simp [activity?, hjobs]
  | drain place queue => simp [activity?, hstations]
  | follow | publish => rfl

/-- A step that touches one node leaves an activity alone if it does not touch its job or queue. -/
theorem Touches.frame {place : Nat} {station station' : Station} {s' : Site σ} {t : Task}
    (h : Touches w w' place station station' s')
    (hjobs : ∀ n, .job n ≠ t → w'.jobs.get? n = w.jobs.get? n)
    (hqueues : ∀ queue, .drain place queue ≠ t →
      s'.node.current? queue = station.node.current? queue) : Frame t w w' := by
  obtain ⟨hlt, hget⟩ := List.getElem?_eq_some_iff.1 h.found
  have hid : station'.node.id = station.node.id := by
    rw [h.node]
    exact h.keeps.id
  refine ⟨fun t' ht' => ?_, h.nextJob, h.drawn ▸ h.keeps.drawn⟩
  cases t' with
  | job n =>
    rw [activity?, activity?, hjobs n ht', h.stations]
    refine congrArg _ (funext fun j => ?_)
    rw [List.getElem?_set]
    split
    · next heq => simp [← heq, hlt, hget, hid]
    · rfl
  | drain place' queue =>
    rw [activity?, activity?, h.stations, List.getElem?_set]
    split
    · next heq =>
      subst heq
      rw [h.found, Option.bind_some, Option.bind_some, hid, h.node, hqueues queue ht']
    · rfl
  | follow | publish => rfl

theorem Touches.activity?_job {place : Nat} {station station' : Station} {s' : Site σ} {n : Nat}
    {work : Work} (h : Touches w w' place station station' s')
    (hjob : w'.jobs.get? n = some ⟨place, work⟩) :
    w'.activity? (.job n) = some (station.node.id, work) := by
  obtain ⟨hlt, -⟩ := List.getElem?_eq_some_iff.1 h.found
  have hid : s'.node.id = station.node.id := h.keeps.id
  simp [activity?, hjob, h.stations, hlt, h.node, hid]

theorem Touches.activity?_drain {place queue : Nat} {station station' : Station} {s' : Site σ}
    (h : Touches w w' place station station' s') :
    w'.activity? (.drain place queue) =
      (s'.node.current? queue).map fun d => (station.node.id, .dispatch d) := by
  obtain ⟨hlt, -⟩ := List.getElem?_eq_some_iff.1 h.found
  have hid : s'.node.id = station.node.id := h.keeps.id
  simp [activity?, h.stations, hlt, h.node, hid]

/-- The sums before and after a step that touches one node. -/
theorem Touches.amount {place : Nat} {station station' : Station} {s' : Site σ} {β : Type}
    (h : Touches w w' place station station' s') (μ : Measure β) :
    ∃ R, μ.cluster w = μ.jobs w.jobs + (μ.node station.node + μ.links w.links) + R ∧
      μ.cluster w' = μ.jobs w'.jobs + (μ.node s'.node + μ.links s'.links) + R := by
  obtain ⟨R, hR, hset⟩ := μ.stations_set h.found
  refine ⟨R, ?_, ?_⟩
  · rw [Measure.cluster, hR]
    ac_rfl
  · rw [Measure.cluster, h.stations, hset, h.node, h.links]
    ac_rfl

/-! ### Steps of tasks -/

end Cluster

theorem Work.Move.inbound {s s' : Site σ} {work work' : Work} (h : Work.Move s work work' s') :
    s'.node.inbound = s.node.inbound := by
  cases h with
  | query hmove => exact hmove.services.2
  | creation hmove | dispatch hmove => exact hmove.inbound

omit [FaithfulTransport σ] in
/-- What cannot go on leaves no note. -/
theorem Work.notes_rests {work : Work} {cause : Cause} {n : Node} {noticed : Nat}
    (h : work.canStep n noticed = false) : work.notes cause n n work = [] := by
  have hconclusion : work.conclusion cause work = [] := by
    cases work with
    | creation c => cases cause <;> cases c <;> rfl
    | query | dispatch => cases cause <;> rfl
  have hanswers : work.answers work = [] := by
    rw [answers]
    cases work.event? with
    | none => rfl
    | some e => exact e.notes_self
  have hprogress : work.progress cause n.id work = [] := by
    rw [progress]
    cases work.query? with
    | none => rfl
    | some q =>
      cases q with
      | done r => cases r <;> rfl
      | opening | writing | waiting | overdue => rfl
  have hundecided : ∀ c, work.creation? = some c → c.undecided? = none := by
    intro c hc
    cases work with
    | query => cases hc
    | creation =>
      cases hc
      cases c <;> first | rfl | cases h
    | dispatch d =>
      cases d with
      | placing ticket e c' rest =>
        cases hc
        cases c <;> first | rfl | cases h
      | opening | firing | answering | done => cases hc
  have hsight : work.sight cause n = [] := by
    rw [sight]
    cases hc : work.creation? with
    | none => rfl
    | some c => exact Creation.sight_of_decided (hundecided c hc)
  have hstarted : n.ledger.additions n.ledger = [] := by
    have hnone : (n.ledger.services.entries.filter fun e => e ∉ n.ledger.services.entries) = [] :=
      List.filter_eq_nil_iff.2 fun e he => by simp [he]
    rw [Ledger.additions, hnone]
    rfl
  simp [notes, hconclusion, hanswers, hprogress, hsight, hstarted]

namespace Cluster

variable {w w' : Cluster σ}

omit [FaithfulTransport σ] in
theorem notes_rests [Transport σ] {t : Task} (h : w.canStep t = false) : w.notes w t = [] := by
  cases t with
  | job n =>
    simp only [notes, canStep] at h ⊢
    cases hjob : w.jobs.get? n with
    | none => rfl
    | some j =>
      cases hplace : w.stations[j.station]? with
      | none => simp [hplace]
      | some station =>
        simp only [hjob, hplace] at h
        simpa [hplace] using Work.notes_rests h
  | drain place queue =>
    simp only [notes, canStep] at h ⊢
    cases hplace : w.stations[place]? with
    | none => rfl
    | some station =>
      simp only [hplace, Node.canDrain] at h
      cases hqueue : station.node.inbound.queues.get? queue with
      | none => simp [Node.current?, hqueue]
      | some q =>
        rw [hqueue] at h
        cases hcurrent : q.current with
        | none => simp [Node.current?, hqueue, hcurrent]
        | some d =>
          have hd : d.canStep station.node w.noticed = false := by
            cases d <;> simp_all
          have hnone : (Work.dispatch d).notes d.cause station.node station.node (.dispatch d) =
              [] := Work.notes_rests hd
          simp [Node.current?, hqueue, hcurrent, hnone]
  | follow | publish => rfl

/-- The step of a job. -/
theorem effect_job {n : Nat} {j : Job}
    {station : Station} {work : Work} {s : Site σ} (hjob : w.jobs.get? n = some j)
    (hplace : w.stations[j.station]? = some station)
    (hmove : Work.Move (w.site station) j.work work s) :
    Effect w (w.notes { w.put j.station station (retire j.work work s) with
        jobs := w.jobs.insert n { j with work } } (.job n))
      { w.put j.station station (retire j.work work s) with
        jobs := w.jobs.insert n { j with work } } := by
  set w' : Cluster σ := { w.put j.station station (retire j.work work s) with
    jobs := w.jobs.insert n { j with work } }
  obtain ⟨creations, heq⟩ := retire_eq s j.work work
  have htouches : Touches w w' j.station station
      { station with node := (retire j.work work s).node } (retire j.work work s) :=
    touches_job hplace hmove
  have hinbound : (retire j.work work s).node.inbound = station.node.inbound := by
    rw [heq]
    exact hmove.inbound
  have hframe : Frame (.job n) w w' := by
    refine htouches.frame (fun m hm => ?_) fun queue _ => ?_
    · have hne : m ≠ n := fun h => hm (congrArg _ h)
      exact (Table.get?_insert ..).trans (if_neg hne)
    · rw [Node.current?, hinbound, Node.current?]
  have hget : w'.jobs.get? n = some ⟨j.station, work⟩ :=
    (Table.get?_insert ..).trans (if_pos rfl)
  have hnotes : w.notes w' (.job n) =
      j.work.notes (Task.cause j.work (.job n)) station.node s.node work := by
    obtain ⟨hlt, -⟩ := List.getElem?_eq_some_iff.1 hplace
    have hstation : w'.stations[j.station]? =
        some { station with node := (retire j.work work s).node } := by
      rw [htouches.stations]
      simp [hlt]
    simp only [notes, hjob, hget, hplace, hstation]
    rw [heq]
    rfl
  rw [hnotes]
  refine .goes (List.mem_of_getElem? hplace) ?_ (htouches.activity?_job hget) hmove hframe ?_ ?_
  · simp [activity?, hjob, hplace]
  · change (retire j.work work s).drawn = s.drawn
    rw [heq]
  · intro β μ
    obtain ⟨R, hR, hR'⟩ := htouches.amount μ
    obtain ⟨J, hJ, hJ'⟩ := μ.jobs_insert hjob
    refine ⟨μ.inbound station.node.id station.node.inbound + J + R, ?_, ?_⟩
    · rw [hR, hJ]
      simp only [Measure.node, Measure.site, Measure.amount, site]
      ac_rfl
    · have hid : (retire j.work work s).node.id = station.node.id := htouches.keeps.id
      rw [hR', hJ' ⟨j.station, work⟩, Measure.node, hinbound, hid, heq]
      simp only [Measure.site, Measure.amount]
      ac_rfl

/-! ### Steps on queues -/

omit [FaithfulTransport σ] in
/-- What the queues of a node are busy with after one of them has changed. -/
theorem current?_modify {n n' : Node} {queue : Nat} {q : Inbound.Queue Dispatch}
    (f : Inbound.Queue Dispatch → Inbound.Queue Dispatch)
    (hqueue : n.inbound.queues.get? queue = some q)
    (hn' : n'.inbound = { n.inbound with queues := n.inbound.queues.modify queue f })
    (other : Nat) :
    n'.current? other = if other = queue then (f q).current else n.current? other := by
  rw [Node.current?, hn', Table.get?_modify]
  split
  · simp [hqueue]
  · rfl

/-- A step that changes what one queue of a node is busy with. -/
theorem Touches.frame_drain {place queue : Nat} {station station' : Station} {s' : Site σ}
    {d : Option Dispatch} (h : Touches w w' place station station' s') (hjobs : w'.jobs = w.jobs)
    (hcurrent : ∀ other, s'.node.current? other =
      if other = queue then d else station.node.current? other) :
    Frame (.drain place queue) w w' := by
  refine h.frame (fun _ _ => by rw [hjobs]) fun other hother => ?_
  rw [hcurrent, if_neg]
  exact fun heq => hother (congrArg _ heq)

theorem Touches.notes_drain {place queue : Nat} {station station' : Station} {s' : Site σ}
    (h : Touches w w' place station station' s') :
    w.notes w' (.drain place queue) =
      match station.node.current? queue, s'.node.current? queue with
      | none, some d => d.cause.taken station.node.id
      | some d, some d' =>
        (Work.dispatch d).notes d.cause station.node s'.node (.dispatch d')
      | _, _ => [] := by
  obtain ⟨hlt, -⟩ := List.getElem?_eq_some_iff.1 h.found
  have hstation : w'.stations[place]? = some station' := by
    rw [h.stations]
    simp [hlt]
  cases hold : station.node.current? queue <;> cases hnew : s'.node.current? queue <;>
    simp [notes, h.found, hstation, h.node, hold, hnew]

/-- The step of the work on a message. -/
theorem effect_works {place queue : Nat} {station : Station} {q : Inbound.Queue Dispatch}
    {d d' : Dispatch} {s : Site σ} (hplace : w.stations[place]? = some station)
    (hqueue : station.node.inbound.queues.get? queue = some q) (hcurrent : q.current = some d)
    (hmove : Dispatch.Move (w.site station) d d' s) :
    Effect w (w.notes (w.put place station (s.setCurrent queue (some d'))) (.drain place queue))
      (w.put place station (s.setCurrent queue (some d'))) := by
  set w' := w.put place station (s.setCurrent queue (some d'))
  have htouches : Touches w w' place station
      { station with node := (s.setCurrent queue (some d')).node } (s.setCurrent queue (some d')) :=
    touches_works hplace hmove
  have hinbound : s.node.inbound = station.node.inbound := hmove.inbound
  have hid : s.node.id = station.node.id := hmove.keeps.id
  have hcur : ∀ other, (s.setCurrent queue (some d')).node.current? other =
      if other = queue then some d' else station.node.current? other :=
    current?_modify ({ · with current := some d' }) hqueue (by rw [← hinbound]; rfl)
  have hold : station.node.current? queue = some d := by simp [Node.current?, hqueue, hcurrent]
  have hnew : (s.setCurrent queue (some d')).node.current? queue = some d' := by simp [hcur]
  have hnotes : w.notes w' (.drain place queue) =
      (Work.dispatch d).notes (Task.cause (.dispatch d) (.drain place queue)) station.node s.node
        (.dispatch d') := by
    rw [htouches.notes_drain, hold, hnew]
    rfl
  rw [hnotes]
  refine .goes (List.mem_of_getElem? hplace) ?_ ?_ (.dispatch hmove)
    (htouches.frame_drain rfl hcur) rfl ?_
  · simp [activity?, hplace, hold]
  · rw [htouches.activity?_drain, hnew]
    rfl
  · intro β μ
    obtain ⟨R, hR, hR'⟩ := htouches.amount μ
    have hqueue' : s.node.inbound.queues.get? queue = some q := hinbound ▸ hqueue
    obtain ⟨S, hS, hS'⟩ :=
      μ.inbound_setCurrent station.node.id (some d') hqueue'
    refine ⟨μ.jobs w.jobs + S + R, ?_, ?_⟩
    · rw [hR, Measure.node, ← hinbound, hS, hcurrent]
      simp only [Measure.site, Measure.amount, Measure.current, Option.elim_some, site]
      ac_rfl
    · rw [hR', Measure.node]
      change μ.jobs w.jobs + (μ.inbound s.node.id (s.node.inbound.setCurrent queue (some d')) +
        μ.replies s.node.messenger + μ.links s.links) + R = _
      rw [hid, hS']
      simp only [Measure.site, Measure.amount, Measure.current, Option.elim_some]
      ac_rfl

/-- A message is put away. -/
theorem effect_closes {place queue : Nat} {station : Station} {q : Inbound.Queue Dispatch}
    (hplace : w.stations[place]? = some station)
    (hqueue : station.node.inbound.queues.get? queue = some q) (hcurrent : q.current = some .done) :
    Effect w (w.notes (w.put place station ((w.site station).setCurrent queue none))
        (.drain place queue))
      (w.put place station ((w.site station).setCurrent queue none)) := by
  set w' := w.put place station ((w.site station).setCurrent queue none)
  have htouches := touches_closes queue hplace
  have hcur : ∀ other, ((w.site station).setCurrent queue none).node.current? other =
      if other = queue then none else station.node.current? other :=
    current?_modify ({ · with current := none }) hqueue rfl
  have hold : station.node.current? queue = some .done := by
    simp [Node.current?, hqueue, hcurrent]
  have hnew : ((w.site station).setCurrent queue none).node.current? queue = none := by simp [hcur]
  have hnotes : w.notes w' (.drain place queue) = [] := by
    rw [htouches.notes_drain, hold, hnew]
  rw [hnotes]
  refine .ends ?_ (htouches.frame_drain rfl hcur) fun μ => ?_
  · rw [htouches.activity?_drain, hnew]
    rfl
  · obtain ⟨R, hR, hR'⟩ := htouches.amount μ
    obtain ⟨S, hS, hS'⟩ := μ.inbound_setCurrent station.node.id none hqueue
    have hle : μ.inbound station.node.id (station.node.inbound.setCurrent queue none) ≤
        μ.inbound station.node.id station.node.inbound := by
      rw [hS, hS']
      exact add_le_add_left (Multiset.zero_le _) _
    rw [hR, hR']
    exact add_le_add_left (add_le_add_right (add_le_add_left (add_le_add_left hle _) _) _) _

/-- A message is taken up. -/
theorem effect_takes {place queue : Nat} {station : Station} {sender : String} {d : Delivery}
    {rest : List Delivery} (hplace : w.stations[place]? = some station)
    (hqueue : station.node.inbound.queues.get? queue = some ⟨sender, d :: rest, none⟩) :
    Effect w (w.notes (w.put place station ((w.site station).takeUp queue)) (.drain place queue))
      (w.put place station ((w.site station).takeUp queue)) := by
  set w' := w.put place station ((w.site station).takeUp queue)
  have htouches := touches_takes queue hplace
  have hcur : ∀ other, ((w.site station).takeUp queue).node.current? other =
      if other = queue then some (.opening d) else station.node.current? other :=
    current?_modify (·.startNext .opening) hqueue rfl
  have hold : station.node.current? queue = none := by simp [Node.current?, hqueue]
  have hnew : ((w.site station).takeUp queue).node.current? queue = some (.opening d) := by
    simp [hcur]
  have hnotes : w.notes w' (.drain place queue) = d.message.cause.taken station.node.id := by
    rw [htouches.notes_drain, hold, hnew]
    rfl
  rw [hnotes]
  refine .takes (List.mem_of_getElem? hplace) ?_ ?_ (htouches.frame_drain rfl hcur) ?_
  · simp [activity?, hplace, hold]
  · rw [htouches.activity?_drain, hnew]
    rfl
  · intro β μ
    obtain ⟨R, hR, hR'⟩ := htouches.amount μ
    obtain ⟨S, hS, hS'⟩ :=
      μ.inbound_startNext station.node.id Dispatch.opening hqueue
    refine ⟨μ.jobs w.jobs + S + μ.replies station.node.messenger + μ.links w.links + R, ?_, ?_⟩
    · rw [hR, Measure.node, hS]
      ac_rfl
    · rw [hR', Measure.node]
      change μ.jobs w.jobs + (μ.inbound station.node.id
        (station.node.inbound.startNext queue .opening) + μ.replies station.node.messenger +
          μ.links w.links) + R = _
      rw [hS']
      ac_rfl

end Cluster

/-! ### Events and reports -/

namespace Measure

variable {β : Type} (μ : Measure β)

/-- Queries whose target went away leave nothing behind. -/
theorem replies_failPending_le (hplain : μ.Plain) (m : Messenger) (target : String) :
    μ.replies (m.failPending target).2 ≤ μ.replies m := by
  have hfold : ∀ (ids : List Uuid) (m : Messenger),
      μ.replies (ids.foldl (fun m id => (m.dropQuery id).deliver id .gone) m) ≤ μ.replies m := by
    intro ids
    induction ids with
    | nil => exact fun m => le_refl _
    | cons id rest ih =>
      intro m
      have hle := μ.replies_deliver_le (m.dropQuery id) id .gone
      rw [hplain.gone, zero_add] at hle
      exact (ih _).trans hle
  exact hfold _ m

theorem site_write_le (hplain : μ.Plain) (s : Site σ) (receiver : String) {m : Message}
    (hquery : m.query = false) (hcorrelation : m.correlation = none) :
    μ.site (s.write receiver m).2 ≤ μ.site s := by
  refine add_le_add_right ?_ _
  rcases FaithfulTransport.transit_write s.links s.node.id receiver m with hle | ⟨k, -, hle⟩
  · exact μ.links_le hle
  · have h := μ.links_cons_le hle
    rwa [hplain.letter k m hquery hcorrelation, zero_add] at h

theorem site_send_le (hplain : μ.Plain) (s : Site σ) {m : Message} (hquery : m.query = false)
    (hcorrelation : m.correlation = none) : μ.site (s.send m).2 ≤ μ.site s := by
  have hall : ∀ (receivers : List String) (s : Site σ),
      μ.site (Site.writeAll m receivers s).2 ≤ μ.site s := by
    intro receivers
    induction receivers with
    | nil => exact fun s => le_refl _
    | cons receiver rest ih =>
      intro s
      exact (ih _).trans (μ.site_write_le hplain s receiver hquery hcorrelation)
  exact hall _ s

end Measure

theorem Message.new?_eq {channel sender : String} {targets : List Target} {content : Bytes}
    {m : Message} (h : Message.new? channel sender targets content = .ok m) :
    m = { channel, sender, targets, content } := by
  rw [new?, checked] at h
  split at h
  · cases h
  · cases h
    rfl

/-- A report touches nothing but what the node knows of itself, and the connections. -/
theorem Site.publish_spec (s : Site σ) (cpu : Binary64) :
    (s.publish cpu).2.node.inbound = s.node.inbound ∧
      (s.publish cpu).2.node.messenger = s.node.messenger ∧
        ∀ {β : Type} (μ : Measure β), μ.Plain → μ.site (s.publish cpu).2 ≤ μ.site s := by
  obtain ⟨roster, heq, -⟩ := s.storeOwn_eq (s.node.ledger.load cpu s.now)
  rw [publish]
  simp only [heq]
  split
  · next m hm =>
    obtain rfl := Message.new?_eq hm
    rw [(s.withRoster roster).node_send]
    exact ⟨rfl, rfl, fun μ hplain => μ.site_send_le hplain (s.withRoster roster) rfl rfl⟩
  · exact ⟨rfl, rfl, fun μ _ => le_refl _⟩

namespace Cluster

variable {w w' : Cluster σ}

/-- A step that touches no jobs and changes nothing that queues are busy with leaves all activities
alone. -/
theorem Touches.same {place : Nat} {station station' : Station} {s' : Site σ}
    (h : Touches w w' place station station' s') (hjobs : w'.jobs = w.jobs)
    (hcurrent : ∀ queue, s'.node.current? queue = station.node.current? queue) : Same w w' := by
  have hframe : ∀ t, Frame t w w' := fun t =>
    h.frame (fun _ _ => by rw [hjobs]) fun queue _ => hcurrent queue
  refine ⟨fun t => ?_, h.nextJob, h.drawn ▸ h.keeps.drawn⟩
  cases t with
  | job n => exact (hframe (.follow 0)).others _ (by simp)
  | drain | publish => exact (hframe (.follow 0)).others _ (by simp)
  | follow => rfl

/-- A step that brings nothing. -/
theorem Touches.quiet {place : Nat} {station station' : Station} {s' : Site σ}
    (h : Touches w w' place station station' s') (hjobs : w'.jobs = w.jobs)
    (hcurrent : ∀ queue, s'.node.current? queue = station.node.current? queue)
    (hle : ∀ {β : Type} (μ : Measure β), μ.Plain →
      μ.node s'.node + μ.links s'.links ≤ μ.node station.node + μ.links w.links)
    {new : List Note} (hnew : ∀ n ∈ new, ∃ node s, n = .started .other node s) :
    Effect w new w' := by
  refine .quiet (h.same hjobs hcurrent) hnew fun μ hplain => ?_
  obtain ⟨R, hR, hR'⟩ := h.amount μ
  rw [hR, hR', hjobs]
  exact add_le_add_left (add_le_add_right (hle μ hplain) _) _

/-- A step that leaves the queues of a node as they are. -/
theorem Touches.quiet_site {place : Nat} {station station' : Station} {s' : Site σ}
    (h : Touches w w' place station station' s') (hjobs : w'.jobs = w.jobs)
    (hinbound : s'.node.inbound = station.node.inbound)
    (hsite : ∀ {β : Type} (μ : Measure β), μ.Plain → μ.site s' ≤ μ.site (w.site station))
    {new : List Note} (hnew : ∀ n ∈ new, ∃ node s, n = .started .other node s) :
    Effect w new w' := by
  refine h.quiet hjobs (fun queue => ?_) (fun μ hplain => ?_) hnew
  · rw [Node.current?, hinbound, Node.current?]
  · have hid : s'.node.id = station.node.id := h.keeps.id
    have hle := add_le_add_right (hsite μ hplain) (μ.inbound station.node.id station.node.inbound)
    rw [Measure.node, Measure.node, hinbound, hid, add_assoc, add_assoc]
    exact hle

/-- A message is taken out of a mailbox and brings something to the node. -/
theorem Touches.amount_take {place k : Nat} {m : Message} {station station' : Station} {s' : Site σ}
    {β : Type} {X : Multiset β} (h : Touches w w' place station station' s')
    (hjobs : w'.jobs = w.jobs)
    (htake : (k, m) ::ₘ FaithfulTransport.transit s'.links ≤ FaithfulTransport.transit w.links)
    (μ : Measure β) (hnode : μ.node s'.node ≤ X + μ.node station.node) :
    ∃ R, μ.letter k m + R ≤ μ.cluster w ∧ μ.cluster w' ≤ X + R := by
  obtain ⟨R, hR, hR'⟩ := h.amount μ
  refine ⟨μ.jobs w.jobs + (μ.node station.node + μ.links s'.links) + R, ?_, ?_⟩
  · calc μ.letter k m + (μ.jobs w.jobs + (μ.node station.node + μ.links s'.links) + R)
        = μ.jobs w.jobs + (μ.node station.node + (μ.letter k m + μ.links s'.links)) + R := by
          ac_rfl
      _ ≤ μ.jobs w.jobs + (μ.node station.node + μ.links w.links) + R :=
          add_le_add_left (add_le_add_right (add_le_add_right (μ.le_links_of_cons htake) _) _) _
      _ = μ.cluster w := hR.symm
  · calc μ.cluster w'
        = μ.jobs w.jobs + (μ.node s'.node + μ.links s'.links) + R := by rw [hR', hjobs]
      _ ≤ μ.jobs w.jobs + (X + μ.node station.node + μ.links s'.links) + R :=
          add_le_add_left (add_le_add_right (add_le_add_left hnode _) _) _
      _ = X + (μ.jobs w.jobs + (μ.node station.node + μ.links s'.links) + R) := by ac_rfl

omit [FaithfulTransport σ] in
/-- An event does not change what the queues of a node are busy with. -/
theorem current?_handle {s : Site σ} (h : s.node.inbound.Tidy) (e : TransportEvent) (queue : Nat) :
    (s.handle e).node.current? queue = s.node.current? queue := by
  cases e with
  | connected peer =>
    obtain ⟨roster, heq, -⟩ := s.node.connected_eq peer
    change (s.node.connected peer).current? queue = _
    rw [heq]
    rfl
  | disconnected b => rfl
  | message m =>
    change (s.receive m).node.current? queue = _
    unfold Site.receive
    split
    · split <;> rfl
    · exact h.current_push _ queue

/-- A response that is taken out of a mailbox comes to the query that waits for it, or to none. -/
theorem Touches.effect_response {place k : Nat} {station station' : Station} {s : Site σ}
    {m : Message} (h : Touches w w' place station station' (s.receive m))
    (hjobs : w'.jobs = w.jobs) (hnode : s.node = station.node)
    (htake : (k, m) ::ₘ FaithfulTransport.transit s.links ≤ FaithfulTransport.transit w.links)
    (hm : m.isResponse = true) : Effect w [] w' := by
  cases hcomplete : s.node.messenger.complete m with
  | error fault =>
    rw [Site.receive_of_error hm hcomplete] at h
    refine h.quiet hjobs (fun _ => by rw [hnode]) (fun μ _ => ?_) (by simp)
    rw [hnode]
    exact add_le_add_right (μ.links_le ((Multiset.le_cons_self _ _).trans htake)) _
  | ok messenger =>
    rw [Site.receive_of_ok hm hcomplete] at h
    obtain ⟨id, hid, -, rfl⟩ := Messenger.complete_eq_ok hcomplete
    have hquery : m.query = false := by
      rw [Message.isResponse] at hm
      simp_all
    refine .completes hquery hid (h.same hjobs fun queue => ?_) fun μ =>
      h.amount_take hjobs htake μ ?_
    · rw [← hnode]
      rfl
    · rw [← hnode]
      calc μ.inbound s.node.id s.node.inbound +
            μ.replies ((s.node.messenger.dropQuery id).deliver id (.answer m))
          ≤ μ.inbound s.node.id s.node.inbound +
              (μ.reply id (.answer m) + μ.replies s.node.messenger) :=
            add_le_add_right (μ.replies_deliver_le _ _ _) _
        _ = μ.reply id (.answer m) + μ.node s.node := by
            rw [Measure.node]
            ac_rfl

/-- Any other message that is taken out of a mailbox comes to a queue. -/
theorem Touches.effect_arrival {place k : Nat} {station station' : Station} {s : Site σ}
    {m : Message} (h : Touches w w' place station station' (s.receive m))
    (hjobs : w'.jobs = w.jobs) (hnode : s.node = station.node)
    (htake : (k, m) ::ₘ FaithfulTransport.transit s.links ≤ FaithfulTransport.transit w.links)
    (htidy : station.node.inbound.Tidy) (hbox : w.boxes k station.node.id)
    (hm : m.isResponse = false) : Effect w [] w' := by
  have hcurrent : ∀ queue, (s.receive m).node.current? queue = station.node.current? queue := by
    rw [← hnode] at htidy ⊢
    exact current?_handle htidy (.message m)
  rw [Site.receive_of_isResponse_eq_false hm] at h hcurrent
  refine .queues (List.mem_of_getElem? h.found) hbox hm (h.same hjobs hcurrent) fun μ =>
    h.amount_take hjobs htake μ ?_
  rw [← hnode]
  calc μ.inbound s.node.id (s.node.inbound.push (s.node.messenger.stamp m).1) +
        μ.replies s.node.messenger
      ≤ μ.parked s.node.id m + μ.inbound s.node.id s.node.inbound +
          μ.replies s.node.messenger :=
        add_le_add_left (μ.inbound_push_le s.node.id s.node.inbound _) _
    _ = μ.parked s.node.id m + μ.node s.node := by
        rw [Measure.node]
        ac_rfl

/-- The step of a follower that takes an event. -/
theorem effect_follows {P : Listeners Handler → Prop} (hw : w.Sound P) {place : Nat}
    {station : Station} {f : Follower} {e : TransportEvent} {links : σ}
    (hplace : w.stations[place]? = some station) (hfollower : station.follower = some f)
    (htake : Transport.take? w.links f.mailbox = some (e, links)) :
    Effect w []
      (({ w with links }).put place station ((({ w with links }).site station).handle e)) := by
  have hmem := List.mem_of_getElem? hplace
  have htouches := touches_follows hplace htake
  have hle : ∀ {β : Type} (μ : Measure β), μ.links links ≤ μ.links w.links :=
    fun μ => μ.links_le (FaithfulTransport.transit_take htake)
  cases e with
  | connected peer =>
    obtain ⟨roster, heq, -⟩ := station.node.connected_eq peer
    have hnode : ((({ w with links }).site station).handle (.connected peer)).node =
        { station.node with roster } := heq
    refine htouches.quiet_site rfl (by rw [hnode]) (fun μ _ => ?_) (by simp)
    rw [Measure.site, hnode]
    exact add_le_add_right (hle μ) _
  | disconnected id =>
    refine htouches.quiet rfl (fun _ => rfl) (fun μ hplain => ?_) (by simp)
    have hid : ((({ w with links }).site station).handle (.disconnected id)).node.id =
        station.node.id := htouches.keeps.id
    rw [Measure.node, hid]
    exact add_le_add (add_le_add_right (μ.replies_failPending_le hplain _ _) _) (hle μ)
  | message m =>
    have htransit := FaithfulTransport.transit_take_message htake
    cases hm : m.isResponse with
    | true => exact htouches.effect_response rfl rfl htransit hm
    | false =>
      refine htouches.effect_arrival rfl rfl htransit (hw.stations station hmem).tidy ?_ hm
      exact ⟨station, hmem, by rw [hfollower]; rfl, rfl⟩

/-- What the step of a task means. -/
theorem effect_step {P : Listeners Handler → Prop} (hw : w.Sound P) (t : Task) :
    Effect w (w.notes (w.step t) t) (w.step t) := by
  have hnew : ∀ n ∈ ([] : List Note), ∃ node s, n = .started .other node s := by simp
  have hmove := move_step w t
  generalize w.step t = w' at hmove
  cases hmove with
  | job hjob hplace hmove => exact effect_job hjob hplace hmove
  | works hplace hqueue hcurrent hmove => exact effect_works hplace hqueue hcurrent hmove
  | closes hplace hqueue hcurrent => exact effect_closes hplace hqueue hcurrent
  | takes hplace hqueue => exact effect_takes hplace hqueue
  | follows hplace hfollower htake => exact effect_follows hw hplace hfollower htake
  | @looks place station f f' links hplace hfollower hmailbox hlinks =>
    have hle : ∀ {β : Type} (μ : Measure β), μ.links links ≤ μ.links w.links := by
      intro β μ
      rcases hlinks with rfl | rfl
      · exact le_refl _
      · exact μ.links_le (FaithfulTransport.transit_hangUp _ _)
    exact (touches_looks hplace hfollower hmailbox hlinks).quiet_site rfl rfl
      (fun μ _ => add_le_add_right (hle μ) _) hnew
  | @reports place k station publishers hplace =>
    obtain ⟨hinbound, -, hsite⟩ := (w.site station).publish_spec w.cpu
    exact (touches_reports publishers hplace).quiet_site rfl hinbound hsite hnew
  | waits publishers hplace =>
    exact (touches_waits publishers hplace).quiet_site rfl rfl (fun μ _ => le_refl _) hnew
  | rests hstep =>
    rw [notes_rests hstep]
    exact .quiet ⟨fun _ => rfl, le_refl _, le_refl _⟩ hnew fun μ _ => le_refl _

/-- A caller gives a job to a node. -/
theorem effect_spawn {P : Listeners Handler → Prop} (hw : w.Sound P) {place : Nat}
    {station : Station} {work : Work} {new : List Note}
    (hplace : w.stations[place]? = some station)
    (hnew : (∃ m timeout, work = .query (.opening m timeout)) ∧ new = [] ∨
      ∃ spec, work = .creation (.routing spec) ∧ new = [.called w.nextJob station.node.id spec]) :
    Effect w new (w.spawn place work).2 := by
  obtain ⟨creations, htouches⟩ := touches_spawn work hplace
  have hnone : w.jobs.get? w.nextJob = none := by
    cases h : w.jobs.get? w.nextJob with
    | none => rfl
    | some j => exact absurd (hw.jobs _ j h).number (lt_irrefl _)
  have hjobs : (w.spawn place work).2.jobs = w.jobs.insert w.nextJob ⟨place, work⟩ := rfl
  have hframe : Frame (.job w.nextJob) w (w.spawn place work).2 := by
    refine htouches.frame (fun n hn => ?_) fun _ _ => rfl
    rw [hjobs, Table.get?_insert, if_neg]
    exact fun h => hn (congrArg _ h)
  refine .begins (List.mem_of_getElem? hplace) hnone (htouches.activity?_job ?_) hframe rfl hnew
    fun μ => ?_
  · rw [hjobs, Table.get?_insert, if_pos rfl]
  · obtain ⟨R, hR, hR'⟩ := htouches.amount μ
    rw [hR, hR', hjobs, μ.jobs_insert_new _ hnone]
    change μ.job w.nextJob work + μ.jobs w.jobs + (μ.node station.node + μ.links w.links) + R = _
    ac_rfl

/-- What no drift changes at a node. -/
theorem Drift.map_stations {P : Listeners Handler → Prop} {α : Type} (h : w.Drift P w')
    (f : Station → α) (hf : ∀ s s', s.Drift P s' → f s' = f s) :
    w'.stations.map f = w.stations.map f := by
  have hstations := h.stations
  generalize w.stations = l at hstations
  generalize w'.stations = l' at hstations
  induction hstations with
  | nil => rfl
  | cons hhead _ ih => rw [List.map_cons, List.map_cons, hf _ _ hhead, ih]

theorem Drift.activity? {P : Listeners Handler → Prop} (h : w.Drift P w') (t : Task) :
    w'.activity? t = w.activity? t := by
  have hplace : ∀ {α : Type} (f : Station → α), (∀ s s', s.Drift P s' → f s' = f s) →
      ∀ i : Nat, w'.stations[i]?.map f = w.stations[i]?.map f := by
    intro α f hf i
    rw [← List.getElem?_map, ← List.getElem?_map, h.map_stations f hf]
  cases t with
  | job n =>
    simp only [Cluster.activity?, h.jobs]
    refine congrArg _ (funext fun j => ?_)
    exact hplace _ (fun s s' hdrift => by rw [hdrift.id]) _
  | drain place queue =>
    have hall := hplace (fun s => (s.node.current? queue).map fun d => (s.node.id, Work.dispatch d))
      (fun s s' hdrift => by rw [hdrift.id, Node.current?, hdrift.inbound, Node.current?]) place
    simp only [Cluster.activity?]
    cases hs : w.stations[place]? <;> cases hs' : w'.stations[place]? <;>
      simp only [hs, hs', Option.map_none, Option.map_some, reduceCtorEq, Option.some.injEq] at hall
    · rfl
    · exact hall
  | follow | publish => rfl

theorem Drift.amount_le {P : Listeners Handler → Prop} {β : Type} (h : w.Drift P w')
    (μ : Measure β) : μ.cluster w' ≤ μ.cluster w := by
  have hstations : μ.stations w'.stations = μ.stations w.stations := by
    refine congrArg List.sum (h.map_stations (fun s => μ.node s.node) fun s s' hdrift => ?_)
    rw [Measure.node, hdrift.id, hdrift.inbound, μ.replies_of_eq hdrift.replies, Measure.node]
  rw [Measure.cluster, hstations, h.jobs]
  exact add_le_add_right (μ.links_le h.links.transit) _

/-- A node that joins has nothing to do. -/
theorem activity?_join {P : Listeners Handler → Prop} {links : σ} {s : Station} (hw : w.Sound P)
    (hs : s.node.inbound = .empty) (t : Task) :
    ({ w with links, stations := w.stations ++ [s] } : Cluster σ).activity? t = w.activity? t := by
  cases t with
  | job n =>
    simp only [activity?]
    cases hj : w.jobs.get? n with
    | none => rfl
    | some j =>
      have hlt := (hw.jobs n j hj).station
      simp only [Option.bind_some]
      rw [List.getElem?_append_left hlt]
  | drain place queue =>
    simp only [activity?]
    by_cases hlt : place < w.stations.length
    · rw [List.getElem?_append_left hlt]
    · have hnone : w.stations[place]? = none := List.getElem?_eq_none (by omega)
      rw [hnone, List.getElem?_append_right (by omega)]
      cases hi : [s][place - w.stations.length]? with
      | none => rfl
      | some s' =>
        obtain rfl := List.mem_singleton.1 (List.mem_of_getElem? hi)
        simp [Node.current?, hs, Inbound.empty]
  | follow | publish => rfl

end Cluster

/-- Where what a task works on comes from after a step of a history: it has not changed, is new, or
has gone on. -/
theorem Cluster.Effect.activity {w w' : Cluster σ} {new : List Note} (heffect : w.Effect new w')
    {t : Task} {a : String} {work : Work} (hwork : w'.activity? t = some (a, work)) :
    w.activity? t = some (a, work) ∨
      ((∃ d, work = .dispatch (.opening d)) ∨ (∃ m timeout, work = .query (.opening m timeout)) ∨
        ∃ spec, work = .creation (.routing spec)) ∨
      ∃ station before s', station ∈ w.stations ∧ station.node.id = a ∧
        w.activity? t = some (a, before) ∧ Work.Move (w.site station) before work s' ∧
          new = before.notes (t.cause before) station.node s'.node work := by
  cases heffect with
  | @goes t' station before after s' w' hstation hbefore hafter hmove hframe =>
    by_cases ht : t = t'
    · subst ht
      rw [hafter] at hwork
      cases hwork
      exact .inr (.inr ⟨station, before, s', hstation, rfl, hbefore, hmove, rfl⟩)
    · exact .inl (hframe.others t ht ▸ hwork)
  | @takes t' station d w' hstation hnone hafter hframe =>
    by_cases ht : t = t'
    · subst ht
      rw [hafter] at hwork
      cases hwork
      exact .inr (.inl (.inl ⟨d, rfl⟩))
    · exact .inl (hframe.others t ht ▸ hwork)
  | begins hstation hnone hafter hframe hnext hnew =>
    by_cases ht : t = .job w.nextJob
    · subst ht
      rw [hafter] at hwork
      cases hwork
      rcases hnew with ⟨hquery, -⟩ | ⟨spec, heq, -⟩
      · exact .inr (.inl (.inr (.inl hquery)))
      · exact .inr (.inl (.inr (.inr ⟨spec, heq⟩)))
    · exact .inl (hframe.others t ht ▸ hwork)
  | @ends t' w' hafter hframe =>
    by_cases ht : t = t'
    · subst ht
      rw [hafter] at hwork
      cases hwork
    · exact .inl (hframe.others t ht ▸ hwork)
  | queues _ _ _ hsame | completes _ _ hsame | quiet hsame =>
    exact .inl (hsame.activity? t ▸ hwork)

namespace History

variable {P : Listeners Handler → Prop} {h h' : History σ}

/-- What a step of a history means. -/
theorem Next.effect (hnext : Next P h h') (hs : h.cluster.Sound P) :
    ∃ new, h'.notes = new ++ h.notes ∧ h.cluster.Effect new h'.cluster := by
  cases hnext with
  | task t => exact ⟨_, rfl, Cluster.effect_step hs t⟩
  | create place station hplace spec =>
    exact ⟨[_], rfl, Cluster.effect_spawn hs hplace (.inr ⟨spec, rfl, rfl⟩)⟩
  | ask place station hplace m timeout =>
    exact ⟨[], rfl, Cluster.effect_spawn hs hplace (.inl ⟨⟨m, timeout, rfl⟩, rfl⟩)⟩
  | tell place station hplace m hquery hplain delivered w hact =>
    obtain ⟨-, hw, htouches⟩ := Cluster.touches_act hplace hact (Site.keeps_send _ m)
    refine ⟨[], rfl, htouches.quiet_site (by rw [hw]; rfl) ?_ ?_ (by simp)⟩
    · rw [Site.node_send]
      rfl
    · exact fun μ hμ => μ.site_send_le hμ _ hquery hplain
  | start place spec station r w hplace hact =>
    obtain ⟨-, hw, htouches⟩ := Cluster.touches_act hplace hact (Site.keeps_start _ spec)
    refine ⟨_, rfl, htouches.quiet_site (by rw [hw]; rfl) rfl (fun μ _ => le_refl _) ?_⟩
    intro n hn
    obtain ⟨s, -, rfl⟩ := List.mem_map.1 hn
    exact ⟨_, s, rfl⟩
  | collect n hended =>
    refine ⟨[], rfl, .ends (t := .job n) ?_ ⟨fun t' ht' => ?_, le_refl _, le_refl _⟩ fun μ => ?_⟩
    · simp [Cluster.activity?, Table.get?_erase]
    · cases t' with
      | job k =>
        have hne : k ≠ n := fun h => ht' (congrArg _ h)
        simp [Cluster.activity?, Table.get?_erase, hne]
      | drain | follow | publish => rfl
    · exact add_le_add_left (add_le_add_left (μ.jobs_erase_le _ _) _) _
  | drift w hdrift =>
    exact ⟨[], rfl, .quiet ⟨hdrift.activity?, hdrift.nextJob.ge, hdrift.drawn.ge⟩ (by simp)
      fun μ _ => hdrift.amount_le μ⟩
  | join links s hfresh =>
    refine ⟨[], rfl, .quiet ⟨Cluster.activity?_join hs hfresh.inbound, le_refl _, le_refl _⟩
      (by simp) fun μ _ => ?_⟩
    · have hnone : μ.node s.node = 0 := by
        rw [Measure.node, hfresh.inbound, Measure.replies, hfresh.replies]
        rfl
      have hstations : μ.stations (h.cluster.stations ++ [s]) = μ.stations h.cluster.stations := by
        simp [Measure.stations, hnone]
      simp only [Measure.cluster, hstations]
      exact add_le_add_right (μ.links_le hfresh.transit) _

end History

end Fleet
