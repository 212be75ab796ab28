import Fleet.Proofs.Cluster.Slots

/-!
# What happens to a query that waits

A query that was written waits until its task picks up its outcome or its time is over. In the
meantime nothing that other tasks and other nodes do reaches it. Only an event that its own node
takes out of its mailbox may bring its outcome.
-/

namespace Fleet

/-- A query that a task at a place waits for until a deadline. -/
structure Await where
  task : Task
  place : Nat
  /-- The id of the node at the place. -/
  node : String
  id : Uuid
  deadline : Nat

/-! ### Work that waits for a query -/

namespace Work

variable {work : Work} {id : Uuid} {deadline : Nat}

/-- Who may wait for a query. -/
theorem query?_cases {q : Query} (h : work.query? = some q) :
    work = .query q ∨ (∃ node, work = .creation (.asking node q)) ∨
      ∃ ticket e node rest, work = .dispatch (.placing ticket e (.asking node q) rest) := by
  have hcreation : ∀ {c : Creation}, c.query? = some q → ∃ node, c = .asking node q := by
    intro c hc
    cases c with
    | asking node q' =>
      cases hc
      exact ⟨node, rfl⟩
    | routing | placing | choosing | done => cases hc
  cases work with
  | query q' =>
    cases h
    exact .inl rfl
  | creation c =>
    obtain ⟨node, rfl⟩ := hcreation h
    exact .inr (.inl ⟨node, rfl⟩)
  | dispatch d =>
    cases d with
    | placing ticket e c rest =>
      obtain ⟨node, rfl⟩ := hcreation h
      exact .inr (.inr ⟨ticket, e, node, rest, rfl⟩)
    | opening | firing | answering | done => cases h

/-- A job whose query waits has not ended. -/
theorem not_ended (hquery : work.query? = some (.waiting id deadline)) : work.ended = false := by
  rcases query?_cases hquery with rfl | ⟨node, rfl⟩ | ⟨ticket, e, node, rest, rfl⟩ <;> rfl

/-- A query that waits may go on when its outcome is there or its time is over. -/
theorem canStep_of_waiting (hquery : work.query? = some (.waiting id deadline)) (n : Node)
    (noticed : Nat) :
    work.canStep n noticed = (n.messenger.replies.contains id || decide (deadline ≤ noticed)) := by
  rcases query?_cases hquery with rfl | ⟨node, rfl⟩ | ⟨ticket, e, node, rest, rfl⟩ <;> rfl

/-- A query looks for its outcome first, whatever the time. -/
theorem step_of_answered {σ : Type} [Transport σ] {s : Site σ} {r : Message}
    (hquery : work.query? = some (.waiting id deadline))
    (hr : s.node.messenger.replies.get? id = some (.answer r)) :
    (work.step s).1.query? = some (.done (.ok (some r))) := by
  have hstep : ((Query.waiting id deadline).step s).1 = .done (.ok (some r)) := by
    simp only [Query.step, Query.poll, Messenger.takeReply, hr]
    rfl
  rcases query?_cases hquery with rfl | ⟨node, rfl⟩ | ⟨ticket, e, node, rest, rfl⟩ <;>
    exact congrArg some hstep

end Work

namespace Cluster

variable {σ : Type}

/-- The place of the node that a task works at, and what it works on. -/
def at? (w : Cluster σ) : Task → Option (Nat × Work)
  | .job n => (w.jobs.get? n).map fun j => (j.station, j.work)
  | .drain place queue => w.stations[place]?.bind fun s =>
      (s.node.current? queue).map fun d => (place, .dispatch d)
  | .follow _ | .publish .. => none

/-- A task waits for the outcome of a query that was written, and this is what its node keeps about
the query. -/
def Waits (w : Cluster σ) (x : Await) (slot : Slot) : Prop :=
  ∃ station work, w.stations[x.place]? = some station ∧ station.node.id = x.node ∧
    w.at? x.task = some (x.place, work) ∧ work.query? = some (.waiting x.id x.deadline) ∧
      station.node.messenger.slot x.id = slot

/-- The node at a place takes an event out of its mailbox. -/
def Takes [Transport σ] (w : Cluster σ) (place : Nat) (e : TransportEvent)
    (w' : Cluster σ) : Prop :=
  ∃ station f links, w.stations[place]? = some station ∧ station.follower = some f ∧
    Transport.take? w.links f.mailbox = some (e, links) ∧
      w' = ({ w with links }).put place station ((({ w with links }).site station).handle e)

/-- The event that the node at a place takes next. -/
def mail? [Transport σ] (w : Cluster σ) (place : Nat) : Option TransportEvent :=
  w.stations[place]?.bind fun s => s.follower.bind fun f =>
    if f.running then (Transport.take? w.links f.mailbox).map Prod.fst else none

variable {w w' : Cluster σ} {x : Await} {slot slot' : Slot}

theorem takes_of_mail? [Transport σ] {place : Nat} {e : TransportEvent}
    (h : w.mail? place = some e) : w.Takes place e (w.step (.follow place)) := by
  obtain ⟨station, hplace, h⟩ := Option.bind_eq_some_iff.1 h
  obtain ⟨f, hfollower, h⟩ := Option.bind_eq_some_iff.1 h
  split at h
  · next hrunning =>
    obtain ⟨⟨e', links⟩, htake, heq⟩ := Option.map_eq_some_iff.1 h
    cases heq
    have hstep : w.canStep (.follow place) = true := by
      simp [canStep, canFollow, hplace, hfollower, hrunning, htake]
    refine ⟨station, f, links, hplace, hfollower, htake, ?_⟩
    rw [step, if_pos hstep]
    simp only [hplace, hfollower, stepFollower, htake]
  · cases h

theorem activity?_eq {t : Task} {place : Nat} {work : Work} {station : Station}
    (h : w.at? t = some (place, work)) (hplace : w.stations[place]? = some station) :
    w.activity? t = some (station.node.id, work) := by
  cases t with
  | job n =>
    obtain ⟨j, hj, heq⟩ := Option.map_eq_some_iff.1 h
    cases heq
    simp [activity?, hj, hplace]
  | drain place' queue =>
    obtain ⟨s, hs, h⟩ := Option.bind_eq_some_iff.1 h
    obtain ⟨d, hd, heq⟩ := Option.map_eq_some_iff.1 h
    cases heq
    obtain rfl := Option.some.inj (hs.symm.trans hplace)
    simp [activity?, hplace, hd]
  | follow | publish => cases h

theorem Waits.activity? (h : w.Waits x slot) : ∃ work, w.activity? x.task = some (x.node, work) ∧
    work.query? = some (.waiting x.id x.deadline) ∧ work.id? = some x.id := by
  obtain ⟨station, work, hplace, hnode, hat, hquery, -⟩ := h
  refine ⟨work, ?_, hquery, by rw [Work.id?, hquery]; rfl⟩
  rw [← hnode]
  exact activity?_eq hat hplace

/-- A query waits on while its task is left alone. -/
theorem Waits.of_station (h : w.Waits x slot)
    (hjob : ∀ n, x.task = .job n → w'.jobs.get? n = w.jobs.get? n)
    (hstation : ∀ s, w.stations[x.place]? = some s → ∃ s', w'.stations[x.place]? = some s' ∧
      s'.node.id = s.node.id ∧
        (∀ queue, x.task = .drain x.place queue →
          s'.node.current? queue = s.node.current? queue) ∧
        (s.node.messenger.slot x.id = slot → s'.node.messenger.slot x.id = slot')) :
    w'.Waits x slot' := by
  obtain ⟨s, work, hs, hnode, hat, hquery, hslot⟩ := h
  obtain ⟨s', hs', hid, hqueue, hslot'⟩ := hstation s hs
  refine ⟨s', work, hs', hid.trans hnode, ?_, hquery, hslot' hslot⟩
  cases ht : x.task with
  | job n =>
    rw [ht, at?] at hat
    rw [at?, hjob n ht, hat]
  | drain place queue =>
    rw [ht] at hat
    obtain ⟨s₀, hs₀, hd⟩ := Option.bind_eq_some_iff.1 hat
    obtain ⟨d, hd, heq⟩ := Option.map_eq_some_iff.1 hd
    cases heq
    obtain rfl := Option.some.inj (hs.symm.trans hs₀)
    simp [at?, hs', hqueue queue ht, hd]
  | follow | publish =>
    rw [ht] at hat
    cases hat

/-- A query waits on while one node changes. -/
theorem Waits.set (h : w.Waits x slot) {place : Nat} {station station' : Station}
    (hplace : w.stations[place]? = some station)
    (hstations : w'.stations = w.stations.set place station')
    (hid : station'.node.id = station.node.id)
    (hjob : ∀ n, x.task = .job n → w'.jobs.get? n = w.jobs.get? n)
    (hqueue : ∀ queue, x.task = .drain place queue →
      station'.node.current? queue = station.node.current? queue)
    (hslot : place = x.place → station.node.messenger.slot x.id = slot →
      station'.node.messenger.slot x.id = slot')
    (hother : place ≠ x.place → slot = slot') : w'.Waits x slot' := by
  refine h.of_station hjob fun s hs => ?_
  obtain ⟨hlt, -⟩ := List.getElem?_eq_some_iff.1 hplace
  rw [hstations, List.getElem?_set]
  by_cases hx : place = x.place
  · subst hx
    obtain rfl := Option.some.inj (hplace.symm.trans hs)
    exact ⟨station', by simp [hlt], hid, hqueue, hslot rfl⟩
  · exact ⟨s, by rw [if_neg hx, hs], rfl, fun _ _ => rfl, fun h => h.trans (hother hx)⟩

/-- A query waits on while a node changes that keeps the same about it. -/
theorem Waits.keep (h : w.Waits x slot) {place : Nat} {station station' : Station}
    (hplace : w.stations[place]? = some station)
    (hstations : w'.stations = w.stations.set place station')
    (hid : station'.node.id = station.node.id)
    (hjob : ∀ n, x.task = .job n → w'.jobs.get? n = w.jobs.get? n)
    (hqueue : ∀ queue, x.task = .drain place queue →
      station'.node.current? queue = station.node.current? queue)
    (hsame : station'.node.messenger.slot x.id = station.node.messenger.slot x.id) :
    w'.Waits x slot :=
  h.set hplace hstations hid hjob hqueue (fun _ h => hsame.trans h) fun _ => rfl

variable [FaithfulTransport σ]

/-- A node takes an event: its queries wait on, but for those that the event is the end of. -/
theorem Takes.waits {P : Listeners Handler → Prop} {place : Nat} {e : TransportEvent}
    (htakes : w.Takes place e w') (hs : w.Sound P) (h : w.Waits x slot) :
    w'.Waits x (if place = x.place then slot.after x.id e else slot) := by
  obtain ⟨station, f, links, hplace, hfollower, htake, rfl⟩ := htakes
  have htidy := (hs.stations station (List.mem_of_getElem? hplace)).tidy
  set s : Site σ := ({ w with links } : Cluster σ).site station
  refine h.set hplace rfl (s.keeps_handle e).id (fun _ _ => rfl)
    (fun queue _ => current?_handle htidy e queue) (fun hx hslot => ?_) fun hx => (if_neg hx).symm
  rw [if_pos hx, ← hslot]
  exact s.slot_handle e x.id

/-- A query waits on while a step touches a node and keeps the same about the query. -/
theorem Waits.touches (h : w.Waits x slot) {place : Nat} {station station' : Station} {s' : Site σ}
    (htouches : Touches w w' place station station' s')
    (hjob : ∀ n, x.task = .job n → w'.jobs.get? n = w.jobs.get? n)
    (hqueue : ∀ queue, x.task = .drain place queue →
      s'.node.current? queue = station.node.current? queue)
    (hsame : s'.node.messenger.slot x.id = station.node.messenger.slot x.id) :
    w'.Waits x slot := by
  rw [← htouches.node] at hqueue hsame
  refine h.keep htouches.found htouches.stations ?_ hjob hqueue hsame
  rw [htouches.node]
  exact htouches.keeps.id

/-- A query waits on while a queue that its task does not work on changes. -/
theorem Waits.drains (h : w.Waits x slot) {place queue : Nat} {station station' : Station}
    {s' : Site σ} {q : Inbound.Queue Dispatch}
    (htouches : Touches w w' place station station' s') (hjobs : w'.jobs = w.jobs)
    (ht : .drain place queue ≠ x.task) (hqueue : station.node.inbound.queues.get? queue = some q)
    (f : Inbound.Queue Dispatch → Inbound.Queue Dispatch)
    (hinbound : s'.node.inbound =
      { station.node.inbound with queues := station.node.inbound.queues.modify queue f })
    (hsame : s'.node.messenger.slot x.id = station.node.messenger.slot x.id) :
    w'.Waits x slot := by
  refine h.touches htouches (fun n _ => by rw [hjobs]) (fun other hx => ?_) hsame
  have hne : other ≠ queue := fun heq => ht (by rw [hx, heq])
  exact (current?_modify f hqueue hinbound other).trans (if_neg hne)

/-- A query waits on while the job of another task takes its step. -/
theorem Waits.job {n : Nat} {j : Job} {station : Station} {work : Work} {s : Site σ}
    (h : w.Waits x slot) (hplace : w.stations[j.station]? = some station)
    (hmove : Work.Move (w.site station) j.work work s) (ht : .job n ≠ x.task)
    (hid : j.work.id? ≠ some x.id) (hfresh : w.drawn < s.drawn → x.id ≠ .fresh w.drawn) :
    Waits { w.put j.station station (retire j.work work s) with
      jobs := w.jobs.insert n { j with work } } x slot := by
  obtain ⟨creations, heq⟩ := retire_eq s j.work work
  have hinbound : s.node.inbound = station.node.inbound := hmove.inbound
  refine h.touches (touches_job hplace hmove) (fun m hm => ?_) (fun queue _ => ?_) ?_
  · have hne : m ≠ n := fun h => ht (by rw [hm, h])
    exact (Table.get?_insert ..).trans (if_neg hne)
  · rw [heq, Node.current?, hinbound, Node.current?]
  · rw [heq]
    exact hmove.slot hid (hmove.id?_ne hid hfresh)

/-- While another task takes a step, a query waits on, or an event comes to its node. -/
theorem Move.still_waits {P : Listeners Handler → Prop} {t : Task} (hmove : Move w t w')
    (hs : w.Sound P) (h : w.Waits x slot) (ht : t ≠ x.task)
    (hother : ∀ a work, w.activity? t = some (a, work) → work.id? ≠ some x.id)
    (hfresh : w.drawn < w'.drawn → x.id ≠ .fresh w.drawn) :
    w'.Waits x slot ∨ ∃ e, w.Takes x.place e w' ∧ w'.Waits x (slot.after x.id e) := by
  cases hmove with
  | @job n j station work s hjob hplace hmove =>
    have hact : w.activity? (.job n) = some (station.node.id, j.work) := by
      simp [activity?, hjob, hplace]
    have hdrawn : (retire j.work work s).drawn = s.drawn := by
      obtain ⟨creations, heq⟩ := retire_eq s j.work work
      rw [heq]
    exact .inl (h.job hplace hmove ht (hother _ _ hact)
      fun hlt => hfresh (hlt.trans_eq hdrawn.symm))
  | @works place queue station q d d' s hplace hqueue hcurrent hmove =>
    have hcur : station.node.current? queue = some d := by simp [Node.current?, hqueue, hcurrent]
    have hid := hother station.node.id (.dispatch d) (by simp [activity?, hplace, hcur])
    have hid' := (Work.Move.dispatch hmove).id?_ne hid hfresh
    have hinbound : s.node.inbound = station.node.inbound := hmove.inbound
    exact .inl (h.drains (touches_works hplace hmove) rfl ht hqueue ({ · with current := some d' })
      (by rw [← hinbound]; rfl) (hmove.slot hid hid'))
  | closes hplace hqueue =>
    exact .inl (h.drains (touches_closes _ hplace) rfl ht hqueue ({ · with current := none }) rfl
      rfl)
  | takes hplace hqueue =>
    exact .inl (h.drains (touches_takes _ hplace) rfl ht hqueue (·.startNext .opening) rfl rfl)
  | @follows place station f e links hplace hfollower htake =>
    -- the only step of another task that can end what the query waits for
    have htakes : w.Takes place e _ := ⟨station, f, links, hplace, hfollower, htake, rfl⟩
    have hafter := htakes.waits hs h
    split at hafter
    · next hx => exact .inr ⟨e, hx ▸ htakes, hafter⟩
    · exact .inl hafter
  | looks hplace hfollower hmailbox hlinks =>
    exact .inl (h.touches (touches_looks hplace hfollower hmailbox hlinks) (fun _ _ => rfl)
      (fun _ _ => rfl) rfl)
  | @reports place k station publishers hplace =>
    obtain ⟨hinbound, hmessenger, -⟩ := (w.site station).publish_spec w.cpu
    refine .inl (h.touches (touches_reports publishers hplace) (fun _ _ => rfl) (fun queue _ => ?_)
      (congrArg (·.slot x.id) hmessenger))
    rw [Node.current?, hinbound]
    rfl
  | waits publishers hplace =>
    exact .inl (h.touches (touches_waits publishers hplace) (fun _ _ => rfl) (fun _ _ => rfl) rfl)
  | rests => exact .inl h

theorem Waits.job_lt {P : Listeners Handler → Prop} (hs : w.Sound P) (h : w.Waits x slot) {n : Nat}
    (hn : x.task = .job n) : n < w.nextJob := by
  obtain ⟨s, work, -, -, hat, -⟩ := h
  rw [hn] at hat
  obtain ⟨j, hj, -⟩ := Option.map_eq_some_iff.1 hat
  exact (hs.jobs n j hj).number

omit [FaithfulTransport σ] in
theorem Waits.not_ended (h : w.Waits x slot) {n : Nat} (hn : x.task = .job n) :
    ¬ ∀ j, w.jobs.get? n = some j → j.work.ended = true := by
  intro hended
  obtain ⟨s, work, -, -, hat, hquery, -⟩ := h
  rw [hn] at hat
  obtain ⟨j, hj, heq⟩ := Option.map_eq_some_iff.1 hat
  simp only [Prod.mk.injEq] at heq
  obtain ⟨-, rfl⟩ := heq
  cases (Work.not_ended hquery).symm.trans (hended j hj)

/-- What no task does leaves a query waiting. -/
theorem Waits.drift {P : Listeners Handler → Prop} (h : w.Waits x slot) (hdrift : w.Drift P w') :
    w'.Waits x slot := by
  refine h.of_station (fun n _ => by rw [hdrift.jobs]) fun s hs => ?_
  obtain ⟨hlt, hget⟩ := List.getElem?_eq_some_iff.1 hs
  have hlt' : x.place < w'.stations.length := hdrift.stations.length_eq ▸ hlt
  have hstation := hdrift.stations.get hlt hlt'
  simp only [List.get_eq_getElem, hget] at hstation
  refine ⟨_, List.getElem?_eq_getElem hlt', hstation.id, fun queue _ => ?_, fun hslot => ?_⟩
  · rw [Node.current?, hstation.inbound, Node.current?]
  · rw [← hslot, Messenger.slot, hstation.pending, hstation.replies, Messenger.slot]

/-- A query waits on while a caller lets a node do something. -/
theorem Waits.called {P : Listeners Handler → Prop} {place : Nat} {station station' : Station}
    {s' : Site σ} (hs : w.Sound P) (h : w.Waits x slot)
    (hcalled : Called w w' place station station' s') : w'.Waits x slot := by
  refine h.touches hcalled.toTouches (fun n hn => hcalled.jobs n (h.job_lt hs hn))
    (fun queue _ => ?_) ?_
  · rw [Node.current?, hcalled.inbound, Node.current?]
  · rw [hcalled.messenger]

/-! ### The task of the query -/

omit [FaithfulTransport σ] in
theorem canStep_of_at? [Transport σ] {t : Task} {place : Nat} {station : Station} {work : Work}
    {q : Query} (hat : w.at? t = some (place, work)) (hplace : w.stations[place]? = some station)
    (hquery : work.query? = some q) : w.canStep t = work.canStep station.node w.noticed := by
  cases t with
  | job n =>
    obtain ⟨j, hj, heq⟩ := Option.map_eq_some_iff.1 hat
    cases heq
    simp only [canStep, hj, hplace]
  | drain place' queue =>
    obtain ⟨s, hs, hat⟩ := Option.bind_eq_some_iff.1 hat
    obtain ⟨d, hd, heq⟩ := Option.map_eq_some_iff.1 hat
    cases heq
    obtain ⟨p, hp, hcurrent⟩ := Option.bind_eq_some_iff.1 hd
    obtain rfl := Option.some.inj (hs.symm.trans hplace)
    cases d with
    | placing =>
      simp only [canStep, hplace, Node.canDrain, hp, hcurrent]
      rfl
    | opening | firing | answering | done => cases hquery
  | follow | publish => cases hat

/-- A task that waits for a query takes the step of its work. -/
theorem activity?_step {t : Task} {place : Nat} {station : Station} {work : Work} {q : Query}
    (hat : w.at? t = some (place, work)) (hplace : w.stations[place]? = some station)
    (hquery : work.query? = some q) (hstep : w.canStep t = true) :
    (w.step t).activity? t = some (station.node.id, (work.step (w.site station)).1) := by
  cases t with
  | job n =>
    obtain ⟨j, hj, heq⟩ := Option.map_eq_some_iff.1 hat
    cases heq
    rw [step, if_pos hstep]
    simp only [hj, hplace]
    exact (touches_job (n := n) hplace (Work.move_step _ j.work)).activity?_job
      ((Table.get?_insert ..).trans (if_pos rfl))
  | drain place' queue =>
    obtain ⟨s, hs, hat⟩ := Option.bind_eq_some_iff.1 hat
    obtain ⟨d, hd, heq⟩ := Option.map_eq_some_iff.1 hat
    cases heq
    obtain ⟨p, hp, hcurrent⟩ := Option.bind_eq_some_iff.1 hd
    obtain rfl := Option.some.inj (hs.symm.trans hplace)
    have hp' : (w.site s).node.inbound.queues.get? queue = some p := hp
    have hmove := Dispatch.move_step (w.site s) d
    have hinbound : (d.step (w.site s)).2.node.inbound = s.node.inbound := hmove.inbound
    have hcur : ((d.step (w.site s)).2.setCurrent queue (some (d.step (w.site s)).1)).node.current?
        queue = some (d.step (w.site s)).1 :=
      (current?_modify ({ · with current := some (d.step (w.site s)).1 }) hp
        (by rw [← hinbound]; rfl) queue).trans (if_pos rfl)
    rw [step, if_pos hstep]
    simp only [act, hplace, Option.map_some, Site.drainStep, hp', hcurrent]
    cases d with
    | placing => exact (touches_works hplace hmove).activity?_drain.trans (by rw [hcur]; rfl)
    | opening | firing | answering | done => cases hquery
  | follow | publish => cases hat

omit [FaithfulTransport σ] in
/-- A query rests while its outcome is not there and its time is not over. -/
theorem Waits.rests [Transport σ] (h : w.Waits x slot) (hslot : slot.outcome = none)
    (hearly : w.noticed < x.deadline) : w.canStep x.task = false := by
  obtain ⟨station, work, hplace, -, hat, hquery, rfl⟩ := h
  have hreplies : station.node.messenger.replies.contains x.id = false :=
    Table.contains_eq_false_iff.2 hslot
  rw [canStep_of_at? hat hplace hquery, Work.canStep_of_waiting hquery, hreplies]
  simpa using hearly

/-- A query whose response is there may go on, and returns it. -/
theorem Waits.answered {P : Listeners Handler → Prop} {r : Message} (hs : w.Sound P)
    (h : w.Waits x slot) (hslot : slot.outcome = some (.answer r)) :
    w.canStep x.task = true ∧
      (∃ c, .returned c x.node x.id (some r) ∈ w.notes (w.step x.task) x.task) ∧
        ∀ c a r', .returned c a x.id r' ∈ w.notes (w.step x.task) x.task → r' = some r := by
  obtain ⟨station, work, hplace, hnode, hat, hquery, rfl⟩ := h
  have hr : station.node.messenger.replies.get? x.id = some (.answer r) := hslot
  have hstep : w.canStep x.task = true := by
    rw [canStep_of_at? hat hplace hquery, Work.canStep_of_waiting hquery,
      Table.contains_iff.2 ⟨_, hr⟩]
    rfl
  have hafter := activity?_step hat hplace hquery hstep
  have hdone := Work.step_of_answered (s := w.site station) hquery hr
  refine ⟨hstep, ?_⟩
  generalize (work.step (w.site station)).1 = work' at hafter hdone
  have hbefore := activity?_eq hat hplace
  rcases (effect_step hs x.task).activity hafter with
    hold | hnew | ⟨station', before, s', -, hid, hold, hmove, hnotes⟩
  · rw [hbefore] at hold
    cases hold
    rw [hquery] at hdone
    cases hdone
  · rcases hnew with ⟨d, rfl⟩ | ⟨m, timeout, rfl⟩ | ⟨spec, rfl⟩ <;> cases hdone
  · rw [hbefore] at hold
    cases hold
    have hprogress : work.progress (x.task.cause work) station'.node.id work' =
        [.returned (x.task.cause work) x.node x.id (some r)] := by
      simp [Work.progress, hquery, hdone, Query.notes, Query.id?, hid, hnode]
    rw [hnotes]
    refine ⟨⟨x.task.cause work, by simp [Work.notes, hprogress]⟩, fun c a r' hret => ?_⟩
    obtain ⟨-, -, q, -, -, hdone'⟩ := Work.of_mem_returned hret
    rw [hdone] at hdone'
    cases hdone'
    rfl

end Cluster

namespace History

variable {σ : Type} [FaithfulTransport σ] {P : Listeners Handler → Prop} {h h' : History σ}
  {x : Await} {slot : Slot}

/-- What a step means to a query that waits: nothing, or its task goes on, or its node takes an
event out of its mailbox. -/
theorem Next.waits (hnext : Next P h h') (hs : h.cluster.Sound P) (hsole : h.Sole)
    (hdrawn : h'.cluster.drawn ≤ 2 ^ 128) (hw : h.cluster.Waits x slot) :
    h'.cluster.Waits x slot ∨ h' = h.run [x.task] ∨
      ∃ e, h.cluster.Takes x.place e h'.cluster ∧ h'.cluster.Waits x (slot.after x.id e) := by
  rcases hnext.kinds with ⟨t, rfl⟩ | ⟨_, _, _, _, hcalled⟩ | ⟨n, hended, heq⟩ | hdrift |
    ⟨links, s, -, heq⟩
  · by_cases ht : t = x.task
    · exact .inr (.inl (ht ▸ rfl))
    · obtain ⟨work, hact, -, hid⟩ := hw.activity?
      have hmove := Cluster.move_step h.cluster t
      have hother : ∀ a work', h.cluster.activity? t = some (a, work') → work'.id? ≠ some x.id :=
        fun a work' hact' hid' => ht (hsole.once _ _ _ _ _ _ _ hact' hact hid' hid)
      have hfresh : h.cluster.drawn < (h.cluster.step t).drawn → x.id ≠ .fresh h.cluster.drawn := by
        intro hlt heq
        obtain ⟨k, hk, hfresh⟩ := hsole.drawn _ _ _ _ hact hid
        exact Coherent.fresh_not_drawn (hlt.trans_le hdrawn) hk (heq.symm.trans hfresh)
      rcases hmove.still_waits hs hw ht hother hfresh with hsame | htaken
      · exact .inl hsame
      · exact .inr (.inr htaken)
  · exact .inl (hw.called hs hcalled)
  · rw [heq]
    refine .inl (hw.of_station (fun k hk => ?_) fun s hs' => ⟨s, hs', rfl, fun _ _ => rfl, id⟩)
    have hne : k ≠ n := by
      rintro rfl
      exact hw.not_ended hk hended
    exact (Table.get?_erase ..).trans (if_neg hne)
  · exact .inl (hw.drift hdrift)
  · rw [heq]
    refine .inl (hw.of_station (fun _ _ => rfl) fun s' hs' => ?_)
    obtain ⟨hlt, -⟩ := List.getElem?_eq_some_iff.1 hs'
    exact ⟨s', (List.getElem?_append_left hlt).trans hs', rfl, fun _ _ => rfl, id⟩

end History

end Fleet
